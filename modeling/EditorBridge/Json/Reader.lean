/-
Reading JSON text.

The reader keeps the order of the members of an object; a name that is written
twice keeps its first place and takes its last value.  Numbers without point and
exponent are integers of any size, the others floating point numbers, and the words
`NaN`, `Infinity` and `-Infinity` are numbers too.  A text that is no JSON is
refused with the place of the first character that cannot stand where it stands.  An
escape of half a surrogate pair alone stands for nothing that a text could hold here;
it is refused as well, for a reason of its own.
-/
import EditorBridge.Number.Digits
import EditorBridge.Value.Basic

namespace EditorBridge.Json

/-- Why a text is no JSON. -/
inductive Problem where
  | value
  | extraData
  | memberName
  | colon
  | comma
  | unterminated
  | controlCharacter
  | escape
  | unicodeEscape
  | byteOrderMark
  /-- Half a surrogate pair, which is no character. -/
  | surrogate
  /-- An integer with more digits than are read. -/
  | tooManyDigits (count : Nat)
  deriving DecidableEq, Repr

/-- What the message about a problem says. -/
def Problem.text : Problem → String
  | value => "Expecting value"
  | extraData => "Extra data"
  | memberName => "Expecting property name enclosed in double quotes"
  | colon => "Expecting ':' delimiter"
  | comma => "Expecting ',' delimiter"
  | unterminated => "Unterminated string starting at"
  | controlCharacter => "Invalid control character at"
  | escape => "Invalid \\escape"
  | unicodeEscape => "Invalid \\uXXXX escape"
  | byteOrderMark => "Unexpected UTF-8 BOM (decode using utf-8-sig)"
  | surrogate => "Surrogate without its other half"
  | tooManyDigits n => Digits.excess n

/-- A problem together with the text from the place of the problem on. -/
structure Fault where
  problem : Problem
  rest : List Char

/-- The characters that may stand between the parts of a JSON text. -/
def isSpace (c : Char) : Bool := c == ' ' || c == '\t' || c == '\n' || c == '\r'

def skipSpace (s : List Char) : List Char := s.dropWhile isSpace

/-- The value of four hexadecimal digits. -/
def hex4? (ds : List Char) : Option Nat :=
  if ds.length = 4 ∧ ds.all (Digits.isDigitIn 16) then some (Digits.valueIn 16 ds) else none

/-- Whether a code unit is half of a surrogate pair. -/
def isSurrogate (n : Nat) : Bool := decide (0xd800 ≤ n) && decide (n < 0xe000)

/-- The character of a pair of surrogates. -/
def joinPair (high low : Nat) : Char :=
  Char.ofNat (0x10000 + (high - 0xd800) * 0x400 + (low - 0xdc00))

/-- The character that a backslash and a letter stand for. -/
def letterEscape? : Char → Option Char
  | '"' => some '"'
  | '\\' => some '\\'
  | '/' => some '/'
  | 'b' => some '\x08'
  | 'f' => some '\x0c'
  | 'n' => some '\n'
  | 'r' => some '\r'
  | 't' => some '\t'
  | _ => none

/-- The characters of a text up to the closing quote, and what follows it.  `start` is the text
from the opening quote on. -/
def readChars (start : List Char) (acc : List Char) :
    List Char → Except Fault (List Char × List Char)
  | [] => .error ⟨.unterminated, start⟩
  | '"' :: r => .ok (acc.reverse, r)
  | ['\\'] => .error ⟨.unterminated, start⟩
  | '\\' :: 'u' :: r =>
    -- a text that ends right behind the four digits is refused as well
    if r.length ≤ 4 then .error ⟨.unicodeEscape, 'u' :: r⟩
    else match r with
      | a :: b :: c :: d :: r' =>
        match hex4? [a, b, c, d] with
        | none => .error ⟨.unicodeEscape, 'u' :: r⟩
        | some n =>
          if 0xd800 ≤ n ∧ n < 0xdc00 ∧ 6 < r'.length then
            match _hr : r' with
            | '\\' :: 'u' :: e :: f :: g :: h :: r'' =>
              match hex4? [e, f, g, h] with
              | none => .error ⟨.unicodeEscape, 'u' :: e :: f :: g :: h :: r''⟩
              | some m =>
                if 0xdc00 ≤ m ∧ m < 0xe000 then readChars start (joinPair n m :: acc) r''
                else .error ⟨.surrogate, 'u' :: r⟩
            | _ => .error ⟨.surrogate, 'u' :: r⟩
          else if isSurrogate n then .error ⟨.surrogate, 'u' :: r⟩
          else readChars start (Char.ofNat n :: acc) r'
      | _ => .error ⟨.unicodeEscape, 'u' :: r⟩
  | '\\' :: c :: r => match letterEscape? c with
    | some c' => readChars start (c' :: acc) r
    | none => .error ⟨.escape, '\\' :: c :: r⟩
  | c :: r =>
    if c.toNat < 0x20 then .error ⟨.controlCharacter, c :: r⟩
    else readChars start (c :: acc) r
termination_by s => s.length
decreasing_by all_goals (subst_vars; simp only [List.length_cons]; omega)

/-- The integer part of a number: a zero, or digits that begin with another one. -/
def integerPart? : List Char → Option (List Char × List Char)
  | '0' :: r => some (['0'], r)
  | c :: r => if c.isDigit then some ((c :: r).span Char.isDigit) else none
  | [] => none

/-- The digits behind a point, which are there only if one follows the point at once. -/
def fractionPart : List Char → List Char × List Char
  | '.' :: c :: r => if c.isDigit then (c :: r).span Char.isDigit else ([], '.' :: c :: r)
  | r => ([], r)

/-- The exponent, which is there only if it has a digit. -/
def exponentPart (s : List Char) : Option Int × List Char :=
  match s with
  | e :: r =>
    if e == 'e' || e == 'E' then
      let (neg, r') := match r with
        | '-' :: r' => (true, r')
        | '+' :: r' => (false, r')
        | r' => (false, r')
      match r'.span Char.isDigit with
      | ([], _) => (none, s)
      | (ds, r'') => (some (if neg then -(Digits.value ds : Int) else Digits.value ds), r'')
    else (none, s)
  | [] => (none, [])

/-- A number, given its sign and the text behind the sign. -/
def readNumber (start : List Char) (neg : Bool) (s : List Char) :
    Except Fault (Value × List Char) :=
  match integerPart? s with
  | none => .error ⟨.value, start⟩
  | some (whole, r) =>
    let (frac, r) := fractionPart r
    let (exp, r) := exponentPart r
    if frac.isEmpty && exp.isNone then
      if Digits.limit < whole.length then .error ⟨.tooManyDigits whole.length, start⟩
      else
        let n : Int := Digits.value whole
        .ok (.int (if neg then -n else n), r)
    else
      let x := Binary64.ofDecimal neg (Digits.value (whole ++ frac)) (exp.getD 0 - frac.length)
      .ok (.float x, r)

/-- Drops a word from the front of a text. -/
def dropWord? (word : String) (s : List Char) : Option (List Char) :=
  if word.toList.isPrefixOf s then some (s.drop word.length) else none

/-- A value that is neither a text nor made of other values. -/
def readPlain (s : List Char) : Except Fault (Value × List Char) :=
  match s with
  | 'n' :: _ => word s "null" .null
  | 't' :: _ => word s "true" (.bool true)
  | 'f' :: _ => word s "false" (.bool false)
  | 'N' :: _ => word s "NaN" (.float .nan)
  | 'I' :: _ => word s "Infinity" (.float (.infinity false))
  | '-' :: r =>
    match dropWord? "Infinity" r with
    | some r' => .ok (.float (.infinity true), r')
    | none => readNumber s true r
  | r => readNumber s false r
where
  word (s : List Char) (w : String) (v : Value) : Except Fault (Value × List Char) :=
    match dropWord? w s with
    | some r => .ok (v, r)
    | none => .error ⟨.value, s⟩

mutual

/-- A value and the text behind it.  Every value has at least one character, so the length of
the text bounds the depth. -/
def readValue : Nat → List Char → Except Fault (Value × List Char)
  | 0, s => .error ⟨.value, s⟩
  | fuel + 1, s =>
    match s with
    | '"' :: r => do
      let (cs, r) ← readChars s [] r
      .ok (.str (String.ofList cs), r)
    | '[' :: r =>
      match skipSpace r with
      | ']' :: r => .ok (.list [], r)
      | r => readItems fuel [] r
    | '\x7b' :: r =>
      match skipSpace r with
      | '\x7d' :: r => .ok (.dict [], r)
      | r => readMembers fuel [] r
    | s => readPlain s

/-- The items of an array from one of them on. -/
def readItems : Nat → List Value → List Char → Except Fault (Value × List Char)
  | 0, _, s => .error ⟨.value, s⟩
  | fuel + 1, acc, s => do
    let (v, r) ← readValue fuel s
    match skipSpace r with
    | ']' :: r => .ok (.list (v :: acc).reverse, r)
    | ',' :: r => readItems fuel (v :: acc) (skipSpace r)
    | r => .error ⟨.comma, r⟩

/-- The members of an object from one of them on. -/
def readMembers : Nat → List (Value × Value) → List Char → Except Fault (Value × List Char)
  | 0, _, s => .error ⟨.value, s⟩
  | fuel + 1, acc, s =>
    match s with
    | '"' :: r => do
      let (cs, r) ← readChars s [] r
      let key := Value.str (String.ofList cs)
      match skipSpace r with
      | ':' :: r =>
        let (v, r) ← readValue fuel (skipSpace r)
        match skipSpace r with
        | '\x7d' :: r => .ok (.dict (Value.put key v acc), r)
        | ',' :: r => readMembers fuel (Value.put key v acc) (skipSpace r)
        | r => .error ⟨.comma, r⟩
      | r => .error ⟨.colon, r⟩
    | s => .error ⟨.memberName, s⟩

end

/-- Where in a text a place lies: its line, its column and its distance from the start. -/
structure Place where
  line : Nat
  column : Nat
  index : Nat
  deriving DecidableEq, Repr, Inhabited

/-- The place of the character with a given index. -/
def placeOf (cs : List Char) (index : Nat) : Place :=
  let before := cs.take index
  let line := before.count '\n' + 1
  let column := (before.reverse.takeWhile (· != '\n')).length + 1
  ⟨line, column, index⟩

/-- A refusal: the problem and its place. -/
structure Error where
  problem : Problem
  place : Place
  deriving DecidableEq, Repr

/-- Whether the refusal is about the form of the text, and not about the size of a number. -/
def Error.isSyntax (e : Error) : Bool :=
  match e.problem with
  | .tooManyDigits _ => false
  | _ => true

/-- The message of a refusal. -/
def Error.message (e : Error) : String :=
  if e.isSyntax then
    s!"{e.problem.text}: line {e.place.line} column {e.place.column} (char {e.place.index})"
  else e.problem.text

/-- Reads a whole JSON text. -/
def parse (text : String) : Except Error Value :=
  let cs := text.toList
  let refuse (f : Fault) : Except Error Value :=
    .error ⟨f.problem, placeOf cs (cs.length - f.rest.length)⟩
  match cs with
  | '\ufeff' :: _ => refuse ⟨.byteOrderMark, cs⟩
  | _ =>
    match readValue (2 * cs.length + 2) (skipSpace cs) with
    | .error f => refuse f
    | .ok (v, r) =>
      match skipSpace r with
      | [] => .ok v
      | r => refuse ⟨.extraData, r⟩

end EditorBridge.Json
