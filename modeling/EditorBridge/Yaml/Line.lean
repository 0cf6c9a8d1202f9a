/-
Lines of a YAML text: line breaks, blanks and the marks between documents; and why a text
is no YAML document that could be used.

Most texts are refused for their form alone.  A scalar that looks like a number or a
moment, or is told to be one, and is none, is refused with a message of its own.
-/
import EditorBridge.Number.Digits
import EditorBridge.Text.Quoted
import EditorBridge.Value.Basic
import EditorBridge.Value.Shown

namespace EditorBridge.Yaml

/-- Why a text is refused. -/
inductive Error where
  | malformed
  /-- A moment that does not exist. -/
  | moment (p : Calendar.Problem)
  /-- A distance from universal time of a day or more, in seconds. -/
  | offset (seconds : Int)
  /-- Told to be a moment. -/
  | noMoment
  /-- Told to be a truth value. -/
  | noBool (text : String)
  | noInteger (base : Nat) (text : String)
  | noFloat (text : String)
  /-- Told to be a number, but empty. -/
  | noNumber
  | tooManyDigits (count : Nat)
  /-- An escape beyond the last character. -/
  | noCharacter (code : Nat)
  deriving Repr, DecidableEq

/-- The class of an error. -/
def Error.kind : Error → String
  | noMoment => "AttributeError"
  | noBool _ => "KeyError"
  | noNumber => "IndexError"
  | noCharacter n => if n < 0x80000000 then "ValueError" else "OverflowError"
  | _ => "ValueError"

/-- The message of an error. -/
def Error.message : Error → String
  | malformed => ""
  | moment p => p.message
  | offset n => "offset must be a timedelta strictly between -timedelta(hours=24) and " ++
      s!"timedelta(hours=24), not {Moment.shownDistance n}."
  | noMoment => "'NoneType' object has no attribute 'groupdict'"
  | noBool s => Text.quote s
  | noInteger b s => s!"invalid literal for int() with base {b}: {Text.quote s}"
  | noFloat s => "could not convert string to float: " ++ Text.quote s
  | noNumber => "string index out of range"
  | tooManyDigits n => Digits.excess n
  | noCharacter n =>
    if n < 0x80000000 then "chr() arg not in range(0x110000)"
    else "Python int too large to convert to C int"

/-! ### Lines -/

/-- The characters that end a line. -/
def isBreak (c : Char) : Bool :=
  c == '\n' || c == '\r' || c == '\x85' || c == '\u2028' || c == '\u2029'

/-- The blanks within a line. -/
def isBlank (c : Char) : Bool := c == ' ' || c == '\t'

/-- The characters that a text may hold. -/
def isText (c : Char) : Bool :=
  c == '\t' || c == '\n' || c == '\r' || (0x20 ≤ c.toNat && c.toNat ≤ 0x7e) || c == '\x85' ||
    (0xa0 ≤ c.toNat && c.toNat ≤ 0xfffd) || 0x10000 ≤ c.toNat

/-- Whether nothing of the line is left. -/
def atLineEnd : List Char → Bool
  | [] => true
  | c :: _ => isBreak c

/-- Whether a text begins with a space or a line end, or is over. -/
def atSpace : List Char → Bool
  | [] => true
  | c :: _ => c == ' ' || isBreak c

/-- Whether a text begins with a blank or a line end, or is over. -/
def atBlank : List Char → Bool
  | [] => true
  | c :: _ => isBlank c || isBreak c

/-- Takes a line break from the front of a text.  All ends of lines count as line feeds, but for
the separators of lines and paragraphs. -/
def takeBreak? : List Char → Option (Char × List Char)
  | '\r' :: '\n' :: r => some ('\n', r)
  | c :: r =>
    if c == '\u2028' || c == '\u2029' then some (c, r)
    else if isBreak c then some ('\n', r)
    else none
  | [] => none

/-- Whether a line begins with a mark between documents. -/
def atMark : List Char → Bool
  | '-' :: '-' :: '-' :: r => atBlank r
  | '.' :: '.' :: '.' :: r => atBlank r
  | _ => false

/-- Whether a text begins with that character. -/
def begins (c : Char) : List Char → Bool
  | x :: _ => x == c
  | [] => false

/-- What a line break and the breaks behind it stand for in a folded text: a single line feed
becomes a space. -/
def fold (first : Char) (more : List Char) : List Char :=
  if first ≠ '\n' then first :: more else if more.isEmpty then [' '] else more

/-- Skips the spaces, the comment and the end of a line; anything else there is refused. -/
def skipLine (s : List Char) : Except Error (List Char) :=
  let r := s.dropWhile (· == ' ')
  let r := if begins '#' r then r.dropWhile (!isBreak ·) else r
  if atLineEnd r then .ok ((takeBreak? r).elim r (·.2)) else .error .malformed

end EditorBridge.Yaml
