/-
Scalars that stand in a line, without quotes and in quotes.

A plain scalar goes on for as long as nothing in it means something else: a colon or a
number sign next to a blank, or, within brackets and braces, a comma or one of them.  It
may go on over several lines if they are indented.

In single quotes only the quote itself is special: it is written twice.  In double quotes
a backslash begins an escape.  A line break in the text, together with the blanks around
it, stands for a space, and several of them for one line feed less.
-/
import EditorBridge.Yaml.Line

namespace EditorBridge.Yaml.Plain

/-- Signs that end a plain scalar within brackets and braces. -/
def isFlowSign (c : Char) : Bool :=
  c == ',' || c == '?' || c == '[' || c == ']' || c == '\x7b' || c == '\x7d'

/-- The signs that can stand behind the colon after a key within brackets and braces. -/
def isValueSign (c : Char) : Bool := isFlowSign c && c != '?'

/-- Whether a colon in front of a text ends a key. -/
def endsKey (flow : Bool) (r : List Char) : Bool :=
  atBlank r || (flow && r.head?.any isValueSign)

/-- What can stand at the front of a text as part of a plain scalar, up to the next blank. -/
def word (flow : Bool) : List Char → List Char × List Char
  | [] => ([], [])
  | c :: r =>
    if isBlank c || isBreak c || (c == ':' && endsKey flow r) || (flow && isFlowSign c) then
      ([], c :: r)
    else
      let (w, rest) := word flow r
      (c :: w, rest)

/-- The space between two words of a scalar. -/
structure Gap where
  /-- What it stands for; nothing if the scalar ends. -/
  chars : List Char
  /-- Whether there is a line break in it. -/
  broken : Bool
  /-- The spaces at the start of the last line. -/
  column : Nat

/-- The spaces and line breaks from the start of a line on: the breaks, the spaces on the last
line, and the text behind them.  There are no breaks if a mark between documents comes. -/
def breaks : Nat → Nat → List Char → Option (List Char) × Nat × List Char
  | 0, column, s => (none, column, s)
  | fuel + 1, column, s =>
    match s, takeBreak? s with
    | _, some (b, r) =>
      if atMark r then (none, 0, r)
      else
        let (bs, rest) := breaks fuel 0 r
        (bs.map (b :: ·), rest)
    | ' ' :: r, none => breaks fuel (column + 1) r
    | _, none => (some [], column, s)

/-- The space at the front of a text, and what is behind it. -/
def gap (s : List Char) : Gap × List Char :=
  let blanks := s.takeWhile (· == ' ')
  let r := s.drop blanks.length
  match takeBreak? r with
  | none => (⟨blanks, false, 0⟩, r)
  | some (b, r) =>
    if atMark r then (⟨[], true, 0⟩, r)
    else
      match breaks (r.length + 1) 0 r with
      | (none, column, r) => (⟨[], true, column⟩, r)
      | (some bs, column, r) => (⟨fold b bs, true, column⟩, r)

/-- A plain scalar: its characters, whether a line break is behind it, and the rest of the text.
`spaces` stands between what was read already and the next word. -/
def readChars (flow : Bool) (indent : Int) :
    Nat → (acc spaces : List Char) → (broken : Bool) → List Char → List Char × Bool × List Char
  | 0, acc, _, broken, s => (acc, broken, s)
  | fuel + 1, acc, spaces, broken, s =>
    if begins '#' s then (acc, broken, s)
    else
      match word flow s with
      | ([], _) => (acc, broken, s)
      | (w, r) =>
        let acc := acc ++ spaces ++ w
        let (g, r) := gap r
        if g.chars.isEmpty || begins '#' r || (!flow && g.broken && (g.column : Int) < indent) then
          (acc, g.broken, r)
        else readChars flow indent fuel acc g.chars g.broken r

/-- A plain scalar at the front of a text, within something that is indented by `indent`: its
text, whether a line break is behind it, and the rest. -/
def read (flow : Bool) (indent : Int) (s : List Char) : String × Bool × List Char :=
  let (cs, broken, r) := readChars flow (indent + 1) (s.length + 1) [] [] false s
  (String.ofList cs, broken, r)

/-- Whether a text can begin with a plain scalar. -/
def starts (flow : Bool) : List Char → Bool
  | [] => false
  | c :: r =>
    !(isBlank c || isBreak c || "-?:,[]\x7b\x7d#&*!|>'\"%@\x60".toList.contains c) ||
      (!atBlank r && (c == '-' || (!flow && (c == '?' || c == ':'))))

end EditorBridge.Yaml.Plain

/-! ### Scalars in quotes -/

namespace EditorBridge.Yaml.Quoted

/-- The character that a backslash and another character stand for. -/
def letterEscape? : Char → Option Char
  | '0' => some '\x00'
  | 'a' => some '\x07'
  | 'b' => some '\x08'
  | 't' | '\t' => some '\t'
  | 'n' => some '\n'
  | 'v' => some '\x0b'
  | 'f' => some '\x0c'
  | 'r' => some '\r'
  | 'e' => some '\x1b'
  | ' ' => some ' '
  | '"' => some '"'
  | '\\' => some '\\'
  | '/' => some '/'
  | 'N' => some '\x85'
  | '_' => some '\xa0'
  | 'L' => some '\u2028'
  | 'P' => some '\u2029'
  | _ => none

/-- The number of hexadecimal digits behind a backslash and a letter. -/
def hexEscape? : Char → Option Nat
  | 'x' => some 2
  | 'u' => some 4
  | 'U' => some 8
  | _ => none

/-- The character with a code point in hexadecimal digits. -/
def charOfHex (width : Nat) (s : List Char) : Except Error Char :=
  let ds := s.take width
  let n := Digits.valueIn 16 ds
  if ds.length ≠ width ∨ !ds.all (Digits.isDigitIn 16) then .error .malformed
  else if 0x110000 ≤ n then .error (.noCharacter n)
  else if n.isValidChar then .ok (Char.ofNat n)
  else .ok '\ufffd'

/-- The line breaks from the start of a line on, and the text behind them and the blanks around
them.  A mark between documents cannot stand there. -/
def breaks : Nat → List Char → Except Error (List Char × List Char)
  | 0, _ => .error .malformed
  | fuel + 1, s =>
    if atMark s then .error .malformed
    else
      let r := s.dropWhile isBlank
      match takeBreak? r with
      | none => .ok ([], r)
      | some (b, r) => do
        let (bs, r) ← breaks fuel r
        return (b :: bs, r)

/-- The characters up to the closing quote, and what is behind it. -/
def readChars (double : Bool) : Nat → List Char → List Char → Except Error (List Char × List Char)
  | 0, _, _ => .error .malformed
  | fuel + 1, acc, s =>
    match takeBreak? (s.dropWhile isBlank) with
    | some (b, r) => do
      let (bs, r) ← breaks (r.length + 1) r
      readChars double fuel ((fold b bs).reverse ++ acc) r
    | none =>
      match s, double with
      | [], _ => .error .malformed
      | '\x27' :: '\x27' :: r, false => readChars double fuel ('\x27' :: acc) r
      | '\x27' :: r, false => .ok (acc.reverse, r)
      | '"' :: r, true => .ok (acc.reverse, r)
      | '\\' :: r, true =>
        match takeBreak? r, r with
        | some (_, r), _ => do
          let (bs, r) ← breaks (r.length + 1) r
          readChars double fuel (bs.reverse ++ acc) r
        | none, [] => .error .malformed
        | none, e :: r =>
          match letterEscape? e, hexEscape? e with
          | some c, _ => readChars double fuel (c :: acc) r
          | none, some width => do
            readChars double fuel ((← charOfHex width r) :: acc) (r.drop width)
          | none, none => .error .malformed
      | c :: r, _ => readChars double fuel (c :: acc) r

/-- A scalar from behind its opening quote on, and the text behind its closing one. -/
def read (double : Bool) (s : List Char) : Except Error (String × List Char) := do
  let (cs, r) ← readChars double (s.length + 1) [] s
  return (String.ofList cs, r)

end EditorBridge.Yaml.Quoted
