/-
Scalars that are set apart by their indentation.

A literal scalar keeps its line breaks, a folded one joins lines that are neither empty nor
indented any further.  The header tells whether the line breaks at the end are dropped,
kept, or reduced to one.
-/
import EditorBridge.Yaml.Line

namespace EditorBridge.Yaml.Block

/-- What becomes of the line breaks at the end. -/
inductive Chomping where
  | clip
  | strip
  | keep
  deriving DecidableEq, Repr

/-- The sign for what becomes of the line breaks at the end. -/
def takeChomping : List Char → Chomping × List Char
  | '+' :: r => (.keep, r)
  | '-' :: r => (.strip, r)
  | r => (.clip, r)

/-- A digit that tells the indentation; it cannot be zero. -/
def takeIncrement : List Char → Except Error (Option Nat × List Char)
  | c :: r =>
    if c == '0' then .error .malformed
    else if c.isDigit then .ok (some (c.toNat - 48), r)
    else .ok (none, c :: r)
  | [] => .ok (none, [])

/-- The header of a scalar: the sign and the digit in any order. -/
def takeHeader (s : List Char) : Except Error (Chomping × Option Nat × List Char) := do
  let (chomping, increment, r) ← match takeChomping s with
    | (.clip, _) => do
      let (increment, r) ← takeIncrement s
      match increment with
      | none => pure (.clip, none, r)
      | some n =>
        let (chomping, r) := takeChomping r
        pure (chomping, some n, r)
    | (chomping, r) => do
      let (increment, r) ← takeIncrement r
      pure (chomping, increment, r)
  if atSpace r then return (chomping, increment, ← skipLine r) else .error .malformed

/-- The empty lines at the front of a text. -/
structure Lead where
  breaks : List Char
  /-- The spaces at the start of the line behind them. -/
  column : Nat
  /-- The most spaces on any of the lines. -/
  widest : Nat

/-- The empty lines at the front of a text, however indented. -/
def leadOf : Nat → (column widest : Nat) → List Char → Lead × List Char
  | 0, column, widest, s => (⟨[], column, widest⟩, s)
  | fuel + 1, column, widest, s =>
    match s, takeBreak? s with
    | _, some (b, r) =>
      let (l, rest) := leadOf fuel 0 widest r
      ({ l with breaks := b :: l.breaks }, rest)
    | ' ' :: r, none => leadOf fuel (column + 1) (max widest (column + 1)) r
    | _, none => (⟨[], column, widest⟩, s)

/-- Takes up to `indent` spaces. -/
def takeIndent (indent : Nat) (s : List Char) : Nat × List Char :=
  let n := min indent (s.takeWhile (· == ' ')).length
  (n, s.drop n)

/-- The empty lines at the front of a text, of which no more than `indent` spaces belong to the
indentation. -/
def emptyLines (indent : Nat) : Nat → List Char → Lead × List Char
  | 0, s => (⟨[], 0, 0⟩, s)
  | fuel + 1, s =>
    let (column, r) := takeIndent indent s
    match takeBreak? r with
    | none => (⟨[], column, 0⟩, r)
    | some (b, r) =>
      let (l, rest) := emptyLines indent fuel r
      ({ l with breaks := b :: l.breaks }, rest)

/-- The line break at the front of a text, if there is one, and what is behind it. -/
def lineBreak (s : List Char) : List Char × List Char :=
  match takeBreak? s with
  | some (b, r) => ([b], r)
  | none => ([], s)

/-- The lines of a scalar: its characters up to the last line, the break behind that, the breaks
of the empty lines after it, and the rest of the text. -/
def readLines (folded : Bool) (indent : Nat) :
    Nat → List Char → Lead → List Char → List Char × List Char × List Char × List Char
  | 0, acc, l, s => (acc, [], l.breaks, s)
  | fuel + 1, acc, l, s =>
    if l.column ≠ indent ∨ s = [] then (acc, [], l.breaks, s)
    else
      let line := s.takeWhile (!isBreak ·)
      let acc := acc ++ l.breaks ++ line
      let (b, r) := lineBreak (s.drop line.length)
      let (next, r) := emptyLines indent (r.length + 1) r
      if next.column ≠ indent ∨ r = [] then (acc, b, next.breaks, r)
      else
        let joins := folded && b == ['\n'] && !s.head?.any isBlank && !r.head?.any isBlank
        let between := if !joins then b else if next.breaks.isEmpty then [' '] else []
        readLines folded indent fuel (acc ++ between) next r

/-- A scalar from behind its sign on, within something that is indented by `indent`, and the rest
of the text. -/
def read (folded : Bool) (indent : Int) (s : List Char) : Except Error (String × List Char) := do
  let (chomping, increment, r) ← takeHeader s
  let least := (max 1 (indent + 1)).toNat
  let (width, l, r) := match increment with
    | some n =>
      let width := least + n - 1
      (width, emptyLines width (r.length + 1) r)
    | none =>
      let (l, r) := leadOf (r.length + 1) 0 0 r
      (max least l.widest, l, r)
  let (cs, last, breaks, r) := readLines folded width (r.length + 1) [] l r
  let tail := match chomping with
    | .strip => []
    | .clip => last
    | .keep => last ++ breaks
  return (String.ofList (cs ++ tail), r)

end EditorBridge.Yaml.Block
