/-
Writing values as TOML.

A table is written as its plain entries, followed by its subtables under headings of
their own.  A list of tables becomes a list of short tables if each of them fits on a
line, and otherwise a heading for each.
-/
import EditorBridge.Text.Quoted
import EditorBridge.Value.Shown

namespace EditorBridge.Toml

/-- Why a value cannot be written. -/
inductive Unwritable where
  /-- A value of that type. -/
  | type (name : String)
  /-- A key that is no text. -/
  | key (shown type : String)
  /-- An integer that has too many digits. -/
  | tooManyDigits
  deriving DecidableEq, Repr

def Unwritable.message : Unwritable → String
  | type n => s!"Object of type '{n}' is not TOML serializable"
  | key s n => s!"Invalid mapping key '{s}' of type '{n}'. A string is required."
  | tooManyDigits => Digits.unwritten

/-- How much a nested line is indented. -/
def indent (level : Nat) : String := String.ofList (List.replicate (4 * level) ' ')

/-- The length of the longest line with a short table on it. -/
def maxLine : Nat := 100

/-- A character in quotes. -/
def writeChar (c : Char) : List Char :=
  if c = '"' then ['\\', '"']
  else if c = '\\' then ['\\', '\\']
  else if c = '\x08' then ['\\', 'b']
  else if c = '\n' then ['\\', 'n']
  else if c = '\x0c' then ['\\', 'f']
  else if c = '\r' then ['\\', 'r']
  else if c ≠ '\t' ∧ (c.toNat < 0x20 ∨ c.toNat = 0x7f) then '\\' :: 'u' :: Text.hex 4 c.toNat
  else [c]

/-- A text in quotes. -/
def writeText (s : String) : String :=
  String.ofList ('"' :: (s.toList.flatMap writeChar) ++ ['"'])

/-- Characters of keys that need no quotes. -/
def isPlainChar (c : Char) : Bool := c.isAlphanum || c == '-' || c == '_'

/-- A key. -/
def writeKey : Value → Except Unwritable String
  | .str s => .ok (if s ≠ "" ∧ s.toList.all isPlainChar then s else writeText s)
  | v => .error (if v.plainShows then .key v.plain v.typeName else .tooManyDigits)

mutual

/-- A value behind a key; `level` is the depth of the lists around it. -/
def writeValue (level : Nat) : Value → Except Unwritable String
  | .bool b => .ok (if b then "true" else "false")
  | .int n => if Digits.fit n then .ok (toString n) else .error .tooManyDigits
  | .float x => .ok (Value.float x).plain
  | .moment m => .ok (Value.moment m).plain
  | .str s => .ok (writeText s)
  | .member _ _ _ v => writeValue level v
  | .list [] | .tuple [] => .ok "[]"
  | .list vs | .tuple vs => do
    let items ← writeItems (level + 1) vs
    return "[\n" ++ String.intercalate ",\n" (items.map (indent (level + 1) ++ ·)) ++ ",\n"
      ++ indent level ++ "]"
  | .dict [] => .ok "\x7b\x7d"
  | .dict es => do
    return "\x7b " ++ String.intercalate ", " (← writeEntries es) ++ " \x7d"
  | v => .error (.type v.typeName)

/-- The items of a list. -/
def writeItems (level : Nat) : List Value → Except Unwritable (List String)
  | [] => .ok []
  | v :: vs => do return (← writeValue level v) :: (← writeItems level vs)

/-- The entries of a short table. -/
def writeEntries : List (Value × Value) → Except Unwritable (List String)
  | [] => .ok []
  | (k, v) :: es => do
    return ((← writeKey k) ++ " = " ++ (← writeValue 0 v)) :: (← writeEntries es)

end

/-- Whether a value is a table. -/
def isTable : Value → Bool
  | .dict _ => true
  | _ => false

/-- Whether a table fits on a line. -/
def fitsLine (v : Value) : Except Unwritable Bool := do
  let line := indent 1 ++ (← writeValue 0 v) ++ ","
  return decide (line.length ≤ maxLine) && !line.toList.contains '\n'

/-- How an entry of a table is written. -/
inductive Place where
  | plain
  | table
  | tables

/-- Whether all of the tables fit on lines. -/
def allFit : List Value → Except Unwritable Bool
  | [] => .ok true
  | v :: vs => do if ← fitsLine v then allFit vs else return false

/-- How an entry of a table is written. -/
def placeOf (v : Value) : Except Unwritable Place :=
  match v with
  | .dict _ => .ok .table
  | .list vs | .tuple vs =>
    if vs ≠ [] ∧ vs.all isTable then do return if ← allFit vs then .plain else .tables
    else .ok .plain
  | _ => .ok .plain

/-- The entries that are written before the subtables. -/
def plainEntries : List (Value × Value) → Except Unwritable (List String)
  | [] => .ok []
  | (k, v) :: es => do
    match ← placeOf v with
    | .plain => return ((← writeKey k) ++ " = " ++ (← writeValue 0 v) ++ "\n") ::
        (← plainEntries es)
    | _ => plainEntries es

/-- The name of a subtable. -/
def nameBelow (name key : String) : String := if name = "" then key else name ++ "." ++ key

/-- The line above the entries of a table. -/
def heading (name : String) (inList needed : Bool) : String :=
  if inList then s!"[[{name}]]\n" else if name ≠ "" ∧ needed then s!"[{name}]\n" else ""

mutual

/-- A table, by paragraphs. -/
def writeTable (name : String) (inList : Bool) : Value → Except Unwritable (List String)
  | .dict es => do
    let lines ← plainEntries es
    let below ← writeBelow name es
    let own := heading name inList (!lines.isEmpty || below.isEmpty) ++ String.join lines
    return (if own = "" then [] else [own]) ++ below
  | _ => .ok []

/-- The subtables of a table, by paragraphs. -/
def writeBelow (name : String) : List (Value × Value) → Except Unwritable (List String)
  | [] => .ok []
  | (k, v) :: es => do
    let here ← match ← placeOf v with
      | .plain => pure []
      | .table => writeTable (nameBelow name (← writeKey k)) false v
      | .tables => match v with
        | .list ts | .tuple ts => writeAll (nameBelow name (← writeKey k)) ts
        | _ => pure []
    return here ++ (← writeBelow name es)

/-- The tables of a list, by paragraphs. -/
def writeAll (name : String) : List Value → Except Unwritable (List String)
  | [] => .ok []
  | t :: ts => do return (← writeTable name true t) ++ (← writeAll name ts)

end

/-- A table as TOML; the paragraphs are set apart by empty lines. -/
def write (t : Value) : Except Unwritable String := do
  return String.intercalate "\n" (← writeTable "" false t)

end EditorBridge.Toml
