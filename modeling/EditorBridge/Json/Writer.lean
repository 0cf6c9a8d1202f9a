/-
Writing JSON text.

The text is pure ASCII: every other character is written by its UTF-16 code units.
Members keep their order.  An integer with too many digits has no text, and which ones
these are is a parameter of writing.  Three layouts are in use: spaces behind the separators,
none at all, and one item on every line with four spaces for every level.
-/
import EditorBridge.Number.Digits
import EditorBridge.Text.Quoted
import EditorBridge.Value.Basic

namespace EditorBridge.Json

/-- How the parts of a text are laid out. -/
structure Layout where
  comma : String
  colon : String
  indented : Bool
  deriving DecidableEq, Repr

namespace Layout

/-- Everything on one line, with a space behind each separator. -/
def spaced : Layout := ⟨", ", ": ", false⟩

/-- Everything on one line without any space. -/
def compact : Layout := ⟨",", ":", false⟩

/-- One item on every line. -/
def indentedBy4 : Layout := ⟨",", ": ", true⟩

/-- One item on every line, but no space behind the colon. -/
def indentedCompact : Layout := ⟨",", ":", true⟩

end Layout

/-- Why a value has no JSON text. -/
inductive Unwritable where
  /-- No JSON form: the name of the type. -/
  | value (type : String)
  /-- A name of a member that is none: the name of its type. -/
  | key (type : String)
  /-- An integer that has too many digits. -/
  | tooManyDigits
  deriving DecidableEq, Repr

def Unwritable.message : Unwritable → String
  | value t => s!"Object of type {t} is not JSON serializable"
  | key t => s!"keys must be str, int, float, bool or None, not {t}"
  | tooManyDigits => Digits.unwritten

/-- The escape of one UTF-16 code unit. -/
def unitEscape (n : Nat) : List Char := '\\' :: 'u' :: Text.hex 4 n

/-- One character between quotes. -/
def writeChar (c : Char) : List Char :=
  if c = '"' then ['\\', '"']
  else if c = '\\' then ['\\', '\\']
  else if c = '\n' then ['\\', 'n']
  else if c = '\r' then ['\\', 'r']
  else if c = '\t' then ['\\', 't']
  else if c = '\x08' then ['\\', 'b']
  else if c = '\x0c' then ['\\', 'f']
  else if 0x20 ≤ c.toNat ∧ c.toNat < 0x7f then [c]
  else if c.toNat ≤ 0xffff then unitEscape c.toNat
  else
    let n := c.toNat - 0x10000
    unitEscape (0xd800 + n / 0x400) ++ unitEscape (0xdc00 + n % 0x400)

/-- A text between quotes. -/
def writeText (s : String) : String :=
  String.ofList ('"' :: s.toList.flatMap writeChar ++ ['"'])

/-- A floating point number; what is not finite is written as a word. -/
def writeFloat (x : Binary64) : String :=
  match x.kind with
  | .nan => "NaN"
  | .infinite => if x.negative then "-Infinity" else "Infinity"
  | .finite => x.finiteText

/-- An integer, if `short` tells that it can be written. -/
def writeInt (short : Int → Bool) (n : Int) : Except Unwritable String :=
  if short n then .ok (toString n) else .error .tooManyDigits

/-- The name of a member: numbers and words may stand for texts. -/
def writeKey (short : Int → Bool) : Value → Except Unwritable String
  | .str s => .ok s
  | .int n => writeInt short n
  | .float x => .ok (writeFloat x)
  | .bool b => .ok (if b then "true" else "false")
  | .null => .ok "null"
  | .member _ _ true (.int n) => writeInt short n
  | v => .error (.key v.typeName)

/-- Items between brackets, `level` being the depth of the bracket. -/
def bracket (l : Layout) (level : Nat) (opening closing : String) (items : List String) : String :=
  if items.isEmpty then opening ++ closing
  else if l.indented then
    let line (n : Nat) := "\n" ++ String.ofList (List.replicate (4 * n) ' ')
    opening ++ line (level + 1) ++ String.intercalate (l.comma ++ line (level + 1)) items ++
      line level ++ closing
  else opening ++ String.intercalate l.comma items ++ closing

mutual

/-- The text of a value at a given depth; `short` tells which integers can be written. -/
def write (short : Int → Bool) (l : Layout) (level : Nat) : Value → Except Unwritable String
  | .null => .ok "null"
  | .bool b => .ok (if b then "true" else "false")
  | .int n => writeInt short n
  | .float x => .ok (writeFloat x)
  | .str s => .ok (writeText s)
  | .list xs => return bracket l level "[" "]" (← writeItems short l (level + 1) xs)
  | .tuple xs => return bracket l level "[" "]" (← writeItems short l (level + 1) xs)
  | .dict es => return bracket l level "\x7b" "\x7d" (← writeMembers short l (level + 1) es)
  | .member _ _ true v => write short l level v
  | v => .error (.value v.typeName)

def writeItems (short : Int → Bool) (l : Layout) (level : Nat) :
    List Value → Except Unwritable (List String)
  | [] => .ok []
  | v :: vs => return (← write short l level v) :: (← writeItems short l level vs)

def writeMembers (short : Int → Bool) (l : Layout) (level : Nat) :
    List (Value × Value) → Except Unwritable (List String)
  | [] => .ok []
  | (k, v) :: r => do
    let key ← writeKey short k
    let text ← write short l level v
    return (writeText key ++ l.colon ++ text) :: (← writeMembers short l level r)

end

/-- The JSON text of a value. -/
def render (l : Layout) (v : Value) : Except Unwritable String := write Digits.fit l 0 v

end EditorBridge.Json
