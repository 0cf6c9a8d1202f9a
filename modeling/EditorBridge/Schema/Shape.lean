/-
The shapes that data is read into.

A shape says which values a place may hold: scalars, sequences, tables, choices,
members of enumerations and records.  A record class is known by its name and
described in a `Catalog`, so that classes may mention one another and themselves.
-/
import EditorBridge.Value.Shown

namespace EditorBridge.Schema

/-- An enumeration: its members in order, each with the value that stands for it in data.
The members of a numeric one count as numbers. -/
structure Enumeration where
  name : String
  numeric : Bool := false
  members : List (String × Value)
  deriving Repr, Inhabited, BEq

/-- The member of an enumeration as a value. -/
def Enumeration.member (e : Enumeration) (m : String × Value) : Value :=
  .member e.name m.1 e.numeric m.2

/-- The member that a value stands for. -/
def Enumeration.find? (e : Enumeration) (v : Value) : Option Value :=
  ((e.members.map e.member).find? fun m => m.same v) <|>
    (e.members.find? fun m => m.2.same v).map e.member

/-- What a place may hold. -/
inductive Shape where
  | any
  | null
  | bool
  | int
  | float
  | str
  | list (item : Shape)
  | sequence (item : Shape)
  /-- A fixed number of items, each with its own shape. -/
  | tuple (items : List Shape)
  /-- Any number of items of one shape, kept as a tuple. -/
  | tupleOf (item : Shape)
  | dict (key value : Shape)
  | mapping (key value : Shape)
  | bareList
  | bareTuple
  | bareDict
  /-- The first alternative that fits. -/
  | union (alternatives : List Shape)
  /-- One of some given scalars. -/
  | literal (options : List Value)
  | enumeration (e : Enumeration)
  /-- An instance of the record class of that name. -/
  | record (cls : String)
  /-- Any value whose type has that name; every value is an `object`. -/
  | typed (name : String)
  deriving Repr, Inhabited

namespace Shape

mutual

/-- Whether two shapes are one and the same, part by part. -/
def identical : Shape → Shape → Bool
  | any, any | null, null | bool, bool | int, int | float, float | str, str => true
  | bareList, bareList | bareTuple, bareTuple | bareDict, bareDict => true
  | list t, list u | sequence t, sequence u | tupleOf t, tupleOf u => identical t u
  | dict k t, dict l u | mapping k t, mapping l u => identical k l && identical t u
  | tuple ts, tuple us | union ts, union us => identicalAll ts us
  | literal a, literal b => a == b
  | enumeration e, enumeration f => e == f
  | record c, record d | typed c, typed d => c == d
  | _, _ => false

def identicalAll : List Shape → List Shape → Bool
  | [], [] => true
  | t :: ts, u :: us => identical t u && identicalAll ts us
  | _, _ => false

end

instance : BEq Shape := ⟨identical⟩

/-- The name of a shape in messages. -/
def name : Shape → String
  | any => "Any"
  | null => "None"
  | bool => "bool"
  | int => "int"
  | float => "float"
  | str => "str"
  | list _ => "List"
  | sequence _ => "Sequence"
  | tuple _ | tupleOf _ => "Tuple"
  | dict .. => "Dict"
  | mapping .. => "Mapping"
  | bareList => "list"
  | bareTuple => "tuple"
  | bareDict => "dict"
  | union _ => "Union"
  | literal _ => "Literal"
  | enumeration e => e.name
  | record c => c
  | typed n => n

/-- The alternatives of a shape: those of a choice, otherwise the shape itself. -/
def alternatives : Shape → List Shape
  | union ts => ts
  | t => [t]

/-- Keeps the first of equal elements. -/
def firsts {α : Type} [BEq α] (xs : List α) : List α :=
  (xs.foldl (fun acc x => if acc.contains x then acc else x :: acc) []).reverse

/-- The choice between shapes.  Choices within it are opened, repetitions are dropped, and a
choice of one is no choice. -/
def oneOf (ts : List Shape) : Shape :=
  match firsts (ts.flatMap alternatives) with
  | [t] => t
  | ts => union ts

/-- A shape or null. -/
def optional (t : Shape) : Shape := oneOf [t, null]

/-- One of some scalars, without repetitions. -/
def oneOfValues (vs : List Value) : Shape := literal (firsts vs)

end Shape

/-- One field of a record class. -/
structure Field where
  name : String
  shape : Shape
  /-- What the field holds if nothing is given; without it the field is required. -/
  default : Option Value := none
  /-- The key of the field in data, if it is not made from its name. -/
  key : Option String := none
  /-- Whether the field can be given at all; otherwise it always has its default. -/
  given : Bool := true
  deriving Repr, Inhabited

/-- A record class. -/
structure RecordClass where
  name : String
  fields : List Field
  /-- Whether the keys in data have hyphens where the names have underscores. -/
  hyphenated : Bool := false
  /-- Whether the fields of every new instance are checked against their shapes. -/
  checked : Bool := false
  deriving Repr, Inhabited

/-- A name with hyphens for underscores. -/
def hyphenate (s : String) : String :=
  String.ofList (s.toList.map fun c => if c == '_' then '-' else c)

/-- The key under which data holds a field. -/
def RecordClass.keyOf (c : RecordClass) (f : Field) : String :=
  f.key.getD (if c.hyphenated then hyphenate f.name else f.name)

/-- The field with a name. -/
def RecordClass.field? (c : RecordClass) (name : String) : Option Field :=
  c.fields.find? (·.name == name)

/-- The record classes that shapes may mention. -/
structure Catalog where
  classes : List RecordClass
  deriving Repr, Inhabited

/-- The class of that name. -/
def Catalog.find? (cat : Catalog) (name : String) : Option RecordClass :=
  cat.classes.find? (·.name == name)

end EditorBridge.Schema
