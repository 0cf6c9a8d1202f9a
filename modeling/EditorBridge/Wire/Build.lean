/-
Protocol objects, and building them from plain data.

An object keeps its members in the order in which they are written, without those
that hold nothing, so writing it needs no further rule.  Building is lenient: unknown
members are ignored, texts are made from anything, numbers from whatever reads as a
number, and lists from everything that has items.
-/
import EditorBridge.Text.Blank
import EditorBridge.Wire.Shape

namespace EditorBridge

/-- A value on the wire: plain data, or an object of the protocol. -/
inductive Wire where
  | raw (v : Value)
  | list (items : List Wire)
  | object (name : String) (members : List (String × Wire))
  deriving Repr, Inhabited

namespace Wire

/-- Nothing. -/
def nothing : Wire := .raw .null

/-- Whether there is nothing. -/
def isNothing : Wire → Bool
  | raw .null => true
  | _ => false

/-- The member of an object; nothing if it has no such member. -/
def get (name : String) : Wire → Wire
  | object _ ms => (ms.lookup name).getD nothing
  | _ => nothing

/-- The name of the structure of an object. -/
def structName? : Wire → Option String
  | object n _ => some n
  | _ => none

/-- The items of a list. -/
def items : Wire → List Wire
  | list ws => ws
  | raw (.list vs) => vs.map raw
  | _ => []

mutual

/-- The plain data that is written. -/
def toValue : Wire → Value
  | raw v => v
  | list ws => .list (itemValues ws)
  | object _ ms => .dict (memberValues ms)

def itemValues : List Wire → List Value
  | [] => []
  | w :: ws => toValue w :: itemValues ws

def memberValues : List (String × Wire) → List (Value × Value)
  | [] => []
  | (k, w) :: r => (.str k, toValue w) :: memberValues r

end

/-- The text of a wire text; empty for anything else. -/
def asText : Wire → String
  | raw (.str s) => s
  | _ => ""

/-- The number of a wire number; zero for anything else. -/
def asInt : Wire → Int
  | raw (.int n) => n
  | _ => 0

/-- Whether a wire value counts as true. -/
def truthy : Wire → Bool
  | raw v => v.truthy
  | list ws => !ws.isEmpty
  | object .. => true

/-- Why an object cannot be built. -/
inductive Error where
  /-- Members of a structure that cannot be built or are missing. -/
  | members (name : String) (count : Nat)
  /-- Items of a list of structures that cannot be built. -/
  | itemsOf (name : String) (count : Nat)
  /-- A value of that type has no items. -/
  | noItems (type : String)
  /-- A value of that type has no members. -/
  | noMembers (type : String)
  /-- A value that is no such scalar. -/
  | scalar
  /-- A number outside the range of its member. -/
  | range (struct member : String) (low high value : Int)
  deriving DecidableEq, Repr, Inhabited

/-- `n` of what went wrong inside. -/
def subExceptions (n : Nat) : String := s!"({n} sub-exception" ++ (if n = 1 then ")" else "s)")

def Error.message : Error → String
  | members name n => s!"While structuring {name} {subExceptions n}"
  | itemsOf name n =>
    s!"While structuring typing.List[lsprotocol.types.{name}] {subExceptions n}"
  | noItems t => s!"'{t}' object is not iterable"
  | noMembers t => s!"argument of type '{t}' is not iterable"
  | scalar => "invalid value"
  | range s m low high v =>
    s!"{s}.{m} should be in range [{low}:{high}], but was {v}."

/-- The whole number that a value reads as. -/
def wholeNumber? : Value → Option Int
  | .int n => some n
  | .bool b => some (if b then 1 else 0)
  | .float x => x.truncate?
  | .str s => Text.parseInt? s
  | _ => none

/-- The limits of a number. -/
def limits? : Shape → Option (Int × Int)
  | .uint => some (0, 2147483647)
  | .int32 => some (-2147483648, 2147483647)
  | _ => none

/-- A name with underscores for capitals. -/
def underscored (s : String) : String :=
  String.ofList (s.toList.flatMap fun c => if c.isUpper then ['_', c.toLower] else [c])

/-- Puts an object together from its members: every number has to be within its limits, and
members without value are left out unless they are always written. -/
def assemble (s : Struct) (values : List (String × Wire)) : Except Error Wire := do
  for m in s.members do
    match limits? m.shape, values.lookup m.name with
    | some (low, high), some (.raw (.int n)) =>
      if n < low ∨ high < n then throw (.range s.name (underscored m.name) low high n)
    | _, _ => pure ()
  return .object s.name <| s.written.filterMap fun m =>
    match values.lookup m.name with
    | none => if m.always then some (m.name, nothing) else none
    | some w => if w.isNothing && !m.always && !m.required then none else some (m.name, w)

/-- Whether a value is a scalar. -/
def isScalar : Value → Bool
  | .null | .bool _ | .int _ | .float _ | .str _ => true
  | _ => false

/-- The error of a structure that is built from something that is no object.  Every member it
needs is missing; asking for the others fails if the value cannot be asked at all. -/
def notAnObject (s : Struct) (v : Value) : Except Error Wire :=
  let needed := (s.members.filter (·.required)).length
  match v with
  | .str _ | .list _ =>
    let optional := (s.members.filter fun m => !m.required && mentions v m.name).length
    if needed + optional = 0 then assemble s [] else .error (.members s.name (needed + optional))
  | _ =>
    if s.members.any fun m => !m.required then .error (.noMembers v.typeName)
    else if needed = 0 then assemble s [] else .error (.members s.name needed)
where
  /-- Whether a text or a list seems to have a member. -/
  mentions (v : Value) (name : String) : Bool :=
    match v with
    | .str s => (s.splitOn name).length > 1
    | .list vs => vs.any fun w => w.same (.str name)
    | _ => false

/-- Builds from a value without parts. -/
def ofScalar : Shape → Value → Except Error Wire
  | .raw, v => .ok (.raw v)
  | .text, v => .ok (.raw (.str v.plain))
  | .flag, v => .ok (.raw (.bool v.truthy))
  | .uint, v | .int32, v => match wholeNumber? v with
    | some n => .ok (.raw (.int n))
    | none => .error .scalar
  | .oneOf vs, v => match vs.find? fun w => w.same v with
    | some w => .ok (.raw w)
    | none => .error .scalar
  | .list t, .str s => do
    let rs := s.toList.map fun c => ofScalar t (.str (String.singleton c))
    let failed := rs.filter fun r => !r.isOk
    if failed.isEmpty then return .list (← rs.mapM id)
    else throw (.itemsOf (match t with | .struct n => n | _ => "") failed.length)
  | .list _, v => .error (.noItems v.typeName)
  | .struct n, v => match struct? n with
    | some s => notAnObject s v
    | none => .error .scalar
  | .scalarOr _, v => .ok (.raw v)
  | .markup, v => .ok (.raw v)
  | .edit, _ => .error .scalar
  | .change, _ => .error .scalar

/-- Which structure an edit has, by its members. -/
def editStruct? (entries : List (Value × Value)) : Option String :=
  let has (k : String) := entries.any fun e => (Value.str k).same e.1
  if has "insert" || has "replace" then some "InsertReplaceEdit"
  else if has "range" then some "TextEdit"
  else none

/-- Which structure a change has, by its members. -/
def changeStruct (entries : List (Value × Value)) : String :=
  if entries.any fun e => (Value.str "range").same e.1 then "TextDocumentContentChangePartial"
  else "TextDocumentContentChangeWholeDocument"

/-- Which structure marked text has, by its members. -/
def markupStruct (entries : List (Value × Value)) : String :=
  if entries.any fun e => (Value.str "kind").same e.1 then "MarkupContent"
  else "MarkedStringWithLanguage"

/-- The value under a name, known to be smaller than the object. -/
def memberOf? (key : String) :
    (es : List (Value × Value)) → Option { v : Value // sizeOf v < sizeOf es }
  | [] => none
  | (k, v) :: r =>
    if (Value.str key).same k then some ⟨v, by simp; omega⟩
    else (memberOf? key r).map fun ⟨w, h⟩ => ⟨w, by simp; omega⟩

/-- The keys of an object. -/
def keysOf (es : List (Value × Value)) : List Value := es.map (·.1)

/-- The name of the structure of the items of a list, for the message. -/
def itemName : Shape → String
  | .struct n => n
  | _ => ""

/-- The items of a list that are the keys of an object. -/
def ofKeys (t : Shape) (es : List (Value × Value)) : Except Error Wire :=
  let rs := (keysOf es).map (ofScalar t)
  let failed := rs.filter fun r => !r.isOk
  if failed.isEmpty then return .list (← rs.mapM id)
  else .error (.itemsOf (itemName t) failed.length)

/-- No structure has more members than that. -/
def manyMembers : Nat := 63

theorem length_of_struct? {n : String} {s : Struct} (h : struct? n = some s) :
    s.members.length < manyMembers := by
  have hall : ∀ s ∈ structs, s.members.length < manyMembers := by decide
  exact hall s (List.mem_of_find?_eq_some h)

mutual

/-- Builds what a shape asks for. -/
def build (t : Shape) (v : Value) : Except Error Wire :=
  match t, v with
  | .raw, v => .ok (.raw v)
  | .struct n, .dict es => buildStruct n es
  | .scalarOr n, .dict es => buildStruct n es
  | .scalarOr n, .list vs => ofScalar (.struct n) (.list vs)
  | .markup, .dict es => buildStruct (markupStruct es) es
  | .markup, .list vs => return .list (← buildMarked vs)
  | .edit, .dict es => match editStruct? es with
    | some n => buildStruct n es
    | none => .error .scalar
  | .change, .dict es => buildStruct (changeStruct es) es
  | .list t, .list vs => do
    let (ws, failed) := buildItems t vs
    if failed = 0 then return .list ws else throw (.itemsOf (itemName t) failed)
  | .list t, .dict es => ofKeys t es
  | t, v => ofScalar t v
termination_by (manyMembers + 1) * sizeOf v
decreasing_by
  all_goals (simp only [manyMembers, Value.dict.sizeOf_spec, Value.list.sizeOf_spec]; omega)

/-- The members of a structure from an object. -/
def buildStruct (n : String) (es : List (Value × Value)) : Except Error Wire :=
  match _h : struct? n with
  | none => .error .scalar
  | some s =>
    let (values, failed) := buildMembers s.members es
    if failed ≠ 0 then .error (.members s.name failed)
    else match assemble s values with
      | .ok w => .ok w
      | .error _ => .error (.members s.name 1)
termination_by (manyMembers + 1) * sizeOf es + manyMembers
decreasing_by exact Nat.add_lt_add_left (length_of_struct? _h) _

/-- The members that are there, and how many of them are missing or cannot be built. -/
def buildMembers (ms : List Member) (es : List (Value × Value)) : List (String × Wire) × Nat :=
  match ms with
  | [] => ([], 0)
  | m :: ms =>
    let (ws, failed) := buildMembers ms es
    match memberOf? m.name es with
    | none => if m.required then (ws, failed + 1) else (ws, failed)
    | some ⟨v, _⟩ =>
      if v.isNull && !m.required then ((m.name, nothing) :: ws, failed)
      else match build m.shape v with
        | .ok w => ((m.name, w) :: ws, failed)
        | .error _ => (ws, failed + 1)
termination_by (manyMembers + 1) * sizeOf es + ms.length
decreasing_by all_goals (simp only [manyMembers, List.length_cons]; omega)

/-- The items of a list, and how many of them cannot be built. -/
def buildItems (t : Shape) (vs : List Value) : List Wire × Nat :=
  match vs with
  | [] => ([], 0)
  | v :: vs =>
    let (ws, failed) := buildItems t vs
    match build t v with
    | .ok w => (w :: ws, failed)
    | .error _ => (ws, failed + 1)
termination_by (manyMembers + 1) * sizeOf vs
decreasing_by all_goals (simp only [manyMembers, List.cons.sizeOf_spec]; omega)

/-- Marked texts: scalars stay, everything else has a language. -/
def buildMarked (vs : List Value) : Except Error (List Wire) :=
  match vs with
  | [] => .ok []
  | v :: vs => do
    let w ← if isScalar v then pure (.raw v) else build (.struct "MarkedStringWithLanguage") v
    return w :: (← buildMarked vs)
termination_by (manyMembers + 1) * sizeOf vs
decreasing_by all_goals (simp only [manyMembers, List.cons.sizeOf_spec]; omega)

end

/-- What an answer or the parameters of a call are built into. -/
inductive Target where
  /-- The value stays as it is. -/
  | unchanged
  | struct (name : String)
  | listOf (name : String)
  /-- A list of items, or an object with such a list. -/
  | completions
  deriving DecidableEq, Repr, Inhabited

/-- Builds what a target asks for; null always stays null. -/
def read (t : Target) (v : Value) : Except Error Wire :=
  if v.isNull then .ok nothing
  else match t with
    | .unchanged => .ok (.raw v)
    | .struct n => build (.struct n) v
    | .listOf n => build (.list (.struct n)) v
    | .completions => match v with
      | .list _ => build (.list (.struct "CompletionItem")) v
      | _ => build (.struct "CompletionList") v

end Wire

end EditorBridge
