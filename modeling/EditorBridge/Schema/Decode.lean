/-
Records written as plain data, and plain data read into a shape.

A record becomes a table under the keys of its class, in the order of its fields.
Fields that hold their default, or that hold null, can be left out.  Members of
enumerations become their values and every sequence becomes a list.

`decode` either gives a value of the shape or refuses the data, naming the path of
the first wrong part.  Where the message would show an integer that has too many digits,
there is no message and the refusal is `unshown`.  A choice takes its first alternative
that accepts the value and reports itself when none does.  Instances of checked classes are looked at once
more after they are built, by reading their own plain data into the shapes of their
fields.
-/
import EditorBridge.Json.Writer
import EditorBridge.Schema.Shape

namespace EditorBridge.Schema

/-! ### Writing -/

/-- What is left out of the tables that records become. -/
structure Omission where
  defaults : Bool := false
  nulls : Bool := false
  deriving Repr, Inhabited

/-- Whether a field of a record is left out. -/
def Omission.omits (o : Omission) (default : Option Value) (v : Value) : Bool :=
  (o.defaults && (default.any fun d => v.same d)) || (o.nulls && v.isNull)

mutual

/-- The plain data of a value. -/
def toData (cat : Catalog) (o : Omission) : Value → Value
  | .record c fields => .dict (fieldsToData cat o (cat.find? c) fields)
  | .member _ _ _ v => v
  | .dict entries => .dict (entriesToData cat o entries)
  | .list vs => .list (itemsToData cat o vs)
  | .tuple vs => .list (itemsToData cat o vs)
  | .set vs => .list (itemsToData cat o vs)
  | v => v

def itemsToData (cat : Catalog) (o : Omission) : List Value → List Value
  | [] => []
  | v :: vs => toData cat o v :: itemsToData cat o vs

def entriesToData (cat : Catalog) (o : Omission) : List (Value × Value) → List (Value × Value)
  | [] => []
  | (k, v) :: r => (k, toData cat o v) :: entriesToData cat o r

def fieldsToData (cat : Catalog) (o : Omission) (cls : Option RecordClass) :
    List (String × Value) → List (Value × Value)
  | [] => []
  | (name, v) :: r =>
    let field := cls.bind (·.field? name)
    let rest := fieldsToData cat o cls r
    if o.omits (field.bind (·.default)) v then rest
    else
      let key := match cls, field with
        | some c, some f => c.keyOf f
        | _, _ => name
      (.str key, toData cat o v) :: rest

end

/-- The table of a record; nothing for any other value. -/
def asDict? (cat : Catalog) (removeDefaults : Bool) : Value → Option Value
  | .record c fields => some (toData cat { defaults := removeDefaults } (.record c fields))
  | _ => none

/-- The JSON text of a value, without the null fields of records. -/
def asJson (cat : Catalog) (l : Json.Layout) (v : Value) : Except Json.Unwritable String :=
  Json.render l (toData cat { nulls := true } v)

/-! ### Reading -/

/-- The keys and indices that lead to a part of a value. -/
abbrev Path := List Value

/-- A path in messages: its steps with dots between them. -/
def Path.text (p : Path) : String :=
  p.foldl (fun s k => if s == "" then k.plain else s ++ "." ++ k.plain) ""

/-- What is wrong with a part of a value. -/
inductive Problem where
  | expectedTable (cls got : String)
  | unknownKeys (keys : List Value)
  | missingKey (key : String)
  | noAlternative (names : List String) (got : String)
  | notAnOption (options : List Value) (got : Value)
  | wrongCount (expected got : Nat)
  | expected (name got : String)
  deriving Repr

/-- What the message about a problem says. -/
def Problem.text : Problem → String
  | expectedTable c got => "expected a table for \x60" ++ c ++ "\x60 but got \x60" ++ got ++ "\x60"
  | unknownKeys ks => "unknown key(s) " ++ String.intercalate ", " (ks.map Value.shown)
  | missingKey k => "missing key " ++ Text.quote k
  | noAlternative ns got =>
    "expected \x60" ++ String.intercalate " | " ns ++ "\x60 but got \x60" ++ got ++ "\x60"
  | notAnOption os got =>
    "expected one of " ++ String.intercalate ", " (os.map Value.shown) ++ " but got " ++ got.shown
  | wrongCount n m => s!"expected {n} values but got {m}"
  | expected n got => "expected \x60" ++ n ++ "\x60 but got \x60" ++ got ++ "\x60"

/-- Whether all that the message about a problem shows can be shown. -/
def Problem.shows : Problem → Bool
  | unknownKeys ks => ks.all Value.shows
  | notAnOption os got => os.all Value.shows && got.shows
  | _ => true

/-- Why data is refused. -/
inductive Error where
  /-- The part at the path is wrong. -/
  | wrong (path : Path) (problem : Problem)
  /-- An integer is too large for a floating point number. -/
  | tooLarge
  /-- An integer has too many digits to be shown, in a message or in the path of a part. -/
  | unshown
  /-- A new instance of a checked class holds wrong values: the names of the fields, each with
  what is wrong. -/
  | invalid (cls : String) (fields : List (String × String))
  /-- A constructor was given a name that is not one of its parameters. -/
  | unexpectedArgument (cls name : String)
  /-- A constructor was not given parameters that it needs. -/
  | missingArguments (cls : String) (names : List String)
  deriving Repr

/-- The list of names in a message about missing parameters. -/
def enumerateNames : List String → String
  | [] => ""
  | [a] => Text.quote a
  | [a, b] => Text.quote a ++ " and " ++ Text.quote b
  | names =>
    String.intercalate ", " (names.dropLast.map Text.quote) ++ ", and " ++
      Text.quote (names.getLastD "")

/-- The errors of a checked instance as a table, one list of messages for every field. -/
def errorTable (fields : List (String × String)) : Value :=
  Value.table (fields.map fun f => (f.1, .list [.str f.2]))

/-- The message of a refusal. -/
def Error.message : Error → String
  | wrong p problem =>
    if p.text == "" then problem.text
    else "Invalid value for \"" ++ p.text ++ "\": " ++ problem.text
  | tooLarge => "int too large to convert to float"
  | unshown => Digits.unwritten
  | invalid c fields => c ++ " (errors = " ++ (errorTable fields).shown ++ ")"
  | unexpectedArgument c n => c ++ ".__init__() got an unexpected keyword argument " ++ Text.quote n
  | missingArguments c ns =>
    c ++ s!".__init__() missing {ns.length} required positional argument" ++
      (if ns.length = 1 then "" else "s") ++ ": " ++ enumerateNames ns

/-- An entry of a table, known to be smaller than the table. -/
def valueAt? (key : String) :
    (es : List (Value × Value)) → Option { v : Value // sizeOf v < sizeOf es }
  | [] => none
  | (k, v) :: r =>
    if (Value.str key).same k then some ⟨v, by simp; omega⟩
    else (valueAt? key r).map fun ⟨w, h⟩ => ⟨w, by simp; omega⟩

/-- A scalar read into a shape that is decided by the value alone; `none` if it does not fit. -/
def scalar? : Shape → Value → Option (Except Error Value)
  | .any, v => some (.ok v)
  | .null, .null => some (.ok .null)
  | .bool, .bool b => some (.ok (.bool b))
  | .int, .int n => some (.ok (.int n))
  | .int, .member e m true (.int n) => some (.ok (.member e m true (.int n)))
  | .float, .float x => some (.ok (.float x))
  | .float, .int n => some (asFloat n)
  | .float, .member _ _ true (.int n) => some (asFloat n)
  | .str, .str s => some (.ok (.str s))
  | .enumeration e, v => (e.find? v).map .ok
  | .typed n, v => if n == "object" || v.typeName == n then some (.ok v) else none
  | _, _ => none
where
  asFloat (n : Int) : Except Error Value :=
    match Binary64.ofInt? n with
    | some x => .ok (.float x)
    | none => .error .tooLarge

/-- The refusal of the part at a path, if the message about it can be written. -/
def refuse {α : Type} (p : Path) (problem : Problem) : Except Error α :=
  .error (if problem.shows then .wrong p problem else .unshown)

/-- The refusal of a value that does not fit a shape. -/
def misfit (p : Path) (t : Shape) (v : Value) : Except Error Value :=
  .error (.wrong p (.expected t.name v.typeName))

mutual

/-- Reads a value into a shape.  `rounds` says how often instances of checked classes are looked
at again, one round within the other. -/
def decode (cat : Catalog) (rounds : Nat) (strict : Bool) (p : Path) (t : Shape) (v : Value) :
    Except Error Value :=
  match t, v with
  | .union ts, v => do
    match ← decodeFirst cat rounds strict p ts v with
    | some x => .ok x
    | none => .error (.wrong p (.noAlternative (ts.map Shape.name) v.typeName))
  | .literal options, v =>
    if options.any fun o => v.same o then .ok v
    else refuse p (.notAnOption options v)
  | .record c, .dict entries =>
    match cat.find? c with
    | none => .error (.wrong p (.expectedTable c "dict"))
    | some cls =>
      let keys := (cls.fields.filter (·.given)).map cls.keyOf
      let unknown := (entries.map (·.1)).filter fun k => !keys.any fun key => (Value.str key).same k
      if strict && !unknown.isEmpty then refuse p (.unknownKeys unknown)
      else do
        let fields ← decodeFields cat rounds strict p cls cls.fields entries
        match rounds with
        | 0 => .ok (.record c fields)
        | rounds + 1 =>
          if cls.checked then
            match ← wrongFields cat rounds cls fields with
            | [] => .ok (.record c fields)
            | es => .error (.invalid c es)
          else .ok (.record c fields)
  | .record c, v => .error (.wrong p (.expectedTable c v.typeName))
  | .dict _ t, .dict es => return .dict (← decodeEntries cat rounds strict p t es)
  | .mapping _ t, .dict es => return .dict (← decodeEntries cat rounds strict p t es)
  | .bareDict, .dict es => if es.all (·.1.plainShows) then .ok (.dict es) else .error .unshown
  | .list t, .list vs => return .list (← decodeItems cat rounds strict p t 0 vs)
  | .list t, .tuple vs => return .list (← decodeItems cat rounds strict p t 0 vs)
  | .sequence t, .list vs => return .list (← decodeItems cat rounds strict p t 0 vs)
  | .sequence t, .tuple vs => return .list (← decodeItems cat rounds strict p t 0 vs)
  | .tupleOf t, .list vs => return .tuple (← decodeItems cat rounds strict p t 0 vs)
  | .tupleOf t, .tuple vs => return .tuple (← decodeItems cat rounds strict p t 0 vs)
  | .bareList, .list vs => .ok (.list vs)
  | .bareList, .tuple vs => .ok (.list vs)
  | .bareTuple, .list vs => .ok (.list vs)
  | .bareTuple, .tuple vs => .ok (.list vs)
  | .tuple ts, .list vs => decodeAllOf cat rounds strict p ts vs
  | .tuple ts, .tuple vs => decodeAllOf cat rounds strict p ts vs
  | t, v =>
    match scalar? t v with
    | some r => r
    | none => misfit p t v
termination_by (rounds, sizeOf v, sizeOf t)

/-- The first alternative that accepts a value.  Only a wrong part makes an alternative give
way to the next one. -/
def decodeFirst (cat : Catalog) (rounds : Nat) (strict : Bool) (p : Path) (ts : List Shape)
    (v : Value) : Except Error (Option Value) :=
  match ts with
  | [] => .ok none
  | t :: ts =>
    match decode cat rounds strict p t v with
    | .ok x => .ok (some x)
    | .error (.wrong ..) => decodeFirst cat rounds strict p ts v
    | .error (.unexpectedArgument ..) => decodeFirst cat rounds strict p ts v
    | .error (.missingArguments ..) => decodeFirst cat rounds strict p ts v
    | .error e => .error e
termination_by (rounds, sizeOf v, sizeOf ts)

/-- The items of a sequence, all read into one shape. -/
def decodeItems (cat : Catalog) (rounds : Nat) (strict : Bool) (p : Path) (t : Shape) (i : Nat)
    (vs : List Value) : Except Error (List Value) :=
  match vs with
  | [] => .ok []
  | v :: vs => do
    let x ← decode cat rounds strict (p ++ [.int i]) t v
    return x :: (← decodeItems cat rounds strict p t (i + 1) vs)
termination_by (rounds, sizeOf vs, 0)

/-- A sequence with one shape for every item.  A tuple without shapes takes anything. -/
def decodeAllOf (cat : Catalog) (rounds : Nat) (strict : Bool) (p : Path) (ts : List Shape)
    (vs : List Value) : Except Error Value :=
  if ts.isEmpty then .ok (.tuple vs)
  else if ts.length ≠ vs.length then .error (.wrong p (.wrongCount ts.length vs.length))
  else return .tuple (← decodeEach cat rounds strict p 0 ts vs)
termination_by (rounds, sizeOf vs, 1)

/-- Items read each into its own shape. -/
def decodeEach (cat : Catalog) (rounds : Nat) (strict : Bool) (p : Path) (i : Nat)
    (ts : List Shape) (vs : List Value) : Except Error (List Value) :=
  match ts, vs with
  | t :: ts, v :: vs => do
    let x ← decode cat rounds strict (p ++ [.int i]) t v
    return x :: (← decodeEach cat rounds strict p (i + 1) ts vs)
  | _, _ => .ok []
termination_by (rounds, sizeOf vs, 0)

/-- The entries of a table; the keys are taken as they are, but have to be steps of a path. -/
def decodeEntries (cat : Catalog) (rounds : Nat) (strict : Bool) (p : Path) (t : Shape)
    (es : List (Value × Value)) : Except Error (List (Value × Value)) :=
  match es with
  | [] => .ok []
  | (k, v) :: r =>
    if k.plainShows then do
      let x ← decode cat rounds strict (p ++ [k]) t v
      return (k, x) :: (← decodeEntries cat rounds strict p t r)
    else .error .unshown
termination_by (rounds, sizeOf es, 0)

/-- The fields of a record in the order of declaration, from a table. -/
def decodeFields (cat : Catalog) (rounds : Nat) (strict : Bool) (p : Path) (cls : RecordClass)
    (fs : List Field) (es : List (Value × Value)) : Except Error (List (String × Value)) :=
  match fs with
  | [] => .ok []
  | f :: fs => do
    let key := cls.keyOf f
    let x ← match if f.given then valueAt? key es else none with
      | some ⟨v, _⟩ => decode cat rounds strict (p ++ [.str key]) f.shape v
      | none => match f.default with
        | some d => .ok d
        | none => .error (.wrong p (.missingKey key))
    return (f.name, x) :: (← decodeFields cat rounds strict p cls fs es)
termination_by (rounds, sizeOf es, sizeOf fs)

/-- The fields of a new instance whose plain data cannot be read into their shapes. -/
def wrongFields (cat : Catalog) (rounds : Nat) (cls : RecordClass) (fs : List (String × Value)) :
    Except Error (List (String × String)) :=
  match fs with
  | [] => .ok []
  | (name, x) :: fs => do
    let rest := wrongFields cat rounds cls fs
    match cls.field? name with
    | none => rest
    | some f =>
      match decode cat rounds false [.str name] f.shape (toData cat {} x) with
      | .ok _ => rest
      | .error (.wrong p problem) => return (name, (Error.wrong p problem).message) :: (← rest)
      | .error e => .error e
termination_by (rounds + 1, 0, sizeOf fs)
end

/-- How often instances are looked at again: the instances that come out of the first look
need no further one. -/
def lookTwice : Nat := 1

/-- Reads a value into a shape.  When `strict`, keys that a class does not know are refused. -/
def fromDict (cat : Catalog) (t : Shape) (strict : Bool) (v : Value) : Except Error Value :=
  decode cat lookTwice strict [] t v

/-- A new instance from the arguments of its constructor, which are taken as they are and then
checked if the class asks for it. -/
def construct (cat : Catalog) (cls : RecordClass) (args : List (String × Value)) :
    Except Error Value :=
  let parameters := cls.fields.filter (·.given)
  match args.find? fun a => !parameters.any (·.name == a.1) with
  | some a => .error (.unexpectedArgument cls.name a.1)
  | none =>
    let missing := parameters.filter fun f => f.default.isNone && (args.lookup f.name).isNone
    if !missing.isEmpty then .error (.missingArguments cls.name (missing.map (·.name)))
    else
      let fields := cls.fields.map fun f =>
        (f.name, ((args.lookup f.name) <|> f.default).getD .null)
      if cls.checked then do
        match ← wrongFields cat 0 cls fields with
        | [] => .ok (.record cls.name fields)
        | es => .error (.invalid cls.name es)
      else .ok (.record cls.name fields)

end EditorBridge.Schema
