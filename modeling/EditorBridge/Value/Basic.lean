/-
Plain data: what configuration files, scripts and messages hold.

One type takes the values of JSON, TOML and YAML together, and the members of
enumerations and the records that are built from them.  A table keeps its entries
in the order in which they were written, because that order shows in messages, in
printed results and on the wire.  At the end stands which days there are.
-/
import EditorBridge.Number.Shortest

namespace EditorBridge

/-- A calendar day. -/
structure Date where
  year : Nat
  month : Nat
  day : Nat
  deriving DecidableEq, Repr, Inhabited

/-- A time of day, down to microseconds. -/
structure TimeOfDay where
  hour : Nat
  minute : Nat
  second : Nat
  micro : Nat := 0
  deriving DecidableEq, Repr, Inhabited

/-- A day, a time of day, or both together with an optional distance from universal time in
seconds. -/
inductive Moment where
  | day (d : Date)
  | time (t : TimeOfDay)
  | both (d : Date) (t : TimeOfDay) (offset : Option Int)
  deriving DecidableEq, Repr, Inhabited

/-- A plain value. -/
inductive Value where
  | null
  | bool (b : Bool)
  | int (n : Int)
  | float (x : Binary64)
  | str (s : String)
  | list (items : List Value)
  | tuple (items : List Value)
  | set (items : List Value)
  | dict (entries : List (Value × Value))
  | bytes (bs : List UInt8)
  | moment (m : Moment)
  /-- A member of an enumeration; a numeric one equals its number. -/
  | member (enumeration name : String) (numeric : Bool) (value : Value)
  /-- An instance of a record class, with its fields in the order of declaration. -/
  | record (cls : String) (fields : List (String × Value))
  /-- Anything else: known only by the name of its type and by how it is shown. -/
  | thing (type shown : String)
  deriving Repr, Inhabited

namespace Value

mutual

/-- Whether two values are one and the same, part by part. -/
def identical : Value → Value → Bool
  | null, null => true
  | bool a, bool b => a == b
  | int a, int b => a == b
  | float x, float y => x == y
  | str a, str b => a == b
  | list a, list b | tuple a, tuple b | set a, set b => identicalItems a b
  | dict a, dict b => identicalEntries a b
  | bytes a, bytes b => a == b
  | moment a, moment b => a == b
  | member e n numeric v, member e' n' numeric' v' =>
    e == e' && n == n' && numeric == numeric' && identical v v'
  | record c a, record d b => c == d && identicalFields a b
  | thing t a, thing u b => t == u && a == b
  | _, _ => false

def identicalItems : List Value → List Value → Bool
  | [], [] => true
  | x :: xs, y :: ys => identical x y && identicalItems xs ys
  | _, _ => false

def identicalEntries : List (Value × Value) → List (Value × Value) → Bool
  | [], [] => true
  | (k, v) :: r, (k', v') :: r' => identical k k' && identical v v' && identicalEntries r r'
  | _, _ => false

def identicalFields : List (String × Value) → List (String × Value) → Bool
  | [], [] => true
  | (k, v) :: r, (k', v') :: r' => k == k' && identical v v' && identicalFields r r'
  | _, _ => false

end

instance : BEq Value := ⟨identical⟩

/-- A table whose keys are texts. -/
def table (entries : List (String × Value)) : Value :=
  .dict (entries.map fun e => (.str e.1, e.2))

/-- The name of the type of a value, as messages give it. -/
def typeName : Value → String
  | null => "NoneType"
  | bool _ => "bool"
  | int _ => "int"
  | float _ => "float"
  | str _ => "str"
  | list _ => "list"
  | tuple _ => "tuple"
  | set _ => "set"
  | dict _ => "dict"
  | bytes _ => "bytes"
  | moment (.day _) => "date"
  | moment (.time _) => "time"
  | moment (.both ..) => "datetime"
  | member e .. => e
  | record c _ => c
  | thing t _ => t

/-- Whether a value counts as true: all but null, false, zero and what is empty. -/
def truthy : Value → Bool
  | null => false
  | bool b => b
  | int n => n != 0
  | float x => !x.isZero
  | str s => s != ""
  | list xs | tuple xs | set xs => !xs.isEmpty
  | dict kvs => !kvs.isEmpty
  | bytes bs => !bs.isEmpty
  | member _ _ numeric v => !numeric || v.truthy
  | moment _ | record .. | thing .. => true

/-- The number a value counts as where numbers are compared: truth values are 0 and 1. -/
def asInt? : Value → Option Int
  | int n => some n
  | bool b => some (if b then 1 else 0)
  | member _ _ true (int n) => some n
  | _ => none

/-- Whether a value is null. -/
def isNull : Value → Bool
  | null => true
  | _ => false

mutual

/-- Equality of values: numbers are equal by what they count, tables whatever the order of
their entries, and everything else part by part. -/
def same : Value → Value → Bool
  | null, null => true
  | bool a, b => match b.asInt? with
    | some n => n == (if a then 1 else 0)
    | none => match b with
      | float y => y.sameInt (if a then 1 else 0)
      | _ => false
  | int a, b => match b.asInt? with
    | some n => n == a
    | none => match b with
      | float y => y.sameInt a
      | _ => false
  | float x, b => match b.asInt? with
    | some n => x.sameInt n
    | none => match b with
      | float y => x.same y
      | _ => false
  | str a, str b => a == b
  | list a, list b => sameItems a b
  | tuple a, tuple b => sameItems a b
  | set a, set b => a.length == b.length && sameSet a b
  | dict a, dict b => a.length == b.length && sameEntries a b
  | bytes a, bytes b => a == b
  | moment a, moment b => decide (a = b)
  | member e n numeric v, b => match b with
    | member e' n' _ _ => e == e' && n == n'
    | _ => numeric && same v b
  | record c a, record d b => c == d && sameFields a b
  | thing t a, thing u b => t == u && a == b
  | _, _ => false

def sameItems : List Value → List Value → Bool
  | [], [] => true
  | x :: xs, y :: ys => same x y && sameItems xs ys
  | _, _ => false

def sameSet : List Value → List Value → Bool
  | [], _ => true
  | x :: xs, ys => (ys.any fun y => same x y) && sameSet xs ys

def sameEntries : List (Value × Value) → List (Value × Value) → Bool
  | [], _ => true
  | (k, v) :: r, es => (es.any fun e => same k e.1 && same v e.2) && sameEntries r es

def sameFields : List (String × Value) → List (String × Value) → Bool
  | [], [] => true
  | (k, v) :: r, (k', v') :: r' => k == k' && same v v' && sameFields r r'
  | _, _ => false

end

/-- The value under a key, compared as values are. -/
def find? (key : Value) (entries : List (Value × Value)) : Option Value :=
  (entries.find? fun e => same key e.1).map (·.2)

/-- Puts a value under a key: a key that is there keeps its place and its first form. -/
def put (key v : Value) : List (Value × Value) → List (Value × Value)
  | [] => [(key, v)]
  | e :: r => if same key e.1 then (e.1, v) :: r else e :: put key v r

/-- The value under a text key of a table. -/
def get? (key : String) : Value → Option Value
  | dict entries => find? (.str key) entries
  | _ => none

end Value

end EditorBridge

namespace EditorBridge.Calendar

/-! ### Days -/

/-- Whether a year has a day more. -/
def isLeap (year : Nat) : Bool := year % 4 == 0 && (year % 100 != 0 || year % 400 == 0)

/-- The days of a month. -/
def daysIn (year month : Nat) : Nat :=
  if month = 2 then if isLeap year then 29 else 28
  else if month = 4 ∨ month = 6 ∨ month = 9 ∨ month = 11 then 30
  else 31

/-- What is wrong with a moment. -/
inductive Problem where
  | year (n : Nat)
  | month
  | day
  | hour
  | minute
  | second
  deriving DecidableEq, Repr

/-- The message about a problem. -/
def Problem.message : Problem → String
  | year n => s!"year {n} is out of range"
  | month => "month must be in 1..12"
  | day => "day is out of range for month"
  | hour => "hour must be in 0..23"
  | minute => "minute must be in 0..59"
  | second => "second must be in 0..59"

/-- The first thing that is wrong with a day. -/
def dayProblem? (d : Date) : Option Problem :=
  if d.year < 1 ∨ 9999 < d.year then some (.year d.year)
  else if d.month < 1 ∨ 12 < d.month then some .month
  else if d.day < 1 ∨ daysIn d.year d.month < d.day then some .day
  else none

/-- The first thing that is wrong with a time of day. -/
def timeProblem? (t : TimeOfDay) : Option Problem :=
  if 23 < t.hour then some .hour
  else if 59 < t.minute then some .minute
  else if 59 < t.second then some .second
  else none

/-- The microseconds that digits behind a point tell: six digits count. -/
def micros (digits : List Char) : Nat :=
  (digits.take 6 ++ List.replicate (6 - digits.length) '0').foldl
    (fun n c => 10 * n + (c.toNat - 48)) 0

end EditorBridge.Calendar
