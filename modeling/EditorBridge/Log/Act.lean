/-
Acts: what a part of the bridge does with its state, and tells about its work.

An act reads and changes a state, may write to the journal, and may fail; what it did
before it failed stays done.  An act on a part of a state is an act on the whole.

Every part has a logger of its own name.  A record is kept if its level reaches the
threshold, and a message that has to be built first is built only in that case.
Calls are recorded too as long as call tracing is on.  The values in these records are cut to a
bearable length: long texts and numbers lose their middle, and long lists and tables their end.
What lies too deep is left out.
-/
import EditorBridge.Failure
import EditorBridge.Value.Shown

namespace EditorBridge

/-- How much a record matters. -/
abbrev Level := Nat

namespace Level

def trace : Level := 4
def debug : Level := 10
def info : Level := 20
def warning : Level := 30
def error : Level := 40
def critical : Level := 50

/-- The names of the levels. -/
def names : List (String × Level) := [("TRACE", trace), ("DEBUG", debug), ("INFO", info),
  ("WARNING", warning), ("ERROR", error), ("CRITICAL", critical)]

/-- The name of a level. -/
def name (l : Level) : String := ((names.find? (·.2 == l)).map (·.1)).getD s!"Level {l}"

/-- The level of a name; the name for no level at all stands for the default. -/
def ofName? (s : String) : Option Level :=
  if s == "NOTSET" then some warning else if s == "WARN" then some warning
  else if s == "FATAL" then some critical else names.lookup s

end Level

/-- The source of records. -/
structure Logger where
  name : String
  /-- A threshold of its own, in place of the common one. -/
  own : Option Level := none
  deriving DecidableEq, Repr, Inhabited

/-- A record. -/
structure Record where
  logger : String
  level : Level
  text : String
  deriving DecidableEq, Repr, Inhabited

/-- The records so far, and which ones are to be kept. -/
structure Journal where
  threshold : Level := .warning
  /-- Whether calls are recorded. -/
  tracing : Bool := false
  records : List Record := []
  deriving Repr, Inhabited

namespace Journal

/-- Whether records of a level are kept. -/
def keeps (j : Journal) (l : Logger) (level : Level) : Bool :=
  0 < level && l.own.getD j.threshold ≤ level

/-- Adds a record. -/
def add (j : Journal) (l : Logger) (level : Level) (text : String) : Journal :=
  { j with records := j.records ++ [⟨l.name, level, text⟩] }

end Journal

/-! ### Acts -/

/-- A state with the journal. -/
structure Env (σ : Type) where
  journal : Journal := {}
  state : σ

/-- An act on a state. -/
abbrev Act (σ : Type) := ExceptT Failure (StateM (Env σ))

namespace Act

variable {σ τ α : Type}

/-- The state. -/
def state : Act σ σ := return (← get).state

/-- A part of the state. -/
def read (f : σ → α) : Act σ α := return f (← get).state

/-- Changes the state. -/
def change (f : σ → σ) : Act σ Unit := modify fun e => { e with state := f e.state }

/-- An act on a part of the state. -/
def on (part : σ → τ) (replace : τ → σ → σ) (a : Act τ α) : Act σ α :=
  fun e =>
    let (r, e') := a ⟨e.journal, part e.state⟩
    (r, ⟨e'.journal, replace e'.state e.state⟩)

/-- The outcome of an act as a value; the act itself does not fail. -/
def outcome (a : Act σ α) : Act σ (Except Failure α) :=
  fun e => let (r, e') := a e; (.ok r, e')

/-- An outcome as an act. -/
def ofExcept : Except Failure α → Act σ α
  | .ok a => return a
  | .error f => throw f

/-- Writes a record if its level is kept.  The message is built only then, and building it may
fail. -/
def logBuilt (l : Logger) (level : Level) (text : Unit → Except Failure String) : Act σ Unit := do
  if (← get).journal.keeps l level then
    let t ← ofExcept (text ())
    modify fun e => { e with journal := e.journal.add l level t }

/-- Writes a record if its level is kept. -/
def log (l : Logger) (level : Level) (text : String) : Act σ Unit :=
  logBuilt l level fun _ => .ok text

/-- Records a failure. -/
def logFailure (l : Logger) (f : Failure) : Act σ Unit := log l .error f.summary

/-- Whether a call at a level is recorded. -/
def traces (l : Logger) (level : Level) : Act σ Bool := do
  let j := (← get).journal
  return j.tracing && j.keeps l level

/-- The text of a failed call. -/
def failedCall (name : String) (f : Failure) : String := name ++ "(...) raised " ++ f.report

/-- Records a call and its failure, as long as calls are recorded.  A result is recorded if there
is a way to show it. -/
def traced (l : Logger) (name : String) (arguments : Unit → List String) (a : Act σ α)
    (level : Level := .trace) (shown : Option (α → String) := none) : Act σ α := do
  if ← traces l level then
    log l level (name ++ "(" ++ String.intercalate ", " (arguments ()) ++ ")")
    let r ← try a catch f => do
      log l .error (failedCall name f)
      throw f
    if let some s := shown then log l level (name ++ "(...) returned " ++ s r)
    return r
  else a

end Act

end EditorBridge

namespace EditorBridge.Log

/-! ### Values in records -/

/-- What stands for what was left out. -/
def ellipsis : String := "..."

/-- The limits. -/
structure Limits where
  depth : Nat := 6
  entries : Nat := 4
  items : Nat := 6
  digits : Nat := 40
  chars : Nat := 100

/-- A text without its middle if it has more than `limit` characters. -/
def cut (limit : Nat) (s : String) : String :=
  let cs := s.toList
  if cs.length ≤ limit then s
  else
    let front := (limit - 3) / 2
    let back := limit - 3 - front
    String.ofList (cs.take front) ++ ellipsis ++ String.ofList (cs.drop (cs.length - back))

/-- The end of a text for the part behind a cut.  Of a text that is shorter than this part, only
as many characters are left as it lacks. -/
def ending (back : Nat) (cs : List Char) : List Char :=
  let count := if back ≤ cs.length then back else back - cs.length
  cs.drop (cs.length - count)

/-- A text in quotes, cut before it is quoted and once more afterwards. -/
def cutText (limit : Nat) (s : String) : String :=
  let cs := s.toList
  let q := Text.quote (String.ofList (cs.take limit))
  if q.length ≤ limit then q
  else
    let front := (limit - 3) / 2
    let back := limit - 3 - front
    let q := (Text.quote (String.ofList (cs.take front ++ ending back cs))).toList
    String.ofList (q.take front) ++ ellipsis ++ String.ofList (q.drop (q.length - back))

/-- Keys that are all texts are sorted. -/
def sortedEntries (es : List (Value × Value)) : List (Value × Value) :=
  if es.all fun e => (match e.1 with | .str _ => true | _ => false) then
    es.mergeSort fun a b => a.1.plain ≤ b.1.plain
  else es

/-- The items between brackets. -/
def bracketed (l r : String) (shown : List String) (more : Bool) : String :=
  l ++ String.intercalate ", " (shown ++ (if more then [ellipsis] else [])) ++ r

/-- A value, cut to the limits. -/
def elided (lim : Limits) : Nat → Value → String
  | _, .str s => cutText lim.chars s
  | _, .int n => cut lim.digits (toString n)
  | 0, .list xs => if xs.isEmpty then "[]" else "[...]"
  | 0, .tuple xs => if xs.isEmpty then "()" else "(...)"
  | 0, .set xs => if xs.isEmpty then "set()" else "\x7b...\x7d"
  | 0, .dict es => if es.isEmpty then "\x7b\x7d" else "\x7b...\x7d"
  | d + 1, .list xs =>
    bracketed "[" "]" ((xs.take lim.items).map (elided lim d)) (lim.items < xs.length)
  | d + 1, .tuple xs =>
    bracketed "(" (if xs.length = 1 then ",)" else ")") ((xs.take lim.items).map (elided lim d))
      (lim.items < xs.length)
  | _ + 1, .set [] => "set()"
  | d + 1, .set xs =>
    bracketed "\x7b" "\x7d" ((xs.take lim.items).map (elided lim d)) (lim.items < xs.length)
  | d + 1, .dict es =>
    bracketed "\x7b" "\x7d"
      (((sortedEntries es).take lim.entries).map fun e =>
        elided lim d e.1 ++ ": " ++ elided lim d e.2)
      (lim.entries < es.length)
  | _, v => cut lim.chars v.shown

/-- A value in the record of a call. -/
def argument (v : Value) : String := elided {} 6 v

/-- The arguments of a call, the named ones behind the others. -/
def arguments (positional : List Value) (named : List (String × Value)) : List String :=
  positional.map argument ++ named.map fun e => e.1 ++ "=" ++ argument e.2

end EditorBridge.Log
