/-
How values are shown in messages.

Two forms: the exact one, in which texts stand in quotes and one can tell a list
from a tuple, and the plain one, which differs only for texts, moments and members
of enumerations.  An integer with too many digits cannot be shown, and nothing that has
one in it; `shows` tells when there is none.
-/
import EditorBridge.Number.Digits
import EditorBridge.Text.Quoted
import EditorBridge.Value.Basic

namespace EditorBridge

namespace Moment

/-- A number with leading zeros up to a width. -/
def padded (width n : Nat) : String :=
  let ds := Nat.toDigits 10 n
  String.ofList (List.replicate (width - ds.length) '0' ++ ds)

/-- A day in the order year, month, day. -/
def dayText (d : Date) : String :=
  padded 4 d.year ++ "-" ++ padded 2 d.month ++ "-" ++ padded 2 d.day

/-- A time of day; microseconds only if there are any. -/
def timeText (t : TimeOfDay) : String :=
  padded 2 t.hour ++ ":" ++ padded 2 t.minute ++ ":" ++ padded 2 t.second ++
    (if t.micro = 0 then "" else "." ++ padded 6 t.micro)

/-- The distance from universal time in hours and minutes. -/
def offsetText (o : Int) : String :=
  let n := o.natAbs
  (if o < 0 then "-" else "+") ++ padded 2 (n / 3600) ++ ":" ++ padded 2 (n / 60 % 60) ++
    (if n % 60 = 0 then "" else ":" ++ padded 2 (n % 60))

/-- The standard text of a moment, with `sep` between day and time. -/
def text (sep : String) : Moment → String
  | day d => dayText d
  | time t => timeText t
  | both d t o => dayText d ++ sep ++ timeText t ++ (o.elim "" offsetText)

/-- A distance in time as messages show it: days and the seconds left. -/
def shownDistance (seconds : Int) : String :=
  let days := seconds.fdiv 86400
  let rest := seconds.fmod 86400
  let parts := (if days = 0 then [] else [s!"days={days}"]) ++
    (if rest = 0 then [] else [s!"seconds={rest}"])
  "datetime.timedelta(" ++ (if parts.isEmpty then "0" else String.intercalate ", " parts) ++ ")"

/-- A distance from universal time as messages show it. -/
def shownOffset (o : Int) : String :=
  if o = 0 then "datetime.timezone.utc" else "datetime.timezone(" ++ shownDistance o ++ ")"

/-- The parts of a time of day that are shown: seconds only if something follows. -/
def shownParts (t : TimeOfDay) : List Nat :=
  [t.hour, t.minute] ++
    (if t.micro ≠ 0 then [t.second, t.micro] else if t.second ≠ 0 then [t.second] else [])

/-- A moment as messages show it. -/
def shown : Moment → String
  | day d => s!"datetime.date({d.year}, {d.month}, {d.day})"
  | time t => "datetime.time(" ++ String.intercalate ", " ((shownParts t).map toString) ++ ")"
  | both d t o =>
    let parts := ([d.year, d.month, d.day] ++ shownParts t).map toString ++
      (o.elim [] fun o => ["tzinfo=" ++ shownOffset o])
    "datetime.datetime(" ++ String.intercalate ", " parts ++ ")"

end Moment

namespace Value

mutual

/-- The exact form of a value. -/
def shown : Value → String
  | null => "None"
  | bool b => if b then "True" else "False"
  | int n => toString n
  | float x => x.text
  | str s => Text.quote s
  | list xs => "[" ++ String.intercalate ", " (shownItems xs) ++ "]"
  | tuple [x] => "(" ++ shown x ++ ",)"
  | tuple xs => "(" ++ String.intercalate ", " (shownItems xs) ++ ")"
  | set [] => "set()"
  | set xs => "\x7b" ++ String.intercalate ", " (shownItems xs) ++ "\x7d"
  | dict es => "\x7b" ++ String.intercalate ", " (shownEntries es) ++ "\x7d"
  | bytes bs => Text.quoteBytes bs
  | moment m => m.shown
  | member e n _ v => "<" ++ e ++ "." ++ n ++ ": " ++ shown v ++ ">"
  | record c fs => c ++ "(" ++ String.intercalate ", " (shownFields fs) ++ ")"
  | thing _ s => s

def shownItems : List Value → List String
  | [] => []
  | x :: xs => shown x :: shownItems xs

def shownEntries : List (Value × Value) → List String
  | [] => []
  | (k, v) :: r => (shown k ++ ": " ++ shown v) :: shownEntries r

def shownFields : List (String × Value) → List String
  | [] => []
  | (k, v) :: r => (k ++ "=" ++ shown v) :: shownFields r

end

/-- The plain form of a value. -/
def plain : Value → String
  | str s => s
  | moment m => m.text " "
  | member e n numeric v => if numeric then shown v else e ++ "." ++ n
  | v => shown v

mutual

/-- Whether a value has an exact form: no integer in it has too many digits. -/
def shows : Value → Bool
  | int n => Digits.fit n
  | list xs | tuple xs | set xs => showsItems xs
  | dict es => showsEntries es
  | member _ _ _ v => shows v
  | record _ fs => showsFields fs
  | null | bool _ | float _ | str _ | bytes _ | moment _ | thing .. => true

def showsItems : List Value → Bool
  | [] => true
  | x :: xs => shows x && showsItems xs

def showsEntries : List (Value × Value) → Bool
  | [] => true
  | (k, v) :: r => shows k && shows v && showsEntries r

def showsFields : List (String × Value) → Bool
  | [] => true
  | (_, v) :: r => shows v && showsFields r

end

theorem showsItems_iff {vs : List Value} : showsItems vs = true ↔ ∀ v ∈ vs, v.shows = true := by
  induction vs with
  | nil => simp [showsItems]
  | cons v vs ih => simp [showsItems, ih]

theorem showsEntries_iff {es : List (Value × Value)} :
    showsEntries es = true ↔ ∀ e ∈ es, e.1.shows = true ∧ e.2.shows = true := by
  induction es with
  | nil => simp [showsEntries]
  | cons e es ih =>
    obtain ⟨k, v⟩ := e
    simp [showsEntries, ih]

theorem showsFields_iff {fields : List (String × Value)} :
    showsFields fields = true ↔ ∀ f ∈ fields, f.2.shows = true := by
  induction fields with
  | nil => simp [showsFields]
  | cons f fields ih =>
    obtain ⟨k, v⟩ := f
    simp [showsFields, ih]

/-- Whether a value has a plain form. -/
def plainShows : Value → Bool
  | member _ _ false _ => true
  | v => v.shows

theorem plainShows_of_shows {v : Value} (h : v.shows = true) : v.plainShows = true := by
  unfold plainShows
  split
  · rfl
  · exact h

end Value

end EditorBridge
