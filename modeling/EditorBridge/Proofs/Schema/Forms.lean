/-
The forms of data, and which of them a shape accepts.

A choice takes the first alternative that accepts the data, so whether something is read the
same way again depends on what the other alternatives refuse.  That is settled by form alone:
every shape accepts data of certain forms only (`Shape.forms`), and it refuses all others in the
way that lets a choice go on (`refuses`).  That is so unless the refusal shows the data, as a
literal does, since not all data can be shown.
-/
import EditorBridge.Proofs.Schema.Reading

namespace EditorBridge.Schema

variable {cat : Catalog} {rounds : Nat} {strict : Bool} {p : Path}

/-! ### Forms -/

/-- The forms of plain data. -/
inductive Form where
  | null
  | bool
  | int
  | float
  | str
  | moment
  | list
  | table
  deriving DecidableEq, Repr

namespace Form

def all : List Form := [null, bool, int, float, str, moment, list, table]

theorem mem_all (f : Form) : f ∈ all := by
  cases f <;> decide

/-- The form of a plain value. -/
def of : Value → Form
  | .null => null
  | .bool _ => bool
  | .int _ => int
  | .float _ => float
  | .str _ => str
  | .moment _ => moment
  | .dict _ => table
  | _ => list

/-- The forms of the plain values that may equal a value. -/
def like : Value → List Form
  | .null => [null]
  | .bool _ | .int _ | .float _ => [bool, int, float]
  | .str _ => [str]
  | .moment _ => [moment]
  | .list _ => [list]
  | .dict _ => [table]
  | .member _ _ _ v => like v
  | _ => []

/-- What equals a value is of a form like that of the value. -/
theorem of_mem_like {v o : Value} (hv : v.Plain) (h : v.same o = true ∨ o.same v = true) :
    of v ∈ like o := by
  cases o with
  | member e n numeric w =>
    refine of_mem_like (o := w) hv ?_
    obtain h | h := h
    · -- a number equals a member only if that stands for an integer
      cases hv <;> cases numeric <;> cases w <;> simp_all [Value.same, Value.asInt?]
    · cases hv <;> simp_all [Value.same]
  | null | bool | int | float | str | moment | list | dict | tuple | set | bytes | record | thing =>
    cases hv <;> simp_all [Value.same, Value.asInt?, of, like]

end Form

mutual

/-- The forms of the data that a shape accepts. -/
def Shape.forms : Shape → List Form
  | .any | .typed _ => Form.all
  | .null => [.null]
  | .bool => [.bool]
  | .int => [.int]
  | .float => [.float, .int]
  | .str => [.str]
  | .list _ | .sequence _ | .tuple _ | .tupleOf _ | .bareList | .bareTuple => [.list]
  | .dict .. | .mapping .. | .bareDict | .record _ => [.table]
  | .union ts => formsOfAny ts
  | .literal options => options.flatMap Form.like
  | .enumeration e => e.members.flatMap fun m => Form.like m.2

/-- The forms of the data that one of some shapes accepts. -/
def Shape.formsOfAny : List Shape → List Form
  | [] => []
  | t :: ts => t.forms ++ formsOfAny ts

end

theorem Shape.mem_formsOfAny {f : Form} {ts : List Shape} :
    f ∈ formsOfAny ts ↔ ∃ t ∈ ts, f ∈ t.forms := by
  induction ts with
  | nil => simp [formsOfAny]
  | cons t ts ih => simp [formsOfAny, ih]

mutual

/-- Whether a shape never shows data that it refuses for its form. -/
def Shape.discreet : Shape → Bool
  | .literal _ => false
  | .union ts => Shape.allDiscreet ts
  | _ => true

def Shape.allDiscreet : List Shape → Bool
  | [] => true
  | t :: ts => t.discreet && Shape.allDiscreet ts

end

theorem Shape.allDiscreet_iff {ts : List Shape} :
    Shape.allDiscreet ts = true ↔ ∀ t ∈ ts, t.discreet = true := by
  induction ts with
  | nil => simp [Shape.allDiscreet]
  | cons t ts ih => simp [Shape.allDiscreet, ih]

/-- A shape refuses a value as a wrong part, which lets a choice go on. -/
def Refuses (cat : Catalog) (rounds : Nat) (strict : Bool) (p : Path) (t : Shape) (v : Value) :
    Prop :=
  ∃ q problem, decode cat rounds strict p t v = .error (.wrong q problem)

theorem decodeFirst_of_refuses {ts : List Shape} {v : Value}
    (h : ∀ t ∈ ts, Refuses cat rounds strict p t v) :
    decodeFirst cat rounds strict p ts v = .ok none := by
  induction ts with
  | nil => rw [decodeFirst]
  | cons t ts ih =>
    obtain ⟨⟨q, problem, ht⟩, hts⟩ := List.forall_mem_cons.1 h
    rw [decodeFirst, ht]
    exact ih hts

theorem Enumeration.find?_of_not_like {e : Enumeration} {v : Value} (hv : v.Plain)
    (h : Form.of v ∉ (Shape.enumeration e).forms) : e.find? v = none := by
  have hne : ∀ m ∈ e.members, Form.of v ∉ Form.like m.2 := fun m hm hf =>
    h (by rw [Shape.forms]; exact List.mem_flatMap.2 ⟨m, hm, hf⟩)
  rw [find?, List.find?_eq_none.2, List.find?_eq_none.2]
  · rfl
  · exact fun m hm hs => hne m hm (Form.of_mem_like hv (.inr hs))
  · intro x hx hs
    obtain ⟨m, hm, rfl⟩ := List.mem_map.1 hx
    exact hne m hm (Form.of_mem_like (o := e.member m) hv (.inr hs))

/-- **A shape refuses data of other forms.** -/
theorem refuses {p : Path} {t : Shape} {v : Value} (ht : t.discreet = true) (hv : v.Plain)
    (h : Form.of v ∉ t.forms) : Refuses cat rounds strict p t v := by
  unfold Refuses
  cases t with
  | union ts =>
    rw [Shape.forms, Shape.mem_formsOfAny] at h
    rw [Shape.discreet, Shape.allDiscreet_iff] at ht
    have hts (t : Shape) (hmem : t ∈ ts) : Refuses cat rounds strict p t v := by
      have := List.sizeOf_lt_of_mem hmem
      exact refuses (ht t hmem) hv fun hf => h ⟨t, hmem, hf⟩
    rw [decode, decodeFirst_of_refuses hts]
    exact ⟨_, _, rfl⟩
  | literal => cases ht
  | enumeration e =>
    have hfind := e.find?_of_not_like hv h
    cases hv <;> simp [decode, scalar?, hfind, misfit]
  | any | typed => exact absurd (Form.mem_all _) h
  | null | bool | int | float | str | list | sequence | tuple | tupleOf | bareList | bareTuple
  | dict | mapping | bareDict | record =>
    cases hv <;> simp [decode, scalar?, misfit, Shape.forms, Form.of] at h ⊢
termination_by sizeOf t

end EditorBridge.Schema
