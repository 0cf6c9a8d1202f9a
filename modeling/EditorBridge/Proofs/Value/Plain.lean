/-
Plain data, and when values are equal.

Plain data are what a text of JSON or of TOML holds: scalars, lists, and tables with texts for
keys.  Equality of values is loose, numbers count by what they are worth, and so it is not a
matter of course that a value equals itself, or that it does not matter which of two values is
asked.  A value equals itself as long as no NaN is in it (`Definite.same_self`), and the sides
can be changed for plain data and values of the kind that fields have for defaults
(`Plain.same_symm`).
-/
import EditorBridge.Value.Basic
import Mathlib.Data.List.Forall2

namespace EditorBridge

/-! ### Numbers -/

namespace Binary64

theorem same_self {x : Binary64} (h : x.kind ≠ .nan) : x.same x = true := by
  unfold same
  cases hk : x.kind with
  | nan => exact absurd hk h
  | infinite => simp
  | finite => simp

theorem same_comm (x y : Binary64) : x.same y = y.same x := by
  unfold same
  cases x.kind with
  | nan => cases y.kind <;> rfl
  | infinite => cases y.kind <;> simp [Bool.beq_comm]
  | finite => cases y.kind <;> simp [Bool.beq_comm]

end Binary64

namespace Value

/-! ### Equality part by part -/

theorem sameItems_iff {xs ys : List Value} :
    sameItems xs ys = true ↔ List.Forall₂ (fun x y => x.same y = true) xs ys := by
  induction xs generalizing ys with
  | nil => cases ys <;> simp [sameItems]
  | cons x xs ih => cases ys <;> simp [sameItems, ih]

theorem sameFields_iff {xs ys : List (String × Value)} :
    sameFields xs ys = true ↔
      List.Forall₂ (fun x y => x.1 = y.1 ∧ x.2.same y.2 = true) xs ys := by
  induction xs generalizing ys with
  | nil => cases ys <;> simp [sameFields]
  | cons x xs ih =>
    obtain ⟨k, v⟩ := x
    cases ys with
    | nil => simp [sameFields]
    | cons y ys =>
      obtain ⟨l, w⟩ := y
      simp [sameFields, ih]

theorem sameSet_iff {xs ys : List Value} :
    sameSet xs ys = true ↔ ∀ x ∈ xs, ∃ y ∈ ys, x.same y = true := by
  induction xs with
  | nil => simp [sameSet]
  | cons x xs ih => simp [sameSet, ih]

theorem sameEntries_iff {xs ys : List (Value × Value)} :
    sameEntries xs ys = true ↔
      ∀ x ∈ xs, ∃ y ∈ ys, x.1.same y.1 = true ∧ x.2.same y.2 = true := by
  induction xs with
  | nil => simp [sameEntries]
  | cons x xs ih =>
    obtain ⟨k, v⟩ := x
    simp only [sameEntries, Bool.and_eq_true, List.any_eq_true, ih, List.forall_mem_cons]

/-! ### Values that equal themselves -/

/-- A value in which no number is a NaN. -/
inductive Definite : Value → Prop
  | null : Definite .null
  | bool (b : Bool) : Definite (.bool b)
  | int (n : Int) : Definite (.int n)
  | float {x : Binary64} (h : x.kind ≠ .nan) : Definite (.float x)
  | str (s : String) : Definite (.str s)
  | list {items : List Value} (h : ∀ v ∈ items, Definite v) : Definite (.list items)
  | tuple {items : List Value} (h : ∀ v ∈ items, Definite v) : Definite (.tuple items)
  | set {items : List Value} (h : ∀ v ∈ items, Definite v) : Definite (.set items)
  | dict {entries : List (Value × Value)} (hk : ∀ e ∈ entries, Definite e.1)
    (h : ∀ e ∈ entries, Definite e.2) : Definite (.dict entries)
  | bytes (bs : List UInt8) : Definite (.bytes bs)
  | moment (m : Moment) : Definite (.moment m)
  | member (e n : String) (numeric : Bool) (v : Value) : Definite (.member e n numeric v)
  | record {c : String} {fields : List (String × Value)} (h : ∀ f ∈ fields, Definite f.2) :
    Definite (.record c fields)
  | thing (t s : String) : Definite (.thing t s)

/-- **A value without a NaN equals itself.** -/
theorem Definite.same_self {v : Value} (h : v.Definite) : v.same v = true := by
  induction h with
  | null | bool | int | str | bytes | moment | thing => simp [same, asInt?]
  | float h => simp [same, asInt?, Binary64.same_self h]
  | member => simp [same]
  | list _ ih => simpa [same, sameItems_iff, List.forall₂_same] using ih
  | tuple _ ih => simpa [same, sameItems_iff, List.forall₂_same] using ih
  | set _ ih => simpa [same, sameSet_iff] using fun x hx => ⟨x, hx, ih x hx⟩
  | dict _ _ ihk ih =>
    simp only [same, beq_self_eq_true, Bool.true_and, sameEntries_iff]
    exact fun e he => ⟨e, he, ihk e he, ih e he⟩
  | record _ ih =>
    simp only [same, beq_self_eq_true, Bool.true_and, sameFields_iff, List.forall₂_same, true_and]
    exact ih

/-! ### Plain data -/

/-- A value that a text of JSON or of TOML may hold. -/
inductive Plain : Value → Prop
  | null : Plain .null
  | bool (b : Bool) : Plain (.bool b)
  | int (n : Int) : Plain (.int n)
  | float (x : Binary64) : Plain (.float x)
  | str (s : String) : Plain (.str s)
  | moment (m : Moment) : Plain (.moment m)
  | list {items : List Value} (h : ∀ v ∈ items, Plain v) : Plain (.list items)
  | dict {entries : List (Value × Value)} (hk : ∀ e ∈ entries, ∃ s, e.1 = .str s)
    (h : ∀ e ∈ entries, Plain e.2) : Plain (.dict entries)

/-- A value of the kind that fields have for a default: a scalar, a list or a tuple of such
values, an empty table, or a record of them. -/
inductive Simple : Value → Prop
  | null : Simple .null
  | bool (b : Bool) : Simple (.bool b)
  | int (n : Int) : Simple (.int n)
  | float {x : Binary64} (h : x.kind ≠ .nan) : Simple (.float x)
  | str (s : String) : Simple (.str s)
  | list {items : List Value} (h : ∀ v ∈ items, Simple v) : Simple (.list items)
  | tuple {items : List Value} (h : ∀ v ∈ items, Simple v) : Simple (.tuple items)
  | emptyDict : Simple (.dict [])
  | record {c : String} {fields : List (String × Value)} (h : ∀ f ∈ fields, Simple f.2) :
    Simple (.record c fields)

theorem Simple.definite {d : Value} (h : d.Simple) : d.Definite := by
  induction h with
  | null => exact .null
  | bool b => exact .bool b
  | int n => exact .int n
  | float h => exact .float h
  | str s => exact .str s
  | list _ ih => exact .list ih
  | tuple _ ih => exact .tuple ih
  | emptyDict => exact .dict (by simp) (by simp)
  | record _ ih => exact .record ih

/-- What holds item by item holds the other way round. -/
theorem forall₂_swap {α β : Type} {R : α → β → Prop} {S : β → α → Prop} {xs : List α} {ys : List β}
    (h : List.Forall₂ R xs ys) (hswap : ∀ x ∈ xs, ∀ y ∈ ys, R x y → S y x) :
    List.Forall₂ S ys xs := by
  induction h with
  | nil => exact .nil
  | cons h _ ih =>
    exact .cons (hswap _ List.mem_cons_self _ List.mem_cons_self h)
      (ih fun x hx y hy => hswap x (List.mem_cons_of_mem _ hx) y (List.mem_cons_of_mem _ hy))

/-- **Plain data that equal a default are equal to it the other way round.** -/
theorem Plain.same_symm {v d : Value} (h : v.Plain) (hd : d.Simple) (hs : v.same d = true) :
    d.same v = true := by
  induction h generalizing d with
  | null | bool | int | str | moment => cases hd <;> simp_all [same, asInt?]
  | float x => cases hd <;> simp_all [same, asInt?, Binary64.same_comm]
  | list _ ih =>
    cases hd with
    | list hd =>
      simp only [same, sameItems_iff] at hs ⊢
      exact forall₂_swap hs fun x hx d hmem => ih x hx (hd d hmem)
    | null | bool | int | float | str | tuple | emptyDict | record => simp [same] at hs
  | dict =>
    cases hd with
    | emptyDict => simp_all [same, sameEntries_iff]
    | null | bool | int | float | str | tuple | list | record => simp [same] at hs

end Value

end EditorBridge
