/-
Lists.

A list of pairs is used as a table, where the first entry with a key counts.  Entries of a list
that is filtered are found again by the number of those that are left before them.  A list of what
happened grows at its end, and what holds since some entry is followed from one entry to the next.
-/
import Mathlib.Data.List.Basic

namespace EditorBridge

/-! ### Tables -/

section Tables

variable {κ ν : Type} [DecidableEq κ]

/-- A key is taken out of a table. -/
theorem lookup_filter_ne (es : List (κ × ν)) (k v : κ) :
    (es.filter (·.1 ≠ k)).lookup v = if v = k then none else es.lookup v := by
  induction es with
  | nil => simp
  | cons e es ih =>
    obtain ⟨u, d⟩ := e
    by_cases hk : u = k
    · subst hk
      rw [List.filter_cons_of_neg (by simp), ih]
      by_cases hv : v = u
      · rw [if_pos hv, if_pos hv]
      · rw [if_neg hv, if_neg hv, List.lookup_cons, beq_false_of_ne hv]
    · rw [List.filter_cons_of_pos (by simpa using hk), List.lookup_cons, List.lookup_cons, ih]
      by_cases hv : v = u
      · rw [hv, beq_self_eq_true]
        exact (if_neg hk).symm
      · rw [beq_false_of_ne hv]

/-- A key gets another value. -/
theorem lookup_replaced (es : List (κ × ν)) (k v : κ) (x : ν) :
    ((k, x) :: es.filter (·.1 ≠ k)).lookup v = if v = k then some x else es.lookup v := by
  rw [List.lookup_cons]
  by_cases hv : v = k
  · rw [if_pos hv, hv, beq_self_eq_true]
  · rw [if_neg hv, beq_false_of_ne hv, lookup_filter_ne, if_neg hv]

end Tables

/-! ### What is left of a list -/

section Lists

variable {α : Type} {p : α → Bool} {xs : List α} {i : Nat} {x : α}

/-- What is left of a list has its entries in the same order. -/
theorem getElem?_filter_countP (h : xs[i]? = some x) (hx : p x = true) :
    (xs.filter p)[(xs.take i).countP p]? = some x := by
  induction xs generalizing i with
  | nil => cases h
  | cons y ys ih =>
    cases i with
    | zero =>
      cases h
      simp [hx]
    | succ i =>
      rw [List.getElem?_cons_succ] at h
      rw [List.take_succ_cons]
      cases hy : p y with
      | true =>
        rw [List.filter_cons_of_pos hy, List.countP_cons_of_pos hy, List.getElem?_cons_succ, ih h]
      | false =>
        rw [List.filter_cons_of_neg (by simp [hy]), List.countP_cons_of_neg (by simp [hy]), ih h]

/-- Replacing an entry that is left replaces it in what is left. -/
theorem filter_set_of_pos {y : α} (h : xs[i]? = some y) (hy : p y = true) (hx : p x = true) :
    (xs.set i x).filter p = (xs.filter p).set ((xs.take i).countP p) x := by
  induction xs generalizing i with
  | nil => cases h
  | cons z zs ih =>
    cases i with
    | zero =>
      cases h
      simp [hx, hy]
    | succ i =>
      rw [List.getElem?_cons_succ] at h
      rw [List.take_succ_cons, List.set_cons_succ]
      cases hz : p z with
      | true =>
        rw [List.filter_cons_of_pos hz, List.filter_cons_of_pos hz, List.countP_cons_of_pos hz,
          List.set_cons_succ, ih h]
      | false =>
        rw [List.filter_cons_of_neg (by simp [hz]), List.filter_cons_of_neg (by simp [hz]),
          List.countP_cons_of_neg (by simp [hz]), ih h]

/-- Replacing an entry that is not left does nothing to what is left. -/
theorem filter_set_of_neg {y : α} (h : xs[i]? = some y) (hy : p y = false) (hx : p x = false) :
    (xs.set i x).filter p = xs.filter p := by
  induction xs generalizing i with
  | nil => cases h
  | cons z zs ih =>
    cases i with
    | zero =>
      cases h
      simp [hx, hy]
    | succ i =>
      rw [List.getElem?_cons_succ] at h
      rw [List.set_cons_succ, List.filter_cons, List.filter_cons, ih h]

/-- Replacing an entry does not change what is left before others. -/
theorem countP_take_set {y : α} (h : xs[i]? = some y) (hp : p x = p y) (k : Nat) :
    ((xs.set i x).take k).countP p = (xs.take k).countP p := by
  induction xs generalizing i k with
  | nil => rfl
  | cons z zs ih =>
    cases k with
    | zero => rfl
    | succ k =>
      cases i with
      | zero =>
        cases h
        simp [List.countP_cons, hp]
      | succ i =>
        rw [List.getElem?_cons_succ] at h
        rw [List.set_cons_succ, List.take_succ_cons, List.take_succ_cons, List.countP_cons,
          List.countP_cons, ih h]

end Lists

/-! ### What happened since -/

section Since

variable {α : Type} {p q : α → Prop} {xs before after : List α} {x y : α}

/-- An entry of a list with one more at its end is that one, or it was there before. -/
theorem append_singleton_eq_iff : xs ++ [y] = before ++ x :: after ↔
    before = xs ∧ x = y ∧ after = [] ∨
      ∃ later, after = later ++ [y] ∧ xs = before ++ x :: later := by
  constructor
  · intro h
    rcases List.eq_nil_or_concat after with rfl | ⟨later, z, rfl⟩
    · obtain ⟨rfl, hlast⟩ := List.append_inj' h rfl
      exact .inl ⟨rfl, (List.singleton_inj.1 hlast).symm, rfl⟩
    · rw [List.concat_eq_append, ← List.cons_append, ← List.append_assoc] at h
      obtain ⟨rfl, hlast⟩ := List.append_inj' h rfl
      rw [List.concat_eq_append, List.singleton_inj.1 hlast]
      exact .inr ⟨later, rfl, rfl⟩
  · rintro (⟨rfl, rfl, rfl⟩ | ⟨later, rfl, rfl⟩)
    · rfl
    · simp

/-- One more entry begins what holds since some entry, or does not end it. -/
theorem exists_since_append_singleton :
    (∃ before x after, xs ++ [y] = before ++ x :: after ∧ p x ∧ ∀ z ∈ after, ¬q z) ↔
      p y ∨ (∃ before x after, xs = before ++ x :: after ∧ p x ∧ ∀ z ∈ after, ¬q z) ∧ ¬q y := by
  simp only [append_singleton_eq_iff]
  constructor
  · rintro ⟨before, x, after, ⟨rfl, rfl, rfl⟩ | ⟨later, rfl, rfl⟩, hx, hafter⟩
    · exact .inl hx
    · obtain ⟨hlater, hy⟩ := List.forall_mem_append.1 hafter
      exact .inr ⟨⟨before, x, later, rfl, hx, hlater⟩, hy y (List.mem_singleton_self y)⟩
  · rintro (hy | ⟨⟨before, x, after, rfl, hx, hafter⟩, hy⟩)
    · exact ⟨xs, y, [], .inl ⟨rfl, rfl, rfl⟩, hy, List.forall_mem_nil _⟩
    · refine ⟨before, x, after ++ [y], .inr ⟨after, rfl, rfl⟩, hx, ?_⟩
      exact List.forall_mem_append.2 ⟨hafter, by simpa using hy⟩

end Since

end EditorBridge
