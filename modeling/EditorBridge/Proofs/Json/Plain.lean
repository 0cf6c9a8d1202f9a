/-
What is read can be written.

A text of JSON gives null, truth values, numbers, texts, lists of such values, and tables
of them with texts for keys.  Its integers have no more digits than can be written, for no
more are read.  A value of this kind has a text again.  So an end of a
connection can always write the id of a request into its answer: whatever the other side
sent for an id, it was read.

The reader is three functions that call one another, with a bound on the depth, and the
induction is on the bound.  What has been read of a list or a table so far is plain, and
one more item or member keeps it so.
-/
import EditorBridge.Proofs.Params
import Mathlib.Data.List.TakeDrop
import Mathlib.Data.List.TakeWhile

namespace EditorBridge

/-- A run of digits stands for a number with no more digits. -/
theorem Digits.value_lt {ds : List Char} (h : ∀ c ∈ ds, c.isDigit = true) : value ds < 10 ^ ds.length := by
  suffices hgo : ∀ n, ds.foldl (fun n c => 10 * n + (c.toNat - 48)) n < (n + 1) * 10 ^ ds.length by
    simpa [value] using hgo 0
  induction ds with
  | nil => simp
  | cons c ds ih =>
    intro n
    have hc : c.toNat - 48 < 10 := by
      have hc := h c List.mem_cons_self
      simp only [Char.isDigit, Bool.and_eq_true, decide_eq_true_eq, ge_iff_le,
        UInt32.le_iff_toNat_le] at hc
      exact Nat.sub_lt_left_of_lt_add hc.1 (Nat.lt_succ_of_le hc.2)
    rw [List.foldl_cons, List.length_cons, Nat.pow_succ, Nat.mul_comm (10 ^ _), ← Nat.mul_assoc]
    refine Nat.lt_of_lt_of_le (ih (fun c hc => h c (List.mem_cons_of_mem _ hc)) _) ?_
    exact Nat.mul_le_mul_right _ (by omega)

/-- A value that JSON has a text for, with nothing but texts for keys. -/
inductive Json.Plain : Value → Prop
  | null : Plain .null
  | bool (b : Bool) : Plain (.bool b)
  | int {n : Int} (h : Digits.fit n = true) : Plain (.int n)
  | float (x : Binary64) : Plain (.float x)
  | str (s : String) : Plain (.str s)
  | list {items : List Value} (h : ∀ v ∈ items, Plain v) : Plain (.list items)
  | dict {entries : List (Value × Value)} (hk : ∀ e ∈ entries, ∃ s, e.1 = .str s)
    (h : ∀ e ∈ entries, Plain e.2) : Plain (.dict entries)

namespace Json

/-! ### Writing -/

theorem Writable.float (x : Binary64) : Writable (.float x) := fun _ _ _ _ => ⟨_, by rw [write]⟩

/-- A table is what it is made of, if its keys are texts. -/
theorem exists_table {entries : List (Value × Value)} (hk : ∀ e ∈ entries, ∃ s, e.1 = .str s) :
    ∃ es : List (String × Value), entries = es.map fun e => (.str e.1, e.2) := by
  induction entries with
  | nil => exact ⟨[], rfl⟩
  | cons e entries ih =>
    obtain ⟨⟨s, hs⟩, hk⟩ := List.forall_mem_cons.1 hk
    obtain ⟨es, rfl⟩ := ih hk
    exact ⟨(s, e.2) :: es, by rw [List.map_cons, ← hs]⟩

/-- **A plain value has a text.** -/
theorem Plain.writable {v : Value} (h : Plain v) : Writable v := by
  induction h with
  | null => exact .null
  | bool b => exact .bool b
  | int h => exact .int h
  | float x => exact .float x
  | str s => exact .str s
  | list _ ih => exact .list ih
  | dict hk _ ih =>
    obtain ⟨es, rfl⟩ := exists_table hk
    exact .table fun e he => ih _ (List.mem_map_of_mem he)

/-- What stands under a key of a plain value is plain. -/
theorem Plain.get? {v w : Value} {key : String} (h : Plain v) (hw : v.get? key = some w) :
    Plain w := by
  cases h with
  | dict _ h =>
    obtain ⟨e, he, rfl⟩ := Option.map_eq_some_iff.1 hw
    exact h e (List.mem_of_find?_eq_some he)
  | null | bool | int | float | str | list => simp [Value.get?] at hw

/-! ### Reading -/

/-- A member more, or another value for a member. -/
theorem Plain.put {key : String} {v : Value} {entries : List (Value × Value)}
    (h : Plain (.dict entries)) (hv : Plain v) :
    Plain (.dict (Value.put (.str key) v entries)) := by
  induction entries with
  | nil => exact .dict (by simp [Value.put]) (by simp [Value.put, hv])
  | cons e entries ih =>
    cases h with
    | dict hk h =>
      obtain ⟨he, hk⟩ := List.forall_mem_cons.1 hk
      obtain ⟨hv', h⟩ := List.forall_mem_cons.1 h
      unfold Value.put
      split
      · exact .dict (List.forall_mem_cons.2 ⟨he, hk⟩) (List.forall_mem_cons.2 ⟨hv, h⟩)
      · cases ih (.dict hk h) with
        | dict hk' h' =>
          exact .dict (List.forall_mem_cons.2 ⟨he, hk'⟩) (List.forall_mem_cons.2 ⟨hv', h'⟩)

/-- The integer part of a number is a run of digits. -/
theorem isDigit_of_integerPart {s whole r : List Char} (h : integerPart? s = some (whole, r)) :
    ∀ c ∈ whole, c.isDigit = true := by
  unfold integerPart? at h
  split at h
  · cases h
    exact List.forall_mem_singleton.2 rfl
  · split at h
    · rename_i c r' _ hc
      rw [List.span_eq_takeWhile_dropWhile] at h
      cases h
      exact fun _ => List.mem_takeWhile_imp
    · cases h
  · cases h

theorem plain_of_readNumber {start s r : List Char} {neg : Bool} {v : Value}
    (h : readNumber start neg s = .ok (v, r)) : Plain v := by
  unfold readNumber at h
  split at h
  · cases h
  · dsimp only at h
    split at h
    · split at h
      · cases h
      · rename_i whole _ hwhole _ hshort
        have hlt := Digits.value_lt (isDigit_of_integerPart hwhole)
        have hle := Nat.pow_le_pow_right (n := 10) (by decide) (Nat.le_of_not_lt hshort)
        cases h
        refine .int (Digits.fit_iff.2 (Nat.lt_of_lt_of_le ?_ hle))
        split <;> simpa using hlt
    · cases h
      exact .float _

theorem plain_of_word {s r : List Char} {w : String} {v v' : Value} (hv : Plain v)
    (h : readPlain.word s w v = .ok (v', r)) : Plain v' := by
  unfold readPlain.word at h
  split at h
  · cases h
    exact hv
  · cases h

theorem plain_of_readPlain {s r : List Char} {v : Value} (h : readPlain s = .ok (v, r)) :
    Plain v := by
  unfold readPlain at h
  split at h
  · exact plain_of_word .null h
  · exact plain_of_word (.bool _) h
  · exact plain_of_word (.bool _) h
  · exact plain_of_word (.float _) h
  · exact plain_of_word (.float _) h
  · split at h
    · cases h
      exact .float _
    · exact plain_of_readNumber h
  · exact plain_of_readNumber h

/-- What is read with a bound on the depth is plain. -/
def ReadsPlain (fuel : Nat) : Prop :=
  (∀ s v r, readValue fuel s = .ok (v, r) → Plain v) ∧
  (∀ acc s v r, (∀ x ∈ acc, Plain x) → readItems fuel acc s = .ok (v, r) → Plain v) ∧
  ∀ acc s v r, Plain (.dict acc) → readMembers fuel acc s = .ok (v, r) → Plain v

theorem readsPlain (fuel : Nat) : ReadsPlain fuel := by
  induction fuel with
  | zero =>
    refine ⟨fun s v r h => ?_, fun acc s v r _ h => ?_, fun acc s v r _ h => ?_⟩
    · simp [readValue] at h
    · simp [readItems] at h
    · simp [readMembers] at h
  | succ fuel ih =>
    obtain ⟨hvalue, hitems, hmembers⟩ := ih
    refine ⟨fun s v r h => ?_, fun acc s v r hacc h => ?_, fun acc s v r hacc h => ?_⟩
    · unfold readValue at h
      split at h
      · obtain ⟨cs, -, h⟩ := bind_ok_iff.1 h
        cases h
        exact .str _
      · split at h
        · cases h
          exact .list (by simp)
        · exact hitems _ _ _ _ (by simp) h
      · split at h
        · cases h
          exact .dict (by simp) (by simp)
        · exact hmembers _ _ _ _ (.dict (by simp) (by simp)) h
      · exact plain_of_readPlain h
    · unfold readItems at h
      obtain ⟨⟨x, r'⟩, hx, h⟩ := bind_ok_iff.1 h
      have hx := hvalue _ _ _ hx
      have hall : ∀ y ∈ x :: acc, Plain y := List.forall_mem_cons.2 ⟨hx, hacc⟩
      dsimp only at h
      split at h
      · cases h
        exact .list fun y hy => hall y (List.mem_reverse.1 hy)
      · exact hitems _ _ _ _ hall h
      · cases h
    · unfold readMembers at h
      split at h
      · obtain ⟨cs, -, h⟩ := bind_ok_iff.1 h
        dsimp only at h
        split at h
        · obtain ⟨⟨x, r'⟩, hx, h⟩ := bind_ok_iff.1 h
          have hx := hvalue _ _ _ hx
          dsimp only at h
          split at h
          · cases h
            exact hacc.put hx
          · exact hmembers _ _ _ _ (hacc.put hx) h
          · cases h
        · cases h
      · cases h

/-- **A text of JSON gives a plain value.** -/
theorem plain_of_parse {text : String} {v : Value} (h : parse text = .ok v) : Plain v := by
  unfold parse at h
  dsimp only at h
  split at h
  · cases h
  · split at h
    · cases h
    · rename_i w r hread
      have hw := (readsPlain _).1 _ _ _ hread
      split at h
      · cases h
        exact hw
      · cases h

end Json

end EditorBridge
