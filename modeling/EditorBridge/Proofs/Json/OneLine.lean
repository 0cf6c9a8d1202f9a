/-
Texts on one line.

Between quotes a line break is written as an escape, and numbers and words have none.  So a
layout that does not put items on lines of their own gives a text without line breaks, and
what is printed in it is one line for each value.
-/
import EditorBridge.Json.Writer
import EditorBridge.Proofs.Params
import Mathlib.Data.List.Basic

namespace EditorBridge.Json

/-- Characters without a line break among them. -/
def Unbroken (cs : List Char) : Prop := '\n' ∉ cs

instance (cs : List Char) : Decidable (Unbroken cs) := inferInstanceAs (Decidable (_ ∉ _))

theorem Unbroken.append {cs cs' : List Char} (h : Unbroken cs) (h' : Unbroken cs') :
    Unbroken (cs ++ cs') := fun hmem => (List.mem_append.1 hmem).elim h h'

theorem Unbroken.cons {c : Char} {cs : List Char} (hc : c ≠ '\n') (h : Unbroken cs) :
    Unbroken (c :: cs) := fun hmem => (List.mem_cons.1 hmem).elim (fun he => hc he.symm) h

theorem Unbroken.sublist {cs cs' : List Char} (h : Unbroken cs') (hs : cs.Sublist cs') :
    Unbroken cs := fun hmem => h (hs.subset hmem)

theorem unbroken_replicate {c : Char} (hc : c ≠ '\n') (n : Nat) :
    Unbroken (List.replicate n c) := fun hmem => hc (List.eq_of_mem_replicate hmem).symm

/-! ### Numbers -/

theorem digitChar_ne (d : Nat) : Nat.digitChar d ≠ '\n' := by
  grind [Nat.digitChar]

theorem exists_digit_of_mem {b fuel n : Nat} {cs : List Char} {c : Char}
    (h : c ∈ Nat.toDigitsCore b fuel n cs) : c ∈ cs ∨ ∃ d, c = Nat.digitChar d := by
  induction fuel generalizing n cs with
  | zero => exact .inl h
  | succ fuel ih =>
    unfold Nat.toDigitsCore at h
    dsimp only at h
    split at h
    · exact (List.mem_cons.1 h).symm.imp id fun h => ⟨_, h⟩
    · rcases ih h with h | h
      · exact (List.mem_cons.1 h).symm.imp id fun h => ⟨_, h⟩
      · exact .inr h

theorem unbroken_toDigits (b n : Nat) : Unbroken (Nat.toDigits b n) := by
  intro h
  rcases exists_digit_of_mem h with h | ⟨d, hd⟩
  · cases h
  · exact digitChar_ne d hd.symm

theorem unbroken_int (n : Int) : Unbroken (toString n).toList := by
  cases n with
  | ofNat m =>
    show Unbroken (Nat.repr m).toList
    rw [Nat.toList_repr]
    exact unbroken_toDigits 10 m
  | negSucc m =>
    show Unbroken ("-" ++ Nat.repr (m + 1)).toList
    rw [String.toList_append, Nat.toList_repr]
    exact .append (by decide) (unbroken_toDigits 10 (m + 1))

theorem unbroken_writeInt {short : Int → Bool} {n : Int} {s : String}
    (h : writeInt short n = .ok s) : Unbroken s.toList := by
  unfold writeInt at h
  split at h
  · cases h
    exact unbroken_int n
  · cases h

open Binary64 (digitsOf exponentChars place dropEndZeros)

theorem unbroken_exponentChars (k : Int) : Unbroken (exponentChars k) := by
  have hdigits : Unbroken (digitsOf k.natAbs) := unbroken_toDigits 10 _
  unfold exponentChars
  refine .cons (by split <;> decide) ?_
  split
  · exact .cons (by decide) hdigits
  · exact hdigits

theorem unbroken_place {ds : List Char} (h : Unbroken ds) (point : Int) :
    Unbroken (place ds point) := by
  have hzeros (n : Nat) : Unbroken (List.replicate n '0') := unbroken_replicate (by decide) n
  unfold place
  split
  · split
    · exact .cons (by decide) (.cons (by decide) ((hzeros _).append h))
    · split
      · exact .append (h.sublist (List.take_sublist ..))
          (.cons (by decide) (h.sublist (List.drop_sublist ..)))
      · exact (h.append (hzeros _)).append (by decide)
  · split
    · exact .cons (fun hd => h (by simp [hd])) (.cons (by decide) (unbroken_exponentChars _))
    · rename_i d r _
      have hcons : Unbroken (d :: '.' :: r) :=
        .cons (fun hd => h (by simp [hd])) (.cons (by decide) fun hr => h (.tail _ hr))
      exact hcons.append (.cons (by decide) (unbroken_exponentChars _))
    · exact List.not_mem_nil

theorem unbroken_dropEndZeros {ds : List Char} (h : Unbroken ds) : Unbroken (dropEndZeros ds) := by
  intro hmem
  unfold dropEndZeros at hmem
  have hdropped := (List.dropWhile_sublist _).subset (List.mem_reverse.1 hmem)
  exact h (List.mem_reverse.1 hdropped)

theorem unbroken_float (x : Binary64) : Unbroken (writeFloat x).toList := by
  have hsign {cs : List Char} (h : Unbroken cs) :
      Unbroken (String.ofList (if x.negative then '-' :: cs else cs)).toList := by
    rw [String.toList_ofList]
    split
    · exact .cons (by decide) h
    · exact h
  unfold writeFloat
  split
  · decide
  · split <;> decide
  · refine hsign ?_
    split
    · decide
    · exact unbroken_place (unbroken_dropEndZeros (unbroken_toDigits 10 _)) _

/-! ### Texts -/

theorem unbroken_unitEscape (n : Nat) : Unbroken (unitEscape n) := by
  have hdigits : Unbroken (Text.hex 4 n) :=
    (unbroken_replicate (by decide) _).append (unbroken_toDigits 16 n)
  exact .cons (by decide) (.cons (by decide) hdigits)

/-- A line break is written as an escape, and nothing else is written as one. -/
theorem unbroken_writeChar (c : Char) : Unbroken (writeChar c) := by
  by_cases hc : c = '\n'
  · subst hc
    decide
  · unfold writeChar
    repeat' split
    all_goals first
      | decide
      | exact .cons hc List.not_mem_nil
      | exact unbroken_unitEscape _
      | exact (unbroken_unitEscape _).append (unbroken_unitEscape _)

theorem unbroken_writeText (t : String) : Unbroken (writeText t).toList := by
  unfold writeText
  rw [String.toList_ofList]
  refine .cons (by decide) (.append (fun hmem => ?_) (by decide))
  obtain ⟨c, -, hc⟩ := List.mem_flatMap.1 hmem
  exact unbroken_writeChar c hc

/-! ### Values -/

theorem unbroken_intercalate {sep : List Char} (hs : Unbroken sep) {css : List (List Char)}
    (h : ∀ cs ∈ css, Unbroken cs) : Unbroken (sep.intercalate css) := by
  induction css with
  | nil => exact List.not_mem_nil
  | cons cs css ih =>
    obtain ⟨hcs, hcss⟩ := List.forall_mem_cons.1 h
    cases css with
    | nil =>
      rw [List.intercalate_singleton]
      exact hcs
    | cons =>
      rw [List.intercalate_cons_cons]
      exact (hcs.append hs).append (ih hcss)

variable {short : Int → Bool} {l : Layout}

theorem unbroken_bracket (hl : l.indented = false) (hc : Unbroken l.comma.toList) {level : Nat}
    {o c : String} {items : List String} (ho : Unbroken o.toList) (hcl : Unbroken c.toList)
    (h : ∀ t ∈ items, Unbroken t.toList) : Unbroken (bracket l level o c items).toList := by
  unfold bracket
  rw [hl]
  split
  · rw [String.toList_append]
    exact ho.append hcl
  · simp only [Bool.false_eq_true, if_false, String.toList_append, String.toList_intercalate]
    refine (ho.append (unbroken_intercalate hc fun cs hcs => ?_)).append hcl
    obtain ⟨t, ht, rfl⟩ := List.mem_map.1 hcs
    exact h t ht

/-- **A value is written on one line** if items need not stand on lines of their own. -/
theorem unbroken_write (hl : l.indented = false) (hcomma : Unbroken l.comma.toList)
    (hcolon : Unbroken l.colon.toList) (level : Nat) (v : Value) :
    ∀ s, write short l level v = .ok s → Unbroken s.toList := by
  have hbracket {level : Nat} {o c s : String} {ts : Except Unwritable (List String)}
      (ho : Unbroken o.toList) (hc : Unbroken c.toList)
      (ih : ∀ items, ts = .ok items → ∀ t ∈ items, Unbroken t.toList)
      (h : (ts >>= fun items => pure (bracket l level o c items)) = .ok s) :
      Unbroken s.toList := by
    obtain ⟨items, hitems, h⟩ := bind_ok_iff.1 h
    cases h
    exact unbroken_bracket hl hcomma ho hc (ih items hitems)
  refine write.induct
    (fun level v => ∀ s, write short l level v = .ok s → Unbroken s.toList)
    (fun level es => ∀ ts, writeMembers short l level es = .ok ts → ∀ t ∈ ts, Unbroken t.toList)
    (fun level vs => ∀ ts, writeItems short l level vs = .ok ts → ∀ t ∈ ts, Unbroken t.toList)
    ?null ?bool ?int ?float ?str ?list ?tuple ?dict ?member ?other ?noItems ?items ?noMembers
    ?members level v
  case null =>
    rintro level s ⟨⟩
    decide
  case bool =>
    rintro level b s ⟨⟩
    cases b <;> decide
  case int =>
    intro level n s h
    exact unbroken_writeInt h
  case float =>
    rintro level x s ⟨⟩
    exact unbroken_float x
  case str =>
    rintro level t s ⟨⟩
    exact unbroken_writeText t
  case list => exact fun level xs ih s h => hbracket (by decide) (by decide) ih h
  case tuple => exact fun level xs ih s h => hbracket (by decide) (by decide) ih h
  case dict => exact fun level es ih s h => hbracket (by decide) (by decide) ih h
  case member => exact fun level _ _ v ih s h => ih s h
  case other =>
    intros
    simp_all only [write, reduceCtorEq]
  case noItems =>
    rintro level ts ⟨⟩
    exact List.forall_mem_nil _
  case items =>
    intro level v vs ih ihs ts h
    obtain ⟨t, ht, h⟩ := bind_ok_iff.1 h
    obtain ⟨ts, hts, h⟩ := bind_ok_iff.1 h
    cases h
    exact List.forall_mem_cons.2 ⟨ih t ht, ihs ts hts⟩
  case noMembers =>
    rintro level ts ⟨⟩
    exact List.forall_mem_nil _
  case members =>
    intro level k v es ih ihs ts h
    obtain ⟨key, -, h⟩ := bind_ok_iff.1 h
    obtain ⟨t, ht, h⟩ := bind_ok_iff.1 h
    obtain ⟨ts, hts, h⟩ := bind_ok_iff.1 h
    cases h
    refine List.forall_mem_cons.2 ⟨?_, ihs ts hts⟩
    rw [String.toList_append, String.toList_append]
    exact ((unbroken_writeText key).append hcolon).append (ih t ht)

end EditorBridge.Json
