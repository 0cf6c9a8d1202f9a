/-
Where a refusal points.

An error about a wrong part carries a path.  The path leads through fields, entries and items to a
part that is refused by itself, with the empty path, and everything that is decoded before it is
read (`Leads`, `fromDict_wrong`).  A choice never points into itself: it swallows what its
alternatives say.

Two facts carry this.  The path that the decoder is given is only put in front of the paths of its
errors (`decode_shifted`), so that a part can be looked at by itself.  And an error with a path
that is not empty comes from the first part that is refused, the rest of the path from within that
part (`decode_wrong_cons`); the theorem follows by induction on the path.

What a message shows is the text of the path.  It is the keys with dots between them, except that
empty keys in front are dropped (`Path.text_eq`).
-/
import EditorBridge.Proofs.Schema.Refusals
import EditorBridge.Schema.Specimen
import Mathlib

namespace EditorBridge.Schema

variable {cat : Catalog} {rounds : Nat} {strict : Bool} {p : Path}

/-! ### The text of a path -/

/-- Keys behind a text that is not empty follow with dots between them. -/
theorem Path.foldl_text {p : Path} {s : String} (hs : s ≠ "") :
    p.foldl (fun s k => if s == "" then k.plain else s ++ "." ++ k.plain) s =
      String.intercalate "." (s :: p.map Value.plain) := by
  induction p generalizing s with
  | nil => rfl
  | cons k p ih =>
    have hne : s ++ "." ++ k.plain ≠ "" := by simp [hs]
    rw [List.foldl_cons, if_neg (by simpa using hs), ih hne]
    rfl

/-- **The text of a path has its keys with dots between them, without the empty keys in front.** -/
theorem Path.text_eq (p : Path) :
    p.text = String.intercalate "." ((p.map Value.plain).dropWhile (· == "")) := by
  unfold Path.text
  induction p with
  | nil => rfl
  | cons k p ih =>
    rw [List.foldl_cons, if_pos (beq_self_eq_true _), List.map_cons, List.dropWhile_cons]
    by_cases hk : k.plain = ""
    · rw [hk, ih]
      rfl
    · rw [foldl_text hk, if_neg (by simpa using hk)]

/-! ### The path in front -/

/-- An error about a part, as one about what holds the part at a path. -/
def Error.below (p : Path) : Error → Error
  | .wrong q problem => .wrong (p ++ q) problem
  | e => e

theorem Error.below_below (p q : Path) (e : Error) : (e.below q).below p = e.below (p ++ q) := by
  cases e <;> simp [below]

/-- The first result is the second with a path in front of its error. -/
def Shifted {α : Type} (p : Path) (x y : Except Error α) : Prop := x = y.mapError (Error.below p)

namespace Shifted

variable {α β : Type}

theorem ok (a : α) : Shifted p (.ok a) (.ok a) := rfl

theorem wrong (problem : Problem) :
    Shifted p (.error (.wrong p problem) : Except Error α) (.error (.wrong [] problem)) := by
  simp [Shifted, Except.mapError, Error.below]

theorem refuse (problem : Problem) :
    Shifted p (Schema.refuse p problem : Except Error α) (Schema.refuse [] problem) := by
  unfold Schema.refuse
  split
  · exact .wrong problem
  · rfl

theorem bind {x y : Except Error α} {f g : α → Except Error β} (hx : Shifted p x y)
    (hf : ∀ a, Shifted p (f a) (g a)) : Shifted p (x >>= f) (y >>= g) := by
  unfold Shifted at hx
  subst hx
  cases y with
  | error e => rfl
  | ok a => exact hf a

/-- What stands at a key is behind the key, wherever that is. -/
theorem at_key {t : Shape} {v : Value}
    (h : ∀ p, Shifted p (decode cat rounds strict p t v) (decode cat rounds strict [] t v))
    (k : Value) : Shifted p (decode cat rounds strict (p ++ [k]) t v)
      (decode cat rounds strict ([] ++ [k]) t v) := by
  have hwhole : decode cat rounds strict (p ++ [k]) t v = _ := h (p ++ [k])
  have hkey : decode cat rounds strict ([] ++ [k]) t v = _ := h ([] ++ [k])
  unfold Shifted
  rw [hwhole, hkey]
  cases decode cat rounds strict [] t v with
  | error e => simp [Except.mapError, Error.below_below]
  | ok x => rfl

end Shifted

/-- Whether the decoder only puts the path that it is given in front of the paths of its errors. -/
def Shifts (cat : Catalog) (rounds : Nat) (strict : Bool) (t : Shape) (v : Value) : Prop :=
  ∀ p, Shifted p (decode cat rounds strict p t v) (decode cat rounds strict [] t v)

theorem decodeItems_shifted {t : Shape} {vs : List Value} {i : Nat}
    (h : ∀ v ∈ vs, Shifts cat rounds strict t v) :
    Shifted p (decodeItems cat rounds strict p t i vs)
      (decodeItems cat rounds strict [] t i vs) := by
  induction vs generalizing i with
  | nil =>
    rw [decodeItems, decodeItems]
    exact .ok _
  | cons v vs ih =>
    obtain ⟨hv, hvs⟩ := List.forall_mem_cons.1 h
    rw [decodeItems, decodeItems]
    exact (Shifted.at_key hv _).bind fun _ => (ih hvs).bind fun _ => .ok _

theorem decodeEntries_shifted {t : Shape} {es : List (Value × Value)}
    (h : ∀ e ∈ es, Shifts cat rounds strict t e.2) :
    Shifted p (decodeEntries cat rounds strict p t es)
      (decodeEntries cat rounds strict [] t es) := by
  induction es with
  | nil =>
    rw [decodeEntries, decodeEntries]
    exact .ok _
  | cons e es ih =>
    obtain ⟨he, hes⟩ := List.forall_mem_cons.1 h
    rw [decodeEntries, decodeEntries]
    split
    · exact (Shifted.at_key he _).bind fun _ => (ih hes).bind fun _ => .ok _
    · rfl

theorem decodeEach_shifted {ts : List Shape} {vs : List Value} {i : Nat}
    (h : ∀ a ∈ ts.zip vs, Shifts cat rounds strict a.1 a.2) :
    Shifted p (decodeEach cat rounds strict p i ts vs)
      (decodeEach cat rounds strict [] i ts vs) := by
  induction ts generalizing i vs with
  | nil =>
    rw [decodeEach, decodeEach]
    · exact .ok _
    · simp
    · simp
  | cons t ts ih =>
    cases vs with
    | nil =>
      rw [decodeEach, decodeEach]
      · exact .ok _
      · simp
      · simp
    | cons v vs =>
      rw [List.zip_cons_cons] at h
      obtain ⟨hv, hvs⟩ := List.forall_mem_cons.1 h
      rw [decodeEach, decodeEach]
      exact (Shifted.at_key hv _).bind fun _ => (ih hvs).bind fun _ => .ok _

theorem decodeAllOf_shifted {ts : List Shape} {vs : List Value}
    (h : ∀ a ∈ ts.zip vs, Shifts cat rounds strict a.1 a.2) :
    Shifted p (decodeAllOf cat rounds strict p ts vs) (decodeAllOf cat rounds strict [] ts vs) := by
  rw [decodeAllOf, decodeAllOf]
  split
  · exact .ok _
  · split
    · exact .wrong _
    · exact (decodeEach_shifted h).bind fun _ => .ok _

theorem decodeFirst_shifted {ts : List Shape} {v : Value}
    (h : ∀ t ∈ ts, Shifts cat rounds strict t v) :
    Shifted p (decodeFirst cat rounds strict p ts v) (decodeFirst cat rounds strict [] ts v) := by
  induction ts with
  | nil =>
    rw [decodeFirst, decodeFirst]
    exact .ok _
  | cons t ts ih =>
    obtain ⟨ht, hts⟩ := List.forall_mem_cons.1 h
    have hp : decode cat rounds strict p t v = _ := ht p
    rw [decodeFirst, decodeFirst, hp]
    cases decode cat rounds strict [] t v with
    | ok x => exact .ok _
    | error e =>
      cases e with
      | wrong | unexpectedArgument | missingArguments => exact ih hts
      | tooLarge | unshown | invalid => rfl

theorem decodeFields_shifted {cls : RecordClass} {fs : List Field} {es : List (Value × Value)}
    (h : ∀ f ∈ fs, ∀ v, cls.told? es f = some v → Shifts cat rounds strict f.shape v) :
    Shifted p (decodeFields cat rounds strict p cls fs es)
      (decodeFields cat rounds strict [] cls fs es) := by
  induction fs with
  | nil =>
    rw [decodeFields, decodeFields]
    exact .ok _
  | cons f fs ih =>
    obtain ⟨hf, hfs⟩ := List.forall_mem_cons.1 h
    have htold := cls.told?_eq es f
    rw [decodeFields, decodeFields]
    split
    · rename_i v _ heq
      refine (Shifted.at_key (hf v ?_) _).bind fun _ => (ih hfs).bind fun _ => .ok _
      rw [htold, heq]
      rfl
    · split
      · exact (Shifted.ok _).bind fun _ => (ih hfs).bind fun _ => .ok _
      · exact (Shifted.wrong (α := Value) _).bind fun _ => (ih hfs).bind fun _ => .ok _

/-- The check of a new instance keeps what is wrong to itself. -/
theorem wrongFields_ne_wrong {cls : RecordClass} {fields : List (String × Value)} {q : Path}
    {problem : Problem} : wrongFields cat rounds cls fields ≠ .error (.wrong q problem) := by
  induction fields with
  | nil => simp [wrongFields]
  | cons e fields ih =>
    intro h
    rw [wrongFields] at h
    split at h
    · exact ih h
    · split at h
      · exact ih h
      · cases hrest : wrongFields cat rounds cls fields with
        | error e =>
          rw [hrest] at h
          cases h
          exact ih hrest
        | ok es =>
          rw [hrest] at h
          cases h
      · rename_i hwrong _
        cases h
        exact hwrong _ _ rfl

theorem wrongFields_shifted {cls : RecordClass} {fields : List (String × Value)} :
    Shifted p (wrongFields cat rounds cls fields) (wrongFields cat rounds cls fields) := by
  unfold Shifted
  cases h : wrongFields cat rounds cls fields with
  | ok es => rfl
  | error e =>
    cases e with
    | wrong q problem => exact absurd h wrongFields_ne_wrong
    | tooLarge | unshown | invalid | unexpectedArgument | missingArguments => rfl

theorem decode_shifted_step {t : Shape} {v : Value}
    (hparts : ∀ {t' v'}, Part cat t v t' v' → Shifts cat rounds strict t' v') :
    Shifts cat rounds strict t v := by
  intro p
  unfold decode
  split
  · -- a choice
    refine (decodeFirst_shifted fun t' ht => hparts (.alternative ht)).bind fun r => ?_
    split
    · exact .ok _
    · exact .wrong _
  · split
    · exact .ok _
    · exact .refuse _
  · -- a record
    split
    · exact .wrong _
    · rename_i hc
      dsimp only
      split
      · exact .refuse _
      · have hfields := decodeFields_shifted (p := p) fun f hf w hw => hparts (.field hc hf hw)
        refine hfields.bind fun fields => ?_
        split
        · exact .ok _
        · split
          · refine wrongFields_shifted.bind fun es => ?_
            split
            · exact .ok _
            · rfl
          · exact .ok _
  · exact .wrong _
  · exact (decodeEntries_shifted fun e he => hparts (.dictEntry he)).bind fun _ => .ok _
  · exact (decodeEntries_shifted fun e he => hparts (.mappingEntry he)).bind fun _ => .ok _
  · split
    · exact .ok _
    · rfl
  · exact (decodeItems_shifted fun w hw => hparts (.listItem rfl hw)).bind fun _ => .ok _
  · exact (decodeItems_shifted fun w hw => hparts (.listItem rfl hw)).bind fun _ => .ok _
  · exact (decodeItems_shifted fun w hw => hparts (.sequenceItem rfl hw)).bind fun _ => .ok _
  · exact (decodeItems_shifted fun w hw => hparts (.sequenceItem rfl hw)).bind fun _ => .ok _
  · exact (decodeItems_shifted fun w hw => hparts (.tupleOfItem rfl hw)).bind fun _ => .ok _
  · exact (decodeItems_shifted fun w hw => hparts (.tupleOfItem rfl hw)).bind fun _ => .ok _
  · exact .ok _
  · exact .ok _
  · exact .ok _
  · exact .ok _
  · exact decodeAllOf_shifted fun a ha => hparts (.tupleItem rfl ha)
  · exact decodeAllOf_shifted fun a ha => hparts (.tupleItem rfl ha)
  · -- scalars
    split
    · obtain ⟨x, rfl⟩ | ⟨-, n, rfl, -⟩ := scalar?_cases ‹_›
      · exact .ok _
      · unfold scalar?.asFloat
        split
        · exact .ok _
        · rfl
    · exact .wrong _

/-- **The path that the decoder is given is put in front of the paths of its errors**, and makes no
difference otherwise. -/
theorem decode_shifted {t : Shape} {v : Value} : Shifts cat rounds strict t v := by
  refine decode_shifted_step fun {t' v'} hpart => ?_
  have := hpart.sizeOf_lt
  exact decode_shifted
termination_by (sizeOf v, sizeOf t)
decreasing_by
  obtain hlt | ⟨rfl, hlt⟩ := this
  · exact .left _ _ hlt
  · exact .right _ hlt

/-! ### The first part that is refused -/

/-- The parts of a value that are decoded one after the other, each under its key. -/
def partsOf (cat : Catalog) : Shape → Value → List (Value × Shape × Value)
  | .list t, v | .sequence t, v | .tupleOf t, v =>
    ((items? v).getD []).zipIdx.map fun a => (.int a.2, t, a.1)
  | .tuple ts, v => (ts.zip ((items? v).getD [])).zipIdx.map fun a => (.int a.2, a.1)
  | .dict _ t, .dict es | .mapping _ t, .dict es => es.map fun e => (e.1, t, e.2)
  | .record c, .dict es => match cat.find? c with
    | none => []
    | some cls => cls.fields.filterMap fun f =>
      (cls.told? es f).map fun v => (.str (cls.keyOf f), f.shape, v)
  | _, _ => []

/-- Of some parts the one at a key is refused, and those before it are read. -/
def FailsAt (cat : Catalog) (rounds : Nat) (strict : Bool) (parts : List (Value × Shape × Value))
    (k : Value) (q : Path) (problem : Problem) : Prop :=
  ∃ before t w after, parts = before ++ (k, t, w) :: after ∧
    (∀ a ∈ before, ∃ x, decode cat rounds strict [] a.2.1 a.2.2 = .ok x) ∧
    decode cat rounds strict [] t w = .error (.wrong q problem)

namespace FailsAt

variable {parts : List (Value × Shape × Value)} {k l : Value} {q : Path} {problem : Problem}
  {t : Shape} {v : Value}

theorem cons (h : FailsAt cat rounds strict parts k q problem)
    (hread : ∃ x, decode cat rounds strict [] t v = .ok x) :
    FailsAt cat rounds strict ((l, t, v) :: parts) k q problem := by
  obtain ⟨before, t', w, after, rfl, hbefore, hw⟩ := h
  exact ⟨(l, t, v) :: before, t', w, after, rfl, List.forall_mem_cons.2 ⟨hread, hbefore⟩, hw⟩

/-- If one part is decoded before others, the first to be refused is this one or one of those. -/
theorem of_bind {α : Type} {f : Value → Except Error α}
    (h : (decode cat rounds strict ([] ++ [l]) t v >>= f) = .error (.wrong (k :: q) problem))
    (hf : ∀ x, f x = .error (.wrong (k :: q) problem) →
      FailsAt cat rounds strict parts k q problem) :
    FailsAt cat rounds strict ((l, t, v) :: parts) k q problem := by
  have hshift : decode cat rounds strict ([] ++ [l]) t v = _ := decode_shifted ([] ++ [l])
  cases hx : decode cat rounds strict [] t v with
  | ok x =>
    rw [hshift, hx] at h
    exact (hf x h).cons ⟨x, hx⟩
  | error e =>
    rw [hshift, hx] at h
    cases e with
    | wrong q' problem' =>
      cases h
      exact ⟨[], t, v, parts, rfl, List.forall_mem_nil _, hx⟩
    | tooLarge | unshown | invalid | unexpectedArgument | missingArguments => cases h

end FailsAt

theorem eq_error_of_bind {α β : Type} {x : Except Error α} {f : α → β} {e : Error}
    (h : (x >>= fun a => .ok (f a)) = .error e) : x = .error e := by
  cases x with
  | error e' =>
    cases h
    rfl
  | ok a => cases h

section Parts

variable {k : Value} {q : Path} {problem : Problem}

/-- What is refused at a place is not refused below it. -/
theorem refuse_ne_wrong {α : Type} {problem' : Problem} :
    (refuse [] problem' : Except Error α) ≠ .error (.wrong (k :: q) problem) := by
  unfold refuse
  split <;> exact nofun

theorem decodeItems_failsAt {t : Shape} {vs : List Value} {i : Nat}
    (h : decodeItems cat rounds strict [] t i vs = .error (.wrong (k :: q) problem)) :
    FailsAt cat rounds strict ((vs.zipIdx i).map fun a => (.int a.2, t, a.1)) k q problem := by
  induction vs generalizing i with
  | nil =>
    rw [decodeItems] at h
    cases h
  | cons v vs ih =>
    rw [decodeItems] at h
    exact .of_bind h fun x hx => ih (eq_error_of_bind hx)

theorem decodeEntries_failsAt {t : Shape} {es : List (Value × Value)}
    (h : decodeEntries cat rounds strict [] t es = .error (.wrong (k :: q) problem)) :
    FailsAt cat rounds strict (es.map fun e => (e.1, t, e.2)) k q problem := by
  induction es with
  | nil =>
    rw [decodeEntries] at h
    cases h
  | cons e es ih =>
    rw [decodeEntries] at h
    split at h
    · exact .of_bind h fun x hx => ih (eq_error_of_bind hx)
    · cases h

theorem decodeEach_failsAt {ts : List Shape} {vs : List Value} {i : Nat}
    (h : decodeEach cat rounds strict [] i ts vs = .error (.wrong (k :: q) problem)) :
    FailsAt cat rounds strict (((ts.zip vs).zipIdx i).map fun a => (.int a.2, a.1)) k q
      problem := by
  induction ts generalizing i vs with
  | nil =>
    rw [decodeEach] at h
    · cases h
    · simp
  | cons t ts ih =>
    cases vs with
    | nil =>
      rw [decodeEach] at h
      · cases h
      · simp
    | cons v vs =>
      rw [decodeEach] at h
      exact .of_bind h fun x hx => ih (eq_error_of_bind hx)

theorem decodeAllOf_failsAt {ts : List Shape} {vs : List Value}
    (h : decodeAllOf cat rounds strict [] ts vs = .error (.wrong (k :: q) problem)) :
    FailsAt cat rounds strict ((ts.zip vs).zipIdx.map fun a => (.int a.2, a.1)) k q problem := by
  rw [decodeAllOf] at h
  split at h
  · cases h
  · split at h
    · cases h
    · exact decodeEach_failsAt (eq_error_of_bind h)

/-- A choice does not say what its alternatives found wrong. -/
theorem decodeFirst_ne_wrong {ts : List Shape} {v : Value} :
    decodeFirst cat rounds strict p ts v ≠ .error (.wrong q problem) := by
  induction ts with
  | nil => simp [decodeFirst]
  | cons t ts ih =>
    intro h
    rw [decodeFirst] at h
    split at h
    · cases h
    · exact ih h
    · exact ih h
    · exact ih h
    · rename_i hwrong _ _ _
      cases h
      exact hwrong _ _ rfl

theorem decodeFields_failsAt {cls : RecordClass} {fs : List Field} {es : List (Value × Value)}
    (h : decodeFields cat rounds strict [] cls fs es = .error (.wrong (k :: q) problem)) :
    FailsAt cat rounds strict (fs.filterMap fun f =>
      (cls.told? es f).map fun v => (.str (cls.keyOf f), f.shape, v)) k q problem := by
  induction fs with
  | nil =>
    rw [decodeFields] at h
    cases h
  | cons f fs ih =>
    have htold := cls.told?_eq es f
    rw [decodeFields] at h
    rw [List.filterMap_cons, htold]
    split at h
    · rename_i heq
      rw [heq]
      exact .of_bind h fun x hx => ih (eq_error_of_bind hx)
    · rename_i heq
      rw [heq]
      split at h
      · exact ih (eq_error_of_bind h)
      · cases h

/-- **An error that points into a value comes from the first part that is refused.** -/
theorem decode_failsAt {t : Shape} {v : Value}
    (h : decode cat rounds strict [] t v = .error (.wrong (k :: q) problem)) :
    FailsAt cat rounds strict (partsOf cat t v) k q problem := by
  unfold decode at h
  split at h
  · -- a choice
    rename_i ts
    cases hr : decodeFirst cat rounds strict [] ts v with
    | error e =>
      rw [hr] at h
      cases h
      exact absurd hr decodeFirst_ne_wrong
    | ok r =>
      rw [hr] at h
      cases r <;> cases h
  · split at h
    · cases h
    · exact absurd h refuse_ne_wrong
  · -- a record
    split at h
    · cases h
    · rename_i c es _ cls hc
      dsimp only at h
      split at h
      · exact absurd h refuse_ne_wrong
      · rw [partsOf, hc]
        cases hfields : decodeFields cat rounds strict [] cls cls.fields es with
        | error e =>
          rw [hfields] at h
          cases h
          exact decodeFields_failsAt hfields
        | ok fields =>
          rw [hfields] at h
          split at h
          · cases h
          · split at h
            · rename_i n _
              cases hw : wrongFields cat n cls fields with
              | error e =>
                obtain rfl : e = .wrong (k :: q) problem := by simpa [hw, bind, Except.bind] using h
                exact absurd hw wrongFields_ne_wrong
              | ok es =>
                cases es <;> simp [hw, bind, Except.bind] at h
            · cases h
  · cases h
  · exact decodeEntries_failsAt (eq_error_of_bind h)
  · exact decodeEntries_failsAt (eq_error_of_bind h)
  · split at h <;> cases h
  · exact decodeItems_failsAt (eq_error_of_bind h)
  · exact decodeItems_failsAt (eq_error_of_bind h)
  · exact decodeItems_failsAt (eq_error_of_bind h)
  · exact decodeItems_failsAt (eq_error_of_bind h)
  · exact decodeItems_failsAt (eq_error_of_bind h)
  · exact decodeItems_failsAt (eq_error_of_bind h)
  · cases h
  · cases h
  · cases h
  · cases h
  · exact decodeAllOf_failsAt h
  · exact decodeAllOf_failsAt h
  · -- scalars
    split at h
    · obtain ⟨x, rfl⟩ | ⟨-, n, rfl, -⟩ := scalar?_cases ‹_›
      · cases h
      · unfold scalar?.asFloat at h
        split at h <;> cases h
    · cases h

end Parts

/-- A path leads from a value to a part of it that stands where a shape is asked for, and everything
that is decoded before that part is read. -/
inductive Leads (cat : Catalog) (strict : Bool) : Shape → Value → Path → Shape → Value → Prop
  | here (t : Shape) (v : Value) : Leads cat strict t v [] t v
  | inside {t t' u : Shape} {v v' w : Value} {k : Value} {q : Path}
    {before after : List (Value × Shape × Value)}
    (hparts : partsOf cat t v = before ++ (k, t', v') :: after)
    (hbefore : ∀ a ∈ before, ∃ x, fromDict cat a.2.1 strict a.2.2 = .ok x)
    (h : Leads cat strict t' v' q u w) : Leads cat strict t v (k :: q) u w

theorem exists_leads {t : Shape} {v : Value} {q : Path} {problem : Problem}
    (h : fromDict cat t strict v = .error (.wrong q problem)) :
    ∃ u w, Leads cat strict t v q u w ∧ fromDict cat u strict w = .error (.wrong [] problem) := by
  induction q generalizing t v with
  | nil => exact ⟨t, v, .here t v, h⟩
  | cons k q ih =>
    obtain ⟨before, t', v', after, hparts, hbefore, hv'⟩ := decode_failsAt h
    obtain ⟨u, w, hleads, hw⟩ := ih hv'
    exact ⟨u, w, .inside hparts hbefore hleads, hw⟩

/-- An error that the decoder can give. -/
inductive Error.Decoded : Error → Prop
  | wrong (q : Path) (problem : Problem) : Decoded (.wrong q problem)
  | tooLarge : Decoded .tooLarge
  | unshown : Decoded .unshown
  | invalid (c : String) (fields : List (String × String)) : Decoded (.invalid c fields)

theorem decode_decoded {t : Shape} {v : Value} :
    Only Error.Decoded (decode cat rounds strict p t v) := by
  induction rounds using Nat.strongRecOn generalizing strict p t v with
  | ind rounds ih =>
    refine decode_only (fun _ _ => True) Error.Decoded.wrong (fun _ _ => .unshown)
      (fun _ _ => trivial) ?_ ?_ trivial
    · intro t v r _ hr
      obtain ⟨x, rfl⟩ | ⟨-, n, rfl, -⟩ := scalar?_cases hr
      · exact .ok x
      · unfold scalar?.asFloat
        split
        · exact .ok _
        · exact .error .tooLarge
    · rintro n c cls es fields - rfl - - -
      exact ⟨wrongFields_only fun _ _ _ _ => ih n (Nat.lt_succ_self n),
        fun ps _ _ => .invalid c ps⟩

/-- **Only a wrong part is refused under a path, and the path leads to the first one**: to a part
that is refused by itself, behind nothing but what is read.  In the message stand the keys on the
path with dots between them, but none that is empty and has only empty ones before it.  All other
failures come without a path: from an integer that is too large, from one that has too many digits
to be shown, or from a new instance. -/
theorem fromDict_wrong {t : Shape} {v : Value} {e : Error}
    (h : fromDict cat t strict v = .error e) :
    (∃ q problem, e = .wrong q problem ∧
      (∃ u w, Leads cat strict t v q u w ∧ fromDict cat u strict w = .error (.wrong [] problem)) ∧
      q.text = String.intercalate "." ((q.map Value.plain).dropWhile (· == ""))) ∨
    e = .tooLarge ∨ (e = .unshown ∧ (cat.Shows → Veiled t v)) ∨
    ∃ c fields, e = .invalid c fields := by
  cases decode_decoded e h with
  | wrong q problem => exact .inl ⟨q, problem, rfl, exists_leads h, q.text_eq⟩
  | tooLarge => exact .inr (.inl rfl)
  | unshown => exact .inr (.inr (.inl ⟨rfl, fun hcat => decode_unshown hcat h⟩))
  | invalid c fields => exact .inr (.inr (.inr ⟨c, fields, rfl⟩))

/-- A step with a number among the names in its options. -/
def numberedStep : Value := Value.table [("action", .str "open"),
  ("options", Value.table [("tab-size", .int 2), ("names", .list [.str "a", .int 1])])]

theorem fromDict_wrong_numberedStep :
    fromDict .full (.record "Step") false numberedStep =
        .error (.wrong [.str "options", .str "names", .int 1] (.expected "str" "int")) ∧
      ∃ u w, Leads .full false (.record "Step") numberedStep
          [.str "options", .str "names", .int 1] u w ∧
        fromDict .full u false w = .error (.wrong [] (.expected "str" "int")) := by
  have h : fromDict .full (.record "Step") false numberedStep =
      .error (.wrong [.str "options", .str "names", .int 1] (.expected "str" "int")) := by cbv
  refine ⟨h, ?_⟩
  obtain ⟨q, problem, heq, hleads, -⟩ | heq | ⟨heq, -⟩ | ⟨c, fields, heq⟩ := fromDict_wrong h
  · cases heq
    exact hleads
  · cases heq
  · cases heq
  · cases heq

/-- A table with a wrong number under an empty key. -/
def unnamed : Value := Value.table [("", Value.table [("a", .str "x")])]

/-- The shape that `unnamed` does not fit. -/
def tables : Shape := .dict .str (.dict .str .int)

/-- **An empty key in front is dropped from the path**, and then what is left leads nowhere. -/
theorem not_leads_unnamed :
    fromDict .full tables false unnamed =
        .error (.wrong [.str "", .str "a"] (.expected "int" "str")) ∧
      (Error.wrong [.str "", .str "a"] (.expected "int" "str")).message =
        "Invalid value for \"a\": expected \x60int\x60 but got \x60str\x60" ∧
      ∀ q u w, Leads .full false tables unnamed q u w →
        String.intercalate "." (q.map Value.plain) ≠ "a" := by
  refine ⟨by cbv, by decide, fun q u w h => ?_⟩
  cases h with
  | here => decide
  | @inside _ t' _ _ v' _ k q before after hparts _ h =>
    -- the empty key is the only one there is
    have hk : k = .str "" := by
      have hmem : (k, t', v') ∈ partsOf .full tables unnamed := by simp [hparts]
      have hall : ∀ a ∈ partsOf .full tables unnamed, a.1 = .str "" := by
        simp [partsOf, tables, unnamed, Value.table]
      exact hall _ hmem
    subst hk
    cases q with
    | nil => decide
    | cons l q =>
      intro heq
      have hdot := congrArg String.toList heq
      simp [String.toList_intercalate, List.intercalate, Value.plain] at hdot

end EditorBridge.Schema
