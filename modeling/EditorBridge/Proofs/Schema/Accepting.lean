/-
Which data a shape accepts.

`Accepts` says it without the decoder: a list item by item, a table entry by entry, a record field
by field, with every required field told and, if that is asked for, no other keys.  The decoder
decides this relation (`decode_decides`), in both directions: data that are accepted are read, and
data that are not are refused as a wrong part, unless an integer is too large for a floating point
number or has too many digits to be shown, which settles nothing.

This is about decoding where no new instance is looked at again.  The rule for a bind carries it
from the parts of a value to the value; the recursion is on the parts (`Part`).
-/
import EditorBridge.Proofs.Schema.Refusals

namespace EditorBridge.Schema

variable {cat : Catalog} {rounds : Nat} {strict : Bool} {p : Path}

/-- Whether a class has a field that can be given under a key. -/
def RecordClass.Knows (cls : RecordClass) (k : Value) : Prop :=
  ∃ f ∈ cls.fields, f.given = true ∧ (Value.str (cls.keyOf f)).same k = true

/-- Data that a shape accepts.  When `strict`, keys that a class does not know are not accepted. -/
inductive Accepts (cat : Catalog) (strict : Bool) : Shape → Value → Prop
  | scalar {t : Shape} {v x : Value} (h : scalar? t v = some (.ok x)) : Accepts cat strict t v
  | union {ts : List Shape} {t : Shape} {v : Value} (ht : t ∈ ts) (h : Accepts cat strict t v) :
    Accepts cat strict (.union ts) v
  | literal {options : List Value} {o v : Value} (ho : o ∈ options) (h : v.same o = true) :
    Accepts cat strict (.literal options) v
  | list {t : Shape} {v : Value} {vs : List Value} (hv : items? v = some vs)
    (h : ∀ w ∈ vs, Accepts cat strict t w) : Accepts cat strict (.list t) v
  | sequence {t : Shape} {v : Value} {vs : List Value} (hv : items? v = some vs)
    (h : ∀ w ∈ vs, Accepts cat strict t w) : Accepts cat strict (.sequence t) v
  | tupleOf {t : Shape} {v : Value} {vs : List Value} (hv : items? v = some vs)
    (h : ∀ w ∈ vs, Accepts cat strict t w) : Accepts cat strict (.tupleOf t) v
  | tuple {ts : List Shape} {v : Value} {vs : List Value} (hv : items? v = some vs)
    (hl : ts.length = vs.length) (h : ∀ {t w}, (t, w) ∈ ts.zip vs → Accepts cat strict t w) :
    Accepts cat strict (.tuple ts) v
  | anyTuple {v : Value} {vs : List Value} (hv : items? v = some vs) :
    Accepts cat strict (.tuple []) v
  | bareList {v : Value} {vs : List Value} (hv : items? v = some vs) :
    Accepts cat strict .bareList v
  | bareTuple {v : Value} {vs : List Value} (hv : items? v = some vs) :
    Accepts cat strict .bareTuple v
  | bareDict (es : List (Value × Value)) : Accepts cat strict .bareDict (.dict es)
  | dict {k t : Shape} {es : List (Value × Value)} (h : ∀ e ∈ es, Accepts cat strict t e.2) :
    Accepts cat strict (.dict k t) (.dict es)
  | mapping {k t : Shape} {es : List (Value × Value)} (h : ∀ e ∈ es, Accepts cat strict t e.2) :
    Accepts cat strict (.mapping k t) (.dict es)
  /-- Every field is told as its shape accepts it, or has a default. -/
  | record {c : String} {cls : RecordClass} {es : List (Value × Value)}
    (hc : cat.find? c = some cls) (hknown : strict = true → ∀ e ∈ es, cls.Knows e.1)
    (h : ∀ f ∈ cls.fields, ∀ v, cls.told? es f = some v → Accepts cat strict f.shape v)
    (hd : ∀ f ∈ cls.fields, cls.told? es f = none → f.default ≠ none) :
    Accepts cat strict (.record c) (.dict es)

/-! ### What the forms of a shape accept -/

theorem eq_list_or_tuple {v : Value} {vs : List Value} (hv : items? v = some vs) :
    v = .list vs ∨ v = .tuple vs := by
  unfold items? at hv
  split at hv <;> cases hv
  · exact .inl rfl
  · exact .inr rfl

namespace Accepts

variable {t k : Shape} {ts : List Shape} {v : Value} {vs options : List Value}
  {es : List (Value × Value)} {c : String} {cls : RecordClass}

theorem union_iff : Accepts cat strict (.union ts) v ↔ ∃ t ∈ ts, Accepts cat strict t v := by
  constructor
  · intro h
    cases h with
    | scalar h => simp [scalar?] at h
    | union ht h => exact ⟨_, ht, h⟩
  · rintro ⟨t, ht, h⟩
    exact .union ht h

theorem literal_iff :
    Accepts cat strict (.literal options) v ↔ (options.any fun o => v.same o) = true := by
  rw [List.any_eq_true]
  constructor
  · intro h
    cases h with
    | scalar h => simp [scalar?] at h
    | literal ho h => exact ⟨_, ho, h⟩
  · rintro ⟨o, ho, h⟩
    exact .literal ho h

theorem list_iff (hv : items? v = some vs) :
    Accepts cat strict (.list t) v ↔ ∀ w ∈ vs, Accepts cat strict t w := by
  refine ⟨fun h => ?_, .list hv⟩
  cases h with
  | scalar h => simp [scalar?] at h
  | list hv' h =>
    cases hv.symm.trans hv'
    exact h

theorem sequence_iff (hv : items? v = some vs) :
    Accepts cat strict (.sequence t) v ↔ ∀ w ∈ vs, Accepts cat strict t w := by
  refine ⟨fun h => ?_, .sequence hv⟩
  cases h with
  | scalar h => simp [scalar?] at h
  | sequence hv' h =>
    cases hv.symm.trans hv'
    exact h

theorem tupleOf_iff (hv : items? v = some vs) :
    Accepts cat strict (.tupleOf t) v ↔ ∀ w ∈ vs, Accepts cat strict t w := by
  refine ⟨fun h => ?_, .tupleOf hv⟩
  cases h with
  | scalar h => simp [scalar?] at h
  | tupleOf hv' h =>
    cases hv.symm.trans hv'
    exact h

/-- A tuple without shapes for its items takes anything. -/
theorem tuple_iff (hv : items? v = some vs) : Accepts cat strict (.tuple ts) v ↔
    ts = [] ∨ ts.length = vs.length ∧ ∀ a ∈ ts.zip vs, Accepts cat strict a.1 a.2 := by
  constructor
  · intro h
    cases h with
    | scalar h => simp [scalar?] at h
    | tuple hv' hl h =>
      cases hv.symm.trans hv'
      exact .inr ⟨hl, fun a ha => h ha⟩
    | anyTuple => exact .inl rfl
  · rintro (rfl | ⟨hl, h⟩)
    · exact .anyTuple hv
    · exact .tuple hv hl fun ha => h _ ha

theorem dict_iff :
    Accepts cat strict (.dict k t) (.dict es) ↔ ∀ e ∈ es, Accepts cat strict t e.2 := by
  refine ⟨fun h => ?_, .dict⟩
  cases h with
  | scalar h => simp [scalar?] at h
  | dict h => exact h

theorem mapping_iff :
    Accepts cat strict (.mapping k t) (.dict es) ↔ ∀ e ∈ es, Accepts cat strict t e.2 := by
  refine ⟨fun h => ?_, .mapping⟩
  cases h with
  | scalar h => simp [scalar?] at h
  | mapping h => exact h

/-- A record takes tables only. -/
theorem exists_of_record (h : Accepts cat strict (.record c) v) : ∃ es, v = .dict es := by
  cases h with
  | scalar h => simp [scalar?] at h
  | record => exact ⟨_, rfl⟩

/-- What is told about a field of a record, or its default, is accepted. -/
def Field (cat : Catalog) (strict : Bool) (cls : RecordClass) (es : List (Value × Value))
    (f : Schema.Field) : Prop :=
  match cls.told? es f with
  | some v => Accepts cat strict f.shape v
  | none => f.default ≠ none

theorem Field.told_iff {f : Schema.Field} (h : cls.told? es f = some v) :
    Field cat strict cls es f ↔ Accepts cat strict f.shape v := by
  unfold Field
  rw [h]

theorem Field.untold_iff {f : Schema.Field} (h : cls.told? es f = none) :
    Field cat strict cls es f ↔ f.default ≠ none := by
  unfold Field
  rw [h]

theorem record_iff (hc : cat.find? c = some cls) : Accepts cat strict (.record c) (.dict es) ↔
    (strict = true → ∀ e ∈ es, cls.Knows e.1) ∧ ∀ f ∈ cls.fields, Field cat strict cls es f := by
  constructor
  · intro h
    cases h with
    | scalar h => simp [scalar?] at h
    | record hc' hknown h hd =>
      cases hc.symm.trans hc'
      refine ⟨hknown, fun f hf => ?_⟩
      cases htold : cls.told? es f with
      | some v => exact (Field.told_iff htold).2 (h f hf v htold)
      | none => exact (Field.untold_iff htold).2 (hd f hf htold)
  · rintro ⟨hknown, h⟩
    exact .record hc hknown (fun f hf v htold => (Field.told_iff htold).1 (h f hf))
      fun f hf htold => (Field.untold_iff htold).1 (h f hf)

end Accepts

/-! ### Deciding -/

/-- A result settles whether something holds: it holds if a value comes out, and it does not if a
part is wrong.  An integer that is too large or cannot be shown settles nothing, and nothing else
comes out. -/
def Decides {α : Type} (A : Prop) : Except Error α → Prop
  | .ok _ => A
  | .error (.wrong ..) => ¬A
  | .error .tooLarge | .error .unshown => True
  | .error _ => False

namespace Decides

variable {α β : Type} {A B : Prop}

theorem refuse {problem : Problem} (h : ¬A) :
    Decides A (Schema.refuse p problem : Except Error α) := by
  unfold Schema.refuse
  split
  · exact h
  · exact trivial

theorem congr {x : Except Error α} (h : Decides A x) (hAB : A ↔ B) : Decides B x := by
  rwa [propext hAB] at h

/-- Of two results one after the other, the first tells one half and the second the other. -/
theorem bind {x : Except Error α} {f : α → Except Error β} (hx : Decides A x)
    (hf : ∀ a, x = .ok a → Decides B (f a)) : Decides (A ∧ B) (x >>= f) := by
  cases x with
  | error e =>
    cases e with
    | wrong => exact fun h => hx h.1
    | tooLarge | unshown => exact trivial
    | invalid | unexpectedArgument | missingArguments => exact hx.elim
  | ok a => exact (hf a rfl).congr ⟨fun h => ⟨hx, h⟩, And.right⟩

/-- What is made of a value in the end does not matter. -/
theorem map {x : Except Error α} {f : α → β} (hx : Decides A x) :
    Decides A (x >>= fun a => .ok (f a)) :=
  (hx.bind (B := True) fun a _ => show Decides True (.ok (f a)) from trivial).congr
    (and_iff_left trivial)

end Decides

/-! ### The helpers of the decoder -/

theorem decodeItems_decides {A : Value → Prop} {t : Shape} {vs : List Value} {i : Nat}
    (h : ∀ v ∈ vs, ∀ p, Decides (A v) (decode cat rounds strict p t v)) :
    Decides (∀ v ∈ vs, A v) (decodeItems cat rounds strict p t i vs) := by
  induction vs generalizing i with
  | nil =>
    rw [decodeItems]
    exact List.forall_mem_nil _
  | cons v vs ih =>
    obtain ⟨hv, hvs⟩ := List.forall_mem_cons.1 h
    rw [decodeItems]
    exact ((hv _).bind fun _ _ => (ih hvs).map).congr List.forall_mem_cons.symm

theorem decodeEntries_decides {A : Value → Prop} {t : Shape} {es : List (Value × Value)}
    (h : ∀ e ∈ es, ∀ p, Decides (A e.2) (decode cat rounds strict p t e.2)) :
    Decides (∀ e ∈ es, A e.2) (decodeEntries cat rounds strict p t es) := by
  induction es with
  | nil =>
    rw [decodeEntries]
    exact List.forall_mem_nil _
  | cons e es ih =>
    obtain ⟨he, hes⟩ := List.forall_mem_cons.1 h
    rw [decodeEntries]
    split
    · exact ((he _).bind fun _ _ => (ih hes).map).congr
        (List.forall_mem_cons (p := fun e : Value × Value => A e.2)).symm
    · exact trivial

theorem decodeEach_decides {A : Shape → Value → Prop} {ts : List Shape} {vs : List Value} {i : Nat}
    (h : ∀ a ∈ ts.zip vs, ∀ p, Decides (A a.1 a.2) (decode cat rounds strict p a.1 a.2)) :
    Decides (∀ a ∈ ts.zip vs, A a.1 a.2) (decodeEach cat rounds strict p i ts vs) := by
  induction ts generalizing i vs with
  | nil =>
    rw [decodeEach]
    · exact List.forall_mem_nil _
    · simp
  | cons t ts ih =>
    cases vs with
    | nil =>
      rw [decodeEach]
      · exact List.forall_mem_nil _
      · simp
    | cons v vs =>
      rw [List.zip_cons_cons] at h ⊢
      obtain ⟨hv, hvs⟩ := List.forall_mem_cons.1 h
      rw [decodeEach]
      exact ((hv _).bind fun _ _ => (ih hvs).map).congr
        (List.forall_mem_cons (p := fun a : Shape × Value => A a.1 a.2)).symm

theorem decodeAllOf_decides {A : Shape → Value → Prop} {ts : List Shape} {vs : List Value}
    (h : ∀ a ∈ ts.zip vs, ∀ p, Decides (A a.1 a.2) (decode cat rounds strict p a.1 a.2)) :
    Decides (ts = [] ∨ ts.length = vs.length ∧ ∀ a ∈ ts.zip vs, A a.1 a.2)
      (decodeAllOf cat rounds strict p ts vs) := by
  rw [decodeAllOf]
  split
  · exact .inl (List.isEmpty_iff.1 ‹_›)
  · have hne : ts ≠ [] := fun h => ‹¬ts.isEmpty = true› (List.isEmpty_iff.2 h)
    split
    · rintro (hnil | ⟨hl, -⟩)
      · exact hne hnil
      · exact ‹ts.length ≠ vs.length› hl
    · have hl : ts.length = vs.length := Decidable.not_not.1 ‹_›
      exact (decodeEach_decides h).map.congr (by simp [hne, hl])

/-- A choice settles which alternatives accept a value, up to the first one that does. -/
theorem decodeFirst_decides {A : Shape → Prop} {ts : List Shape} {v : Value}
    (h : ∀ t ∈ ts, Decides (A t) (decode cat rounds strict p t v)) :
    match decodeFirst cat rounds strict p ts v with
    | .ok (some _) => ∃ t ∈ ts, A t
    | .ok none => ¬∃ t ∈ ts, A t
    | .error e => e = .tooLarge ∨ e = .unshown := by
  induction ts with
  | nil => simp [decodeFirst]
  | cons t ts ih =>
    obtain ⟨ht, hts⟩ := List.forall_mem_cons.1 h
    rw [decodeFirst]
    cases hx : decode cat rounds strict p t v with
    | ok x =>
      rw [hx] at ht
      exact ⟨t, List.mem_cons_self, ht⟩
    | error e =>
      rw [hx] at ht
      cases e with
      | wrong q problem =>
        have hrest : (∃ t' ∈ t :: ts, A t') ↔ ∃ t' ∈ ts, A t' := by
          rw [List.exists_mem_cons_iff]
          exact or_iff_right ht
        rw [hrest]
        exact ih hts
      | tooLarge => exact .inl rfl
      | unshown => exact .inr rfl
      | invalid | unexpectedArgument | missingArguments => exact ht.elim

theorem decodeFields_decides {cls : RecordClass} {fs : List Field} {es : List (Value × Value)}
    (h : ∀ f ∈ fs, ∀ v, cls.told? es f = some v →
      ∀ p, Decides (Accepts cat strict f.shape v) (decode cat rounds strict p f.shape v)) :
    Decides (∀ f ∈ fs, Accepts.Field cat strict cls es f)
      (decodeFields cat rounds strict p cls fs es) := by
  induction fs with
  | nil =>
    rw [decodeFields]
    exact List.forall_mem_nil _
  | cons f fs ih =>
    obtain ⟨hf, hfs⟩ := List.forall_mem_cons.1 h
    have htold := cls.told?_eq es f
    rw [decodeFields]
    refine Decides.congr ?_ List.forall_mem_cons.symm
    split
    · rename_i v _ heq
      rw [heq] at htold
      exact ((hf v htold _).congr (Accepts.Field.told_iff htold).symm).bind fun _ _ => (ih hfs).map
    · rename_i heq
      rw [heq] at htold
      split
      · rename_i d hd
        have hfield : Accepts.Field cat strict cls es f := by
          rw [Accepts.Field.untold_iff htold, hd]
          exact Option.some_ne_none d
        exact Decides.bind (x := .ok d) hfield fun _ _ => (ih hfs).map
      · rename_i hd
        exact fun hnot => (Accepts.Field.untold_iff htold).1 hnot.1 hd

/-! ### The decoder -/

/-- No new instance is looked at again. -/
def NoChecks (cat : Catalog) (rounds : Nat) : Prop :=
  rounds = 0 ∨ ∀ cls ∈ cat.classes, cls.checked = false

/-- The decoder settles whether a choice accepts a value, if it settles that for the
alternatives. -/
theorem decode_union_decides {ts : List Shape} {v : Value}
    (h : ∀ t ∈ ts, Decides (Accepts cat strict t v) (decode cat rounds strict p t v)) :
    Decides (Accepts cat strict (.union ts) v) (decode cat rounds strict p (.union ts) v) := by
  have hfirst := decodeFirst_decides h
  rw [← Accepts.union_iff] at hfirst
  rw [decode]
  cases hx : decodeFirst cat rounds strict p ts v with
  | error e =>
    rw [hx] at hfirst
    obtain rfl | rfl := hfirst <;> exact trivial
  | ok r =>
    rw [hx] at hfirst
    cases r with
    | some x => exact hfirst
    | none => exact hfirst

/-- The decoder settles whether a record accepts a table, if it settles that for the fields. -/
theorem decode_record_decides {c : String} {es : List (Value × Value)}
    (hchecks : NoChecks cat rounds)
    (hparts : ∀ {t' v'}, Part cat (.record c) (.dict es) t' v' →
      ∀ p, Decides (Accepts cat strict t' v') (decode cat rounds strict p t' v')) :
    Decides (Accepts cat strict (.record c) (.dict es))
      (decode cat rounds strict p (.record c) (.dict es)) := by
  rw [decode]
  split
  · rename_i hnone
    intro h
    cases h with
    | scalar h => simp [scalar?] at h
    | record hc =>
      rw [hnone] at hc
      cases hc
  · rename_i cls hc
    have hknows (k : Value) : (((cls.fields.filter (·.given)).map cls.keyOf).any fun key =>
        (Value.str key).same k) = true ↔ cls.Knows k := by
      simp [List.any_map, List.any_filter, RecordClass.Knows]
    have hunknown : ((es.map (·.1)).filter fun k =>
        !((cls.fields.filter (·.given)).map cls.keyOf).any fun key => (Value.str key).same k) = [] ↔
          ∀ e ∈ es, cls.Knows e.1 := by
      simp only [List.filter_eq_nil_iff, List.forall_mem_map, Bool.not_eq_true', Bool.not_eq_false,
        hknows]
    dsimp only
    refine Decides.congr ?_ (Accepts.record_iff hc).symm
    split
    · rename_i hstrict
      rw [Bool.and_eq_true, Bool.not_eq_true'] at hstrict
      refine .refuse fun h => ?_
      rw [hunknown.2 (h.1 hstrict.1)] at hstrict
      cases hstrict.2
    · rename_i hstrict
      have hknown : strict = true → ∀ e ∈ es, cls.Knows e.1 := by
        intro h
        rw [h, Bool.true_and, Bool.not_eq_true, Bool.not_eq_false', List.isEmpty_iff] at hstrict
        exact hunknown.1 hstrict
      refine Decides.congr ?_ (and_iff_right hknown).symm
      have hfields : Decides (∀ f ∈ cls.fields, Accepts.Field cat strict cls es f)
          (decodeFields cat rounds strict p cls cls.fields es) :=
        decodeFields_decides fun f hf v hv => hparts (.field hc hf hv)
      refine (hfields.bind (B := True) fun fields _ => ?_).congr (and_iff_left trivial)
      split
      · exact trivial
      · obtain hzero | hnone := hchecks
        · cases hzero
        · rw [if_neg (by simp [hnone cls (List.mem_of_find?_eq_some hc)])]
          exact trivial

/-- The decoder settles whether a shape accepts a value, if it settles that for the parts. -/
theorem decode_decides_step {t : Shape} {v : Value} (hchecks : NoChecks cat rounds)
    (hparts : ∀ {t' v'}, Part cat t v t' v' →
      ∀ p, Decides (Accepts cat strict t' v') (decode cat rounds strict p t' v')) :
    Decides (Accepts cat strict t v) (decode cat rounds strict p t v) := by
  unfold decode
  split
  · -- a choice
    have hunion := decode_union_decides fun t' ht => hparts (.alternative ht) p
    rwa [decode] at hunion
  · refine Decides.congr ?_ Accepts.literal_iff.symm
    split
    · assumption
    · exact .refuse ‹_›
  · -- a record
    have hrecord := decode_record_decides (p := p) hchecks hparts
    rwa [decode] at hrecord
  · rename_i c v hnot
    intro h
    obtain ⟨es, rfl⟩ := h.exists_of_record
    exact hnot es rfl
  · exact (decodeEntries_decides fun e he => hparts (.dictEntry he)).map.congr Accepts.dict_iff.symm
  · exact (decodeEntries_decides fun e he => hparts (.mappingEntry he)).map.congr
      Accepts.mapping_iff.symm
  · split
    · exact .bareDict _
    · exact trivial
  · exact (decodeItems_decides fun w hw => hparts (.listItem rfl hw)).map.congr
      (Accepts.list_iff rfl).symm
  · exact (decodeItems_decides fun w hw => hparts (.listItem rfl hw)).map.congr
      (Accepts.list_iff rfl).symm
  · exact (decodeItems_decides fun w hw => hparts (.sequenceItem rfl hw)).map.congr
      (Accepts.sequence_iff rfl).symm
  · exact (decodeItems_decides fun w hw => hparts (.sequenceItem rfl hw)).map.congr
      (Accepts.sequence_iff rfl).symm
  · exact (decodeItems_decides fun w hw => hparts (.tupleOfItem rfl hw)).map.congr
      (Accepts.tupleOf_iff rfl).symm
  · exact (decodeItems_decides fun w hw => hparts (.tupleOfItem rfl hw)).map.congr
      (Accepts.tupleOf_iff rfl).symm
  · exact .bareList rfl
  · exact .bareList rfl
  · exact .bareTuple rfl
  · exact .bareTuple rfl
  · exact (decodeAllOf_decides fun a ha => hparts (.tupleItem rfl ha)).congr
      (Accepts.tuple_iff rfl).symm
  · exact (decodeAllOf_decides fun a ha => hparts (.tupleItem rfl ha)).congr
      (Accepts.tuple_iff rfl).symm
  · -- scalars
    split
    · obtain ⟨x, rfl⟩ | ⟨-, n, rfl, -⟩ := scalar?_cases ‹_›
      · exact .scalar ‹_›
      · unfold scalar?.asFloat at *
        split at *
        · exact .scalar ‹_›
        · exact trivial
    · intro h
      cases h with
      | scalar h => simp_all
      | union | literal | bareDict | dict | mapping | record => simp_all
      | list hv | sequence hv | tupleOf hv | tuple hv | anyTuple hv | bareList hv | bareTuple hv =>
        obtain rfl | rfl := eq_list_or_tuple hv <;> simp_all

/-- **The decoder settles whether a shape accepts a value.** -/
theorem decode_decides (hchecks : NoChecks cat rounds) {p : Path} {t : Shape} {v : Value} :
    Decides (Accepts cat strict t v) (decode cat rounds strict p t v) := by
  refine decode_decides_step hchecks fun {t' v'} hpart p' => ?_
  have := hpart.sizeOf_lt
  exact decode_decides hchecks
termination_by (sizeOf v, sizeOf t)
decreasing_by
  obtain hlt | ⟨rfl, hlt⟩ := this
  · exact .left _ _ hlt
  · exact .right _ hlt

/-! ### Integers that are too large -/

/-- An integer that a value is or has among its elements, as a number or as the number of a
member. -/
inductive Counts : Value → Int → Prop
  | int (n : Int) : Counts (.int n) n
  | member (e m : String) (n : Int) : Counts (.member e m true (.int n)) n
  | item {v w : Value} {vs : List Value} {n : Int} (hv : items? v = some vs) (hw : w ∈ vs)
    (h : Counts w n) : Counts v n
  | entry {es : List (Value × Value)} {e : Value × Value} {n : Int} (he : e ∈ es)
    (h : Counts e.2 n) : Counts (.dict es) n

/-- An integer in a value is too large for a floating point number. -/
def Exceeds (v : Value) : Prop := ∃ n, Counts v n ∧ Binary64.ofInt? n = none

/-- What is too large in a part is too large in the whole. -/
theorem Part.exceeds {t t' : Shape} {v v' : Value} (h : Part cat t v t' v') (hv : Exceeds v') :
    Exceeds v := by
  obtain ⟨n, hn, hlarge⟩ := hv
  refine ⟨n, ?_, hlarge⟩
  cases h with
  | alternative => exact hn
  | listItem hvs hw | sequenceItem hvs hw | tupleOfItem hvs hw => exact .item hvs hw hn
  | tupleItem hvs hmem => exact .item hvs (List.of_mem_zip hmem).2 hn
  | dictEntry he | mappingEntry he => exact .entry he hn
  | field _ _ hv =>
    obtain ⟨k, hk⟩ := RecordClass.exists_mem_of_told hv
    exact .entry hk hn

/-- **Only an integer in the data is too large.** -/
theorem decode_tooLarge (hchecks : NoChecks cat rounds) {t : Shape} {v : Value}
    (h : decode cat rounds strict p t v = .error .tooLarge) : Exceeds v := by
  have honly : Only (fun e => e = .tooLarge → Exceeds v) (decode cat rounds strict p t v) := by
    refine decode_only (fun _ w => Exceeds w → Exceeds v) (fun _ _ h => by cases h)
      (fun _ _ h => by cases h) (fun hpart hgood hw => hgood (hpart.exceeds hw)) ?_ ?_ id
    · intro t w r hgood hr
      obtain ⟨x, rfl⟩ | ⟨-, n, rfl, hw⟩ := scalar?_cases hr
      · exact .ok x
      · unfold scalar?.asFloat
        split
        · exact .ok _
        · refine .error fun _ => hgood ⟨n, ?_, ‹_›⟩
          obtain rfl | ⟨e, m, rfl⟩ := hw
          · exact .int n
          · exact .member e m n
    · rintro n c cls es fields - rfl hc hchecked -
      obtain hzero | hnone := hchecks
      · cases hzero
      · rw [hnone cls (List.mem_of_find?_eq_some hc)] at hchecked
        cases hchecked
  exact honly _ h rfl

/-! ### Integers with too many digits -/

mutual

/-- Whether a shape takes nothing as it is: all that it takes are scalars, lists and, if those are
allowed, records.  Records are no alternatives of a choice. -/
def Shape.regular (records : Bool) : Shape → Bool
  | .null | .bool | .int | .float | .str => true
  | .list t | .sequence t | .tupleOf t => t.regular records
  | .union ts => Shape.allRegular false ts
  | .record _ => records
  | _ => false

def Shape.allRegular (records : Bool) : List Shape → Bool
  | [] => true
  | t :: ts => t.regular records && Shape.allRegular records ts

end

theorem Shape.allRegular_iff {records : Bool} {ts : List Shape} :
    Shape.allRegular records ts = true ↔ ∀ t ∈ ts, t.regular records = true := by
  induction ts with
  | nil => simp [Shape.allRegular]
  | cons t ts ih => simp [Shape.allRegular, ih]

/-- A shape without records, or with records and a value that it accepts. -/
def Accepts.OrPlain (cat : Catalog) (t : Shape) (v : Value) : Prop :=
  t.regular false = true ∨ t.regular true = true ∧ Accepts cat true t v

namespace Accepts.OrPlain

/-- The parts of what is accepted are accepted, and no part of anything else is a record. -/
theorem part (hcat : ∀ cls ∈ cat.classes, ∀ f ∈ cls.fields, f.shape.regular true = true)
    {t t' : Shape} {v v' : Value} (h : OrPlain cat t v) (hpart : Part cat t v t' v') :
    OrPlain cat t' v' := by
  cases hpart with
  | alternative ht =>
    obtain h | ⟨h, -⟩ := h <;> rw [Shape.regular, Shape.allRegular_iff] at h <;>
      exact .inl (h _ ht)
  | listItem hv hw =>
    exact h.imp id fun ⟨ht, h⟩ => ⟨ht, (Accepts.list_iff hv).1 h _ hw⟩
  | sequenceItem hv hw =>
    exact h.imp id fun ⟨ht, h⟩ => ⟨ht, (Accepts.sequence_iff hv).1 h _ hw⟩
  | tupleOfItem hv hw =>
    exact h.imp id fun ⟨ht, h⟩ => ⟨ht, (Accepts.tupleOf_iff hv).1 h _ hw⟩
  | tupleItem | dictEntry | mappingEntry => simp [OrPlain, Shape.regular] at h
  | field hc hf hv =>
    obtain h | ⟨-, h⟩ := h
    · simp [Shape.regular] at h
    · exact .inr ⟨hcat _ (List.mem_of_find?_eq_some hc) _ hf,
        (Accepts.Field.told_iff hv).1 (((Accepts.record_iff hc).1 h).2 _ hf)⟩

/-- Nothing that could not be shown has to be: the keys of what is accepted are texts. -/
theorem not_unsaid {t : Shape} {v : Value} (h : OrPlain cat t v) : ¬Unsaid t v := by
  have htext {s : String} {k : Value} (hk : (Value.str s).same k = true) : k.shows = true := by
    cases k <;> simp [Value.same] at hk
    rfl
  intro hunsaid
  cases hunsaid with
  | option => simp [OrPlain, Shape.regular] at h
  | @key t es e ht he hk =>
    cases t with
    | record =>
      obtain h | ⟨-, haccepts⟩ := h
      · simp [Shape.regular] at h
      · cases haccepts with
        | scalar h => simp [scalar?] at h
        | record _ hknown =>
          obtain ⟨f, -, -, hsame⟩ := hknown rfl e he
          rw [htext hsame] at hk
          cases hk
    | dict | mapping | bareDict => simp [OrPlain, Shape.regular] at h
    | _ => cases ht

end Accepts.OrPlain

/-- **What records of regular shapes accept is read whatever digits it has.** -/
theorem decode_ne_unshown (hchecks : NoChecks cat rounds)
    (hcat : ∀ cls ∈ cat.classes, ∀ f ∈ cls.fields, f.shape.regular true = true) {t : Shape}
    {v : Value} (ht : t.regular true = true) (h : Accepts cat true t v) :
    decode cat rounds strict p t v ≠ .error .unshown := by
  have honly : Only (fun e => e ≠ .unshown) (decode cat rounds strict p t v) := by
    refine decode_only (Accepts.OrPlain cat) (fun _ _ => nofun)
      (fun h hunsaid => absurd hunsaid h.not_unsaid) (fun hpart h => h.part hcat hpart) ?_ ?_
      (.inr ⟨ht, h⟩)
    · intro t v r _ hr
      obtain ⟨x, rfl⟩ | ⟨-, n, rfl, -⟩ := scalar?_cases hr
      · exact .ok x
      · unfold scalar?.asFloat
        split
        · exact .ok _
        · exact .error nofun
    · rintro n c cls es fields - rfl hc hchecked -
      obtain hzero | hnone := hchecks
      · cases hzero
      · rw [hnone cls (List.mem_of_find?_eq_some hc)] at hchecked
        cases hchecked
  exact fun herror => honly _ herror rfl

end EditorBridge.Schema
