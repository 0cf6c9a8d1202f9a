/-
Records that are written as data are read back.

A value of a shape becomes plain data, and these are read into the shape again, with a result
that equals the value (`Fits.readsBack`).  The result need not be the value itself: a field that
equals its default is left out if that is asked for, and comes back as the default.

The induction is on the value as one of its shape.  It stands within an induction on how often
instances are looked at again, because an instance of a checked class is accepted only if its own
data can be read once more.
-/
import EditorBridge.Proofs.Schema.Fits
import Mathlib.Data.List.Nodup

namespace EditorBridge.Schema

open Value (Plain Definite Simple sameItems_iff sameFields_iff sameEntries_iff)

variable {cat : Catalog} {known : String → Bool} {rounds : Nat} {strict : Bool} {p : Path}
  {o : Omission}

/-! ### Writing -/

theorem itemsToData_eq (vs : List Value) : itemsToData cat o vs = vs.map (toData cat o) := by
  induction vs with
  | nil => rw [itemsToData, List.map_nil]
  | cons v vs ih => rw [itemsToData, ih, List.map_cons]

theorem entriesToData_eq (es : List (Value × Value)) :
    entriesToData cat o es = es.map fun e => (e.1, toData cat o e.2) := by
  induction es with
  | nil => rw [entriesToData, List.map_nil]
  | cons e es ih => rw [entriesToData, ih, List.map_cons]

/-- Plain data are written as they are. -/
theorem toData_of_plain {v : Value} (h : v.Plain) : toData cat o v = v := by
  induction h with
  | list _ ih => rw [toData, itemsToData_eq, List.map_congr_left ih, List.map_id']
  | dict _ _ ih =>
    rw [toData, entriesToData_eq, List.map_congr_left (g := id) (fun e he => by rw [ih e he]; rfl),
      List.map_id]
  | null | bool | int | float | str | moment => rw [toData] <;> simp

/-- A field as an entry, unless it is left out. -/
def entryOf? (cat : Catalog) (o : Omission) (cls : RecordClass) (a : Field × String × Value) :
    Option (Value × Value) :=
  if o.omits a.1.default a.2.2 then none
  else some (.str (cls.keyOf a.1), toData cat o a.2.2)

/-- The fields of an instance are written under the keys of the class. -/
theorem fieldsToData_eq {cls : RecordClass} (hnames : (cls.fields.map (·.name)).Nodup)
    {fs : List Field} {fields : List (String × Value)} (hfs : fs ⊆ cls.fields)
    (hl : fs.length = fields.length) (hn : ∀ {f e}, (f, e) ∈ fs.zip fields → e.1 = f.name) :
    fieldsToData cat o (some cls) fields = (fs.zip fields).filterMap (entryOf? cat o cls) := by
  induction fs generalizing fields with
  | nil =>
    cases fields with
    | nil => rw [fieldsToData]; rfl
    | cons e es => cases hl
  | cons f fs ih =>
    cases fields with
    | nil => cases hl
    | cons e es =>
      obtain ⟨name, x⟩ := e
      obtain ⟨hf, hfs⟩ := List.cons_subset.1 hfs
      have hname : name = f.name := hn (by rw [List.zip_cons_cons]; exact List.mem_cons_self)
      subst hname
      have hfield : cls.field? f.name = some f :=
        Enumeration.find?_eq_of_unique hf (beq_self_eq_true _) fun g hg hs =>
          List.inj_on_of_nodup_map hnames hg hf (beq_iff_eq.1 hs)
      have hrest := ih hfs (by simpa using hl) fun h =>
        hn (by rw [List.zip_cons_cons]; exact List.mem_cons_of_mem _ h)
      rw [fieldsToData, hrest, List.zip_cons_cons, List.filterMap_cons, entryOf?]
      · simp only [Option.bind_some, hfield]
        split <;> rfl
      · exact hfield

/-- A class has one field of each name, so a field of an instance belongs to that one. -/
theorem RecordClass.mem_zip_of_field? {cls : RecordClass}
    (hnames : (cls.fields.map (·.name)).Nodup) {fields : List (String × Value)}
    (hl : cls.fields.length = fields.length)
    (hn : ∀ {f e}, (f, e) ∈ cls.fields.zip fields → e.1 = f.name) {e : String × Value}
    (he : e ∈ fields) {f : Field} (hf : cls.field? e.1 = some f) :
    (f, e) ∈ cls.fields.zip fields := by
  obtain ⟨g, hmem⟩ := exists_mem_zip hl he
  have hname : f.name = e.1 := by simpa using List.find?_some hf
  have hfg : f = g := List.inj_on_of_nodup_map hnames (List.mem_of_find?_eq_some hf)
    (List.of_mem_zip hmem).1 (hname.trans (hn hmem))
  rwa [hfg]

/-- What is under the key of one of several things that are listed with different keys. -/
theorem valueAt?_filterMap {α : Type} {l : List α} {key : α → String} {g : α → Option Value}
    (hkeys : (l.map key).Nodup) {a : α} (ha : a ∈ l) :
    (valueAt? (key a) (l.filterMap fun b => (g b).map fun v => (.str (key b), v))).map (·.1) =
      g a := by
  induction l with
  | nil => cases ha
  | cons b l ih =>
    rw [List.map_cons, List.nodup_cons] at hkeys
    have hmissing {l : List α} {k : String} (hk : k ∉ l.map key) :
        valueAt? k (l.filterMap fun b => (g b).map fun v => (.str (key b), v)) = none := by
      induction l with
      | nil => rfl
      | cons c l ihl =>
        rw [List.map_cons, List.mem_cons, not_or] at hk
        rw [List.filterMap_cons]
        cases g c with
        | none => exact ihl hk.2
        | some v =>
          simp only [Option.map_some, valueAt?]
          rw [if_neg (by simpa [Value.same] using hk.1), ihl hk.2]
          rfl
    rw [List.filterMap_cons]
    obtain rfl | ha := List.mem_cons.1 ha
    · cases g a with
      | none =>
        rw [Option.map_none]
        dsimp only
        rw [hmissing hkeys.1]
        rfl
      | some v => simp [valueAt?, Value.same]
    · have hne : key a ≠ key b := fun h => hkeys.1 (h ▸ List.mem_map_of_mem ha)
      cases g b with
      | none => exact ih hkeys.2 ha
      | some v =>
        simp only [Option.map_some, valueAt?]
        rw [if_neg (by simpa [Value.same] using hne), Option.map_map]
        exact ih hkeys.2 ha

/-- What the data of an instance say about a field. -/
theorem RecordClass.told?_fieldsToData {cls : RecordClass}
    (hnames : (cls.fields.map (·.name)).Nodup) (hkeys : (cls.fields.map cls.keyOf).Nodup)
    {fields : List (String × Value)} (hl : cls.fields.length = fields.length)
    (hn : ∀ {f e}, (f, e) ∈ cls.fields.zip fields → e.1 = f.name) {f : Field}
    {e : String × Value} (hmem : (f, e) ∈ cls.fields.zip fields) :
    cls.told? (fieldsToData cat o (some cls) fields) f =
      if f.given = true ∧ o.omits f.default e.2 = false then some (toData cat o e.2) else none := by
  have hzip : ((cls.fields.zip fields).map fun a => cls.keyOf a.1).Nodup := by
    rw [show (fun a : Field × String × Value => cls.keyOf a.1) = cls.keyOf ∘ Prod.fst from rfl,
      ← List.map_map, List.map_fst_zip (Nat.le_of_eq hl)]
    exact hkeys
  have hentry := valueAt?_filterMap (g := fun a : Field × String × Value =>
    if o.omits a.1.default a.2.2 then none else some (toData cat o a.2.2)) hzip hmem
  have hfun : (fun b : Field × String × Value =>
      (if o.omits b.1.default b.2.2 then none else some (toData cat o b.2.2)).map fun v =>
        (Value.str (cls.keyOf b.1), v)) = entryOf? cat o cls := by
    funext b
    unfold entryOf?
    split <;> rfl
  rw [hfun] at hentry
  unfold told?
  rw [fieldsToData_eq hnames (List.Subset.refl _) hl hn]
  cases f.given with
  | false => simp
  | true =>
    rw [if_pos rfl, hentry]
    cases o.omits f.default e.2 <;> simp

/-- An entry of the data of an instance is a field of it that is not left out. -/
theorem exists_of_mem_fieldsToData {cls : RecordClass}
    (hnames : (cls.fields.map (·.name)).Nodup) {fields : List (String × Value)} (hl : cls.fields.length = fields.length)
    (hn : ∀ {f e}, (f, e) ∈ cls.fields.zip fields → e.1 = f.name) {a : Value × Value}
    (ha : a ∈ fieldsToData cat o (some cls) fields) :
    ∃ f e, (f, e) ∈ cls.fields.zip fields ∧ o.omits f.default e.2 = false ∧
      a = (.str (cls.keyOf f), toData cat o e.2) := by
  rw [fieldsToData_eq hnames (List.Subset.refl _) hl hn, List.mem_filterMap] at ha
  obtain ⟨⟨f, e⟩, hmem, ha⟩ := ha
  unfold entryOf? at ha
  split at ha <;> cases ha
  exact ⟨f, e, hmem, by simpa using ‹¬o.omits _ _ = true›, rfl⟩

/-- **A value of a shape is written as plain data of a form that the shape accepts.** -/
theorem Fits.toData_plain (hcat : cat.Sound known strict) {t : Shape} {x : Value}
    (h : Fits cat t x) (ht : t.clear known = true) :
    (toData cat o x).Plain ∧ Form.of (toData cat o x) ∈ t.forms := by
  have hitems {xs : List Value} (hxs : ∀ x ∈ xs, (toData cat o x).Plain) :
      (Value.list (itemsToData cat o xs)).Plain := by
    rw [itemsToData_eq]
    refine .list fun v hv => ?_
    obtain ⟨x, hx, rfl⟩ := List.mem_map.1 hv
    exact hxs x hx
  have hentries {es : List (Value × Value)} (hk : ∀ e ∈ es, ∃ s, e.1 = .str s)
      (hes : ∀ e ∈ es, (toData cat o e.2).Plain) :
      (Value.dict (entriesToData cat o es)).Plain := by
    rw [entriesToData_eq]
    refine .dict (fun v hv => ?_) fun v hv => ?_ <;> obtain ⟨e, he, rfl⟩ := List.mem_map.1 hv
    · exact hk e he
    · exact hes e he
  induction h with
  | any h =>
    rw [toData_of_plain h]
    exact ⟨h, Form.mem_all _⟩
  | null =>
    rw [toData_of_plain .null]
    exact ⟨.null, by simp [Form.of, Shape.forms]⟩
  | bool b =>
    rw [toData_of_plain (.bool b)]
    exact ⟨.bool b, by simp [Form.of, Shape.forms]⟩
  | int n =>
    rw [toData_of_plain (.int n)]
    exact ⟨.int n, by simp [Form.of, Shape.forms]⟩
  | float x =>
    rw [toData_of_plain (.float x)]
    exact ⟨.float x, by simp [Form.of, Shape.forms]⟩
  | str s =>
    rw [toData_of_plain (.str s)]
    exact ⟨.str s, by simp [Form.of, Shape.forms]⟩
  | literal hv ho hs =>
    rw [toData_of_plain hv, Shape.forms]
    exact ⟨hv, List.mem_flatMap.2 ⟨_, ho, Form.of_mem_like hv (.inl hs)⟩⟩
  | @enumeration e m hm =>
    rw [Enumeration.member, toData, Shape.forms]
    have hplain : m.2.Plain ∧ m.2.same m.2 = true := by
      obtain ⟨n, hn⟩ | ⟨-, s, hs⟩ := Enumeration.value_of_isPlain ht hm
      · rw [hn]
        exact ⟨.int n, by simp [Value.same, Value.asInt?]⟩
      · rw [hs]
        exact ⟨.str s, by simp [Value.same]⟩
    exact ⟨hplain.1, List.mem_flatMap.2 ⟨m, hm, Form.of_mem_like hplain.1 (.inl hplain.2)⟩⟩
  | union hmem _ ih =>
    rw [Shape.clear, Bool.and_eq_true, Shape.allClear_iff] at ht
    obtain ⟨hplain, hform⟩ := ih (ht.2 _ hmem)
    rw [Shape.forms]
    exact ⟨hplain, Shape.mem_formsOfAny.2 ⟨_, hmem, hform⟩⟩
  | list _ ih | sequence _ ih | tupleOf _ ih =>
    rw [toData]
    exact ⟨hitems fun x hx => (ih x hx ht).1, by simp [Form.of, Shape.forms]⟩
  | @tuple ts xs hl _ ih =>
    rw [Shape.clear, Bool.and_eq_true, Shape.allClear_iff] at ht
    rw [toData]
    refine ⟨hitems fun x hx => ?_, by simp [Form.of, Shape.forms]⟩
    obtain ⟨t, hmem⟩ := exists_mem_zip hl hx
    exact (ih hmem (ht.2 t (List.of_mem_zip hmem).1)).1
  | dict hk _ ih | mapping hk _ ih =>
    rw [toData]
    exact ⟨hentries hk fun e he => (ih e he ht).1, by simp [Form.of, Shape.forms]⟩
  | record hc hl hn _ _ ih =>
    have hs := hcat.of_find? ht hc
    rw [toData, hc]
    refine ⟨.dict (fun a ha => ?_) fun a ha => ?_, by simp [Form.of, Shape.forms]⟩ <;>
      obtain ⟨f, e, hmem, -, rfl⟩ := exists_of_mem_fieldsToData hs.names hl hn ha
    · exact ⟨_, rfl⟩
    · exact (ih hmem (hs.shapes f (List.of_mem_zip hmem).1)).1

/-! ### Equality with a default -/

/-- **A value that equals a default is equal to it the other way round.** -/
theorem Fits.same_symm {t : Shape} {x d : Value} (h : Fits cat t x)
    (hsound : t.clear known = true) (hcat : cat.Sound known strict) (hd : d.Simple)
    (hs : x.same d = true) : d.same x = true := by
  induction h generalizing d with
  | any h => exact h.same_symm hd hs
  | null => exact Plain.null.same_symm hd hs
  | bool b => exact (Plain.bool b).same_symm hd hs
  | int n => exact (Plain.int n).same_symm hd hs
  | float x => exact (Plain.float x).same_symm hd hs
  | str s => exact (Plain.str s).same_symm hd hs
  | literal h => exact h.same_symm hd hs
  | @enumeration e m hm =>
    obtain ⟨n, hn⟩ | ⟨hnumeric, s, hn⟩ := Enumeration.value_of_isPlain hsound hm
    · unfold Enumeration.member at hs ⊢
      rw [hn] at hs ⊢
      cases hd <;> simp_all [Value.same, Value.asInt?]
    · unfold Enumeration.member at hs ⊢
      rw [hn, hnumeric] at hs
      cases hd <;> simp_all [Value.same]
  | union hmem _ ih =>
    rw [Shape.clear, Bool.and_eq_true, Shape.allClear_iff] at hsound
    exact ih (hsound.2 _ hmem) hd hs
  | list _ ih | sequence _ ih =>
    cases hd with
    | list hd =>
      simp only [Value.same, sameItems_iff] at hs ⊢
      exact Value.forall₂_swap hs fun x hx d hmem => ih x hx hsound (hd d hmem)
    | null | bool | int | float | str | tuple | emptyDict | record => simp [Value.same] at hs
  | tupleOf _ ih =>
    cases hd with
    | tuple hd =>
      simp only [Value.same, sameItems_iff] at hs ⊢
      exact Value.forall₂_swap hs fun x hx d hmem => ih x hx hsound (hd d hmem)
    | null | bool | int | float | str | list | emptyDict | record => simp [Value.same] at hs
  | tuple hl _ ih =>
    rw [Shape.clear, Bool.and_eq_true, Shape.allClear_iff] at hsound
    cases hd with
    | tuple hd =>
      simp only [Value.same, sameItems_iff] at hs ⊢
      refine Value.forall₂_swap hs fun x hx d hd' => ?_
      obtain ⟨t, hmem⟩ := exists_mem_zip hl hx
      exact ih hmem (hsound.2 t (List.of_mem_zip hmem).1) (hd d hd')
    | null | bool | int | float | str | list | emptyDict | record => simp [Value.same] at hs
  | dict | mapping =>
    cases hd with
    | emptyDict => simp_all [Value.same, sameEntries_iff]
    | null | bool | int | float | str | tuple | list | record => simp [Value.same] at hs
  | record hc hl hn _ _ ih =>
    have hcls := hcat.of_find? hsound hc
    cases hd with
    | record hd =>
      simp only [Value.same, Bool.and_eq_true, beq_iff_eq, sameFields_iff] at hs ⊢
      refine ⟨hs.1.symm, Value.forall₂_swap hs.2 fun e he d hd' h => ⟨h.1.symm, ?_⟩⟩
      obtain ⟨f, hmem⟩ := exists_mem_zip hl he
      exact ih hmem (hcls.shapes f (List.of_mem_zip hmem).1) (hd d hd') h.2
    | null | bool | int | float | str | tuple | list | emptyDict => simp [Value.same] at hs

/-! ### Reading what was written -/

theorem decodeItems_eq {t : Shape} {vs xs : List Value} {i : Nat}
    (h : List.Forall₂ (fun v x => ∀ p, decode cat rounds strict p t v = .ok x) vs xs) :
    decodeItems cat rounds strict p t i vs = .ok xs := by
  induction h generalizing i with
  | nil => rw [decodeItems]
  | cons h _ ih =>
    rw [decodeItems, h, ih]
    rfl

theorem decodeEntries_eq {t : Shape} {es xs : List (Value × Value)}
    (hk : ∀ e ∈ es, ∃ s, e.1 = .str s)
    (h : List.Forall₂ (fun e x => x.1 = e.1 ∧ ∀ p, decode cat rounds strict p t e.2 = .ok x.2)
      es xs) : decodeEntries cat rounds strict p t es = .ok xs := by
  induction h with
  | nil => rw [decodeEntries]
  | @cons e x es xs h _ ih =>
    obtain ⟨⟨s, hs⟩, hkeys⟩ := List.forall_mem_cons.1 hk
    obtain ⟨k, v⟩ := e
    obtain ⟨k', y⟩ := x
    obtain ⟨rfl, h⟩ := h
    obtain rfl : k' = .str s := hs
    rw [decodeEntries, h, ih hkeys]
    rfl

theorem decodeEach_eq {ts : List Shape} {vs xs : List Value} {i : Nat} (hl : ts.length = vs.length)
    (h : List.Forall₂ (fun a x => ∀ p, decode cat rounds strict p a.1 a.2 = .ok x) (ts.zip vs) xs) :
    decodeEach cat rounds strict p i ts vs = .ok xs := by
  induction ts generalizing i vs xs with
  | nil =>
    cases h
    rw [decodeEach]
    simp
  | cons t ts ih =>
    cases vs with
    | nil => cases hl
    | cons v vs =>
      rw [List.zip_cons_cons] at h
      cases h with
      | cons h hrest =>
        rw [decodeEach, h, ih (by simpa using hl) hrest]
        rfl

theorem decodeFields_eq {cls : RecordClass} {fs : List Field} {es : List (Value × Value)}
    {fields : List (String × Value)}
    (h : List.Forall₂ (fun f e => e.1 = f.name ∧ match cls.told? es f with
      | some v => ∀ p, decode cat rounds strict p f.shape v = .ok e.2
      | none => f.default = some e.2) fs fields) :
    decodeFields cat rounds strict p cls fs es = .ok fields := by
  induction h with
  | nil => rw [decodeFields]
  | @cons f e fs fields h _ ih =>
    obtain ⟨name, x⟩ := e
    obtain ⟨rfl, h⟩ := h
    have htold := cls.told?_eq es f
    rw [htold] at h
    rw [decodeFields, ih]
    split
    · rename_i v hv heq
      rw [heq] at h
      rw [h]
      rfl
    · rename_i heq
      rw [heq] at h
      rw [h]
      rfl

/-- A choice stays with the alternative that accepts, if those before it refuse. -/
theorem decodeFirst_eq {pre post : List Shape} {t : Shape} {v x : Value}
    (hpre : ∀ u ∈ pre, Refuses cat rounds strict p u v)
    (h : decode cat rounds strict p t v = .ok x) :
    decodeFirst cat rounds strict p (pre ++ t :: post) v = .ok (some x) := by
  induction pre with
  | nil => rw [List.nil_append, decodeFirst, h]
  | cons u pre ih =>
    obtain ⟨⟨q, problem, hu⟩, hpre⟩ := List.forall_mem_cons.1 hpre
    rw [List.cons_append, decodeFirst, hu]
    exact ih hpre

/-- The fields of an instance pass if the data of each can be read. -/
theorem wrongFields_eq {cls : RecordClass} {fields : List (String × Value)}
    (h : ∀ e ∈ fields, ∀ f, cls.field? e.1 = some f →
      ∃ y, ∀ p, decode cat rounds false p f.shape (toData cat {} e.2) = .ok y) :
    wrongFields cat rounds cls fields = .ok [] := by
  induction fields with
  | nil => rw [wrongFields]
  | cons e fields ih =>
    obtain ⟨name, x⟩ := e
    obtain ⟨he, hes⟩ := List.forall_mem_cons.1 h
    rw [wrongFields]
    cases hf : cls.field? name with
    | none => exact ih hes
    | some f =>
      obtain ⟨y, hy⟩ := he f hf
      dsimp only
      rw [hy]
      exact ih hes

/-- An instance is accepted if its keys are known, its fields can be read, and the check of what
they hold finds nothing. -/
theorem decode_record_eq {c : String} {cls : RecordClass} {es : List (Value × Value)}
    {fields : List (String × Value)} (hc : cat.find? c = some cls)
    (hkeys : strict = true →
      ∀ a ∈ es, ∃ f ∈ cls.fields, f.given = true ∧ a.1 = .str (cls.keyOf f))
    (hfields : decodeFields cat rounds strict p cls cls.fields es = .ok fields)
    (hcheck : ∀ n, rounds = n + 1 → wrongFields cat n cls fields = .ok []) :
    decode cat rounds strict p (.record c) (.dict es) = .ok (.record c fields) := by
  rw [decode, hc]
  dsimp only
  have hknown : (strict && !((es.map (·.1)).filter fun k =>
      !((cls.fields.filter (·.given)).map cls.keyOf).any fun key =>
        (Value.str key).same k).isEmpty) = false := by
    cases strict with
    | false => rfl
    | true =>
      rw [Bool.true_and, Bool.not_eq_false', List.isEmpty_iff, List.filter_eq_nil_iff]
      intro k hk
      obtain ⟨a, ha, rfl⟩ := List.mem_map.1 hk
      obtain ⟨f, hf, hgiven, hkey⟩ := hkeys rfl a ha
      rw [Bool.not_eq_true, Bool.not_eq_false', List.any_eq_true]
      exact ⟨cls.keyOf f, List.mem_map_of_mem (List.mem_filter.2 ⟨hf, hgiven⟩),
        by simp [hkey, Value.same]⟩
  rw [hknown, if_neg Bool.false_ne_true, hfields]
  cases rounds with
  | zero => rfl
  | succ n =>
    show (if cls.checked then _ else _) = _
    split
    · rw [hcheck n rfl]
      rfl
    · rfl

/-- The data of a value are read back as a value of the shape that equals it. -/
structure ReadsBack (cat : Catalog) (rounds : Nat) (strict : Bool) (o : Omission) (t : Shape)
    (x y : Value) : Prop where
  ok : ∀ p, decode cat rounds strict p t (toData cat o x) = .ok y
  fits : Fits cat t y
  same : x.Definite → y.same x = true

/-- What there is for each item of a list there is as a list. -/
theorem exists_forall₂ {α β : Type} {R : α → β → Prop} {xs : List α} (h : ∀ x ∈ xs, ∃ y, R x y) :
    ∃ ys, List.Forall₂ R xs ys := by
  induction xs with
  | nil => exact ⟨[], .nil⟩
  | cons x xs ih =>
    obtain ⟨⟨y, hy⟩, hxs⟩ := List.forall_mem_cons.1 h
    obtain ⟨ys, hys⟩ := ih hxs
    exact ⟨y :: ys, .cons hy hys⟩

theorem ReadsBack.items {t : Shape} {xs : List Value}
    (h : ∀ x ∈ xs, ∃ y, ReadsBack cat rounds strict o t x y) :
    ∃ ys, (∀ p, decodeItems cat rounds strict p t 0 (itemsToData cat o xs) = .ok ys) ∧
      (∀ y ∈ ys, Fits cat t y) ∧ ((∀ x ∈ xs, x.Definite) → Value.sameItems ys xs = true) := by
  obtain ⟨ys, hys⟩ := exists_forall₂ h
  obtain ⟨hl, hall⟩ := List.forall₂_iff_zip.1 hys
  refine ⟨ys, fun p => decodeItems_eq ?_, fun y hy => ?_, fun hdef => ?_⟩
  · rw [itemsToData_eq, List.forall₂_map_left_iff]
    exact hys.imp fun _ _ h => h.ok
  · obtain ⟨x, hmem⟩ := exists_mem_zip hl hy
    exact (hall hmem).fits
  · rw [sameItems_iff]
    exact Value.forall₂_swap hys fun x hx y _ h => h.same (hdef x hx)

theorem ReadsBack.entries {t : Shape} {es : List (Value × Value)}
    (hk : ∀ e ∈ es, ∃ s, e.1 = .str s)
    (h : ∀ e ∈ es, ∃ y, ReadsBack cat rounds strict o t e.2 y) :
    ∃ ys, (∀ p, decodeEntries cat rounds strict p t (entriesToData cat o es) = .ok ys) ∧
      (∀ y ∈ ys, ∃ s, y.1 = .str s) ∧ (∀ y ∈ ys, Fits cat t y.2) ∧
      ((∀ e ∈ es, e.2.Definite) → (Value.dict ys).same (.dict es) = true) := by
  obtain ⟨ys, hys⟩ := exists_forall₂ (R := fun e y : Value × Value =>
    y.1 = e.1 ∧ ReadsBack cat rounds strict o t e.2 y.2) fun e he => by
      obtain ⟨y, hy⟩ := h e he
      exact ⟨(e.1, y), rfl, hy⟩
  obtain ⟨hl, hall⟩ := List.forall₂_iff_zip.1 hys
  refine ⟨ys, fun p => decodeEntries_eq ?_ ?_, fun y hy => ?_, fun y hy => ?_, fun hdef => ?_⟩
  · rw [entriesToData_eq]
    exact List.forall_mem_map.2 hk
  · rw [entriesToData_eq, List.forall₂_map_left_iff]
    exact hys.imp fun _ _ h => ⟨h.1, h.2.ok⟩
  · obtain ⟨e, hmem⟩ := exists_mem_zip hl hy
    rw [(hall hmem).1]
    exact hk e (List.of_mem_zip hmem).1
  · obtain ⟨e, hmem⟩ := exists_mem_zip hl hy
    exact (hall hmem).2.fits
  · simp only [Value.same, hl, beq_self_eq_true, Bool.true_and, sameEntries_iff]
    intro y hy
    obtain ⟨e, hmem⟩ := exists_mem_zip hl hy
    obtain ⟨hkey, hback⟩ := hall hmem
    have he := (List.of_mem_zip hmem).1
    obtain ⟨s, hs⟩ := hk e he
    exact ⟨e, he, by simp [hkey, hs, Value.same], hback.same (hdef e he)⟩

/-- A tuple is read back if each of its items is. -/
theorem ReadsBack.tuple {ts : List Shape} {xs ys : List Value} (hne : ts.isEmpty = false)
    (hl : ts.length = xs.length)
    (hys : List.Forall₂ (fun a y => ReadsBack cat rounds strict o a.1 a.2 y) (ts.zip xs) ys) :
    ReadsBack cat rounds strict o (.tuple ts) (.tuple xs) (.tuple ys) := by
  have hback : List.Forall₂ (fun t y => Fits cat t y) ((ts.zip xs).map Prod.fst) ys := by
    rw [List.forall₂_map_left_iff]
    exact hys.imp fun _ _ h => h.fits
  rw [List.map_fst_zip (Nat.le_of_eq hl)] at hback
  obtain ⟨hlen, hall⟩ := List.forall₂_iff_zip.1 hback
  refine ⟨fun p => ?_, .tuple hlen hall, fun hdef => ?_⟩
  · have hdata : ts.zip (xs.map (toData cat o)) =
        (ts.zip xs).map fun a => (a.1, toData cat o a.2) := by
      rw [List.zip_map_right]
      rfl
    rw [toData, itemsToData_eq, decode, decodeAllOf, hne, if_neg Bool.false_ne_true,
      if_neg (by simp [hl]), decodeEach_eq (by simp [hl])]
    · rfl
    · rw [hdata, List.forall₂_map_left_iff]
      exact hys.imp fun _ _ h => h.ok
  · cases hdef with
    | tuple hdef =>
      have hsame : List.Forall₂ (fun (x y : Value) => x.Definite → y.same x = true)
          ((ts.zip xs).map Prod.snd) ys := by
        rw [List.forall₂_map_left_iff]
        exact hys.imp fun _ _ h => h.same
      rw [List.map_snd_zip (Nat.le_of_eq hl.symm)] at hsame
      rw [Value.same, sameItems_iff]
      exact Value.forall₂_swap hsame fun x hx y _ h => h (hdef x hx)

/-- A field of an instance, with its value, is read back from the data of the instance. -/
structure FieldBack (cat : Catalog) (rounds : Nat) (strict : Bool) (cls : RecordClass)
    (es : List (Value × Value)) (a : Field × String × Value) (y : String × Value) : Prop where
  name : y.1 = a.1.name
  kept : y.1 = a.2.1
  ok : match cls.told? es a.1 with
    | some v => ∀ p, decode cat rounds strict p a.1.shape v = .ok y.2
    | none => a.1.default = some y.2
  fits : Fits cat a.1.shape y.2
  hidden : a.1.given = false → a.1.default = some y.2
  same : a.2.2.Definite → y.2.same a.2.2 = true

/-- A field that was left out comes back as its default, which it equalled. -/
theorem exists_fieldBack (hcat : cat.Sound known strict) {cls : RecordClass}
    (hs : cls.Sound cat known strict) (ho : o.nulls = false) {fields : List (String × Value)}
    (hl : cls.fields.length = fields.length)
    (hn : ∀ {f e}, (f, e) ∈ cls.fields.zip fields → e.1 = f.name) {f : Field}
    {e : String × Value} (hmem : (f, e) ∈ cls.fields.zip fields) (hfits : Fits cat f.shape e.2)
    (hd : f.given = false → f.default = some e.2)
    (h : ∃ y, ReadsBack cat rounds strict o f.shape e.2 y) :
    ∃ y, FieldBack cat rounds strict cls (fieldsToData cat o (some cls) fields) (f, e) y := by
  have hf := (List.of_mem_zip hmem).1
  have hname := hn hmem
  have htold : cls.told? (fieldsToData cat o (some cls) fields) f = _ :=
    RecordClass.told?_fieldsToData hs.names hs.keys hl hn hmem
  cases hgiven : f.given with
  | false =>
    refine ⟨e, hname, rfl, ?_, hfits, hd, fun hdef => hdef.same_self⟩
    dsimp only
    rw [htold, if_neg (by simp [hgiven])]
    exact hd hgiven
  | true =>
    cases homits : o.omits f.default e.2 with
    | false =>
      obtain ⟨y, hy⟩ := h
      refine ⟨(f.name, y), rfl, hname.symm, ?_, hy.fits, by simp [hgiven], hy.same⟩
      dsimp only
      rw [htold, if_pos ⟨hgiven, homits⟩]
      exact hy.ok
    | true =>
      have hdefault := homits
      unfold Omission.omits at hdefault
      rw [ho, Bool.false_and, Bool.or_false, Bool.and_eq_true, Option.any_eq_true] at hdefault
      obtain ⟨-, d, hdefault, hsame⟩ := hdefault
      refine ⟨(f.name, d), rfl, hname.symm, ?_, hs.fits f hf d hdefault, by simp [hgiven],
        fun _ => hfits.same_symm (hs.shapes f hf) hcat (hs.simple f hf d hdefault) hsame⟩
      dsimp only
      rw [htold, if_neg (by simp [homits])]
      exact hdefault

/-- An instance is read back if each of its fields is. -/
theorem ReadsBack.record {c : String} {cls : RecordClass}
    (hc : cat.find? c = some cls) (hs : cls.Sound cat known strict)
    {fields ys : List (String × Value)} (hl : cls.fields.length = fields.length)
    (hn : ∀ {f e}, (f, e) ∈ cls.fields.zip fields → e.1 = f.name)
    (hys : List.Forall₂
      (FieldBack cat rounds strict cls (fieldsToData cat o (some cls) fields))
      (cls.fields.zip fields) ys)
    (hagain : ∀ n t x, rounds = n + 1 → Fits cat t x → t.clear known = true →
      ∃ y, ReadsBack cat n false {} t x y) :
    ReadsBack cat rounds strict o (.record c) (.record c fields) (.record c ys) := by
  have hfst : (cls.fields.zip fields).map Prod.fst = cls.fields := List.map_fst_zip (Nat.le_of_eq hl)
  have hsnd : (cls.fields.zip fields).map Prod.snd = fields := List.map_snd_zip (Nat.le_of_eq hl.symm)
  have hback : List.Forall₂ (fun f (y : String × Value) => y.1 = f.name ∧
      (match cls.told? (fieldsToData cat o (some cls) fields) f with
        | some v => ∀ p, decode cat rounds strict p f.shape v = .ok y.2
        | none => f.default = some y.2) ∧
      Fits cat f.shape y.2 ∧ (f.given = false → f.default = some y.2))
      ((cls.fields.zip fields).map Prod.fst) ys := by
    rw [List.forall₂_map_left_iff]
    exact hys.imp fun _ _ h => ⟨h.name, h.ok, h.fits, h.hidden⟩
  rw [hfst] at hback
  obtain ⟨hlen, hall⟩ := List.forall₂_iff_zip.1 hback
  refine ⟨fun p => ?_, .record hc hlen (fun hmem => (hall hmem).1) (fun hmem => (hall hmem).2.2.1)
    fun hmem => (hall hmem).2.2.2, fun hdef => ?_⟩
  · rw [toData, hc]
    refine decode_record_eq hc (fun hstrict a ha => ?_)
      (decodeFields_eq (hback.imp fun _ _ h => ⟨h.1, h.2.1⟩)) fun n hn' => wrongFields_eq ?_
    · obtain ⟨f, e, hmem, -, rfl⟩ := exists_of_mem_fieldsToData hs.names hl hn ha
      have hf := (List.of_mem_zip hmem).1
      exact ⟨f, hf, hs.given hstrict f hf, rfl⟩
    · intro y hy f hf
      have hmem := RecordClass.mem_zip_of_field? hs.names hlen (fun h => (hall h).1) hy hf
      obtain ⟨-, -, hfits, -⟩ := hall hmem
      obtain ⟨z, hz⟩ := hagain n f.shape y.2 hn' hfits (hs.shapes f (List.of_mem_zip hmem).1)
      exact ⟨z, hz.ok⟩
  · cases hdef with
    | record hdef =>
      simp only [Value.same, beq_self_eq_true, Bool.true_and, sameFields_iff]
      have hsame : List.Forall₂ (fun (e y : String × Value) =>
          y.1 = e.1 ∧ (e.2.Definite → y.2.same e.2 = true))
          ((cls.fields.zip fields).map Prod.snd) ys := by
        rw [List.forall₂_map_left_iff]
        exact hys.imp fun _ _ h => ⟨h.kept, h.same⟩
      rw [hsnd] at hsame
      exact Value.forall₂_swap hsame fun e he y _ h => ⟨h.1, h.2 (hdef e he)⟩

/-- Scalars are read back as they are. -/
theorem ReadsBack.of_eq {t : Shape} {x : Value} (hfits : Fits cat t x)
    (hdata : toData cat o x = x) (h : ∀ p, decode cat rounds strict p t x = .ok x) :
    ReadsBack cat rounds strict o t x x :=
  ⟨fun p => by rw [hdata, h], hfits, fun hdef => hdef.same_self⟩

/-- One value after the other is read back, as long as instances can be looked at again. -/
theorem Fits.readsBack_of (hcat : cat.Sound known strict) (ho : o.nulls = false)
    (hagain : ∀ n t x, rounds = n + 1 → Fits cat t x → t.clear known = true →
      ∃ y, ReadsBack cat n false {} t x y)
    {t : Shape} {x : Value} (h : Fits cat t x) (ht : t.clear known = true) :
    ∃ y, ReadsBack cat rounds strict o t x y := by
  induction h with
  | any h =>
    refine ⟨_, .of_eq (.any h) (toData_of_plain h) fun p => ?_⟩
    cases h <;> simp [decode, scalar?]
  | null => exact ⟨_, .of_eq .null (toData_of_plain .null) fun p => by simp [decode, scalar?]⟩
  | bool b =>
    exact ⟨_, .of_eq (.bool b) (toData_of_plain (.bool b)) fun p => by simp [decode, scalar?]⟩
  | int n => exact ⟨_, .of_eq (.int n) (toData_of_plain (.int n)) fun p => by simp [decode, scalar?]⟩
  | float x =>
    exact ⟨_, .of_eq (.float x) (toData_of_plain (.float x)) fun p => by simp [decode, scalar?]⟩
  | str s => exact ⟨_, .of_eq (.str s) (toData_of_plain (.str s)) fun p => by simp [decode, scalar?]⟩
  | literal hv hmem hs =>
    refine ⟨_, .of_eq (.literal hv hmem hs) (toData_of_plain hv) fun p => ?_⟩
    rw [decode, if_pos (List.any_eq_true.2 ⟨_, hmem, hs⟩)]
  | @enumeration e m hm =>
    refine ⟨e.member m, fun p => ?_, .enumeration hm, fun hdef => hdef.same_self⟩
    have hfind := Enumeration.find?_value ht hm
    rw [Enumeration.member, toData]
    obtain ⟨n, hn⟩ | ⟨-, s, hn⟩ := Enumeration.value_of_isPlain ht hm <;> rw [hn] at hfind ⊢ <;>
      simp [decode, scalar?, hfind, Enumeration.member, hn]
  | @union ts t x hmem hx ih =>
    rw [Shape.clear, Bool.and_eq_true, Shape.allClear_iff] at ht
    obtain ⟨hapart, hclear⟩ := ht
    obtain ⟨y, hy⟩ := ih (hclear _ hmem)
    refine ⟨y, fun p => ?_, .union hmem hy.fits, hy.same⟩
    obtain ⟨pre, post, rfl⟩ := List.append_of_mem hmem
    obtain ⟨hplain, hform⟩ := hx.toData_plain (o := o) hcat (hclear _ hmem)
    unfold Shape.apart at hapart
    rw [Bool.and_eq_true, decide_eq_true_iff, List.pairwise_append, Shape.allDiscreet_iff] at hapart
    rw [decode, decodeFirst_eq (fun u hu => refuses (hapart.2 u (List.mem_append_left _ hu)) hplain
      fun hf => hapart.1.2.2 u hu t List.mem_cons_self _ hf hform) (hy.ok p)]
    rfl
  | list _ ih =>
    obtain ⟨ys, hok, hfits, hsame⟩ := ReadsBack.items fun x hx => ih x hx ht
    refine ⟨.list ys, fun p => by rw [toData, decode, hok]; rfl, .list hfits, fun hdef => ?_⟩
    cases hdef with
    | list hdef => rw [Value.same, hsame hdef]
  | sequence _ ih =>
    obtain ⟨ys, hok, hfits, hsame⟩ := ReadsBack.items fun x hx => ih x hx ht
    refine ⟨.list ys, fun p => by rw [toData, decode, hok]; rfl, .sequence hfits, fun hdef => ?_⟩
    cases hdef with
    | list hdef => rw [Value.same, hsame hdef]
  | tupleOf _ ih =>
    obtain ⟨ys, hok, hfits, hsame⟩ := ReadsBack.items fun x hx => ih x hx ht
    refine ⟨.tuple ys, fun p => by rw [toData, decode, hok]; rfl, .tupleOf hfits, fun hdef => ?_⟩
    cases hdef with
    | tuple hdef => rw [Value.same, hsame hdef]
  | @tuple ts xs hl hfits ih =>
    rw [Shape.clear, Bool.and_eq_true, Shape.allClear_iff, Bool.not_eq_true'] at ht
    obtain ⟨ys, hys⟩ := exists_forall₂ fun a hmem => ih hmem (ht.2 a.1 (List.of_mem_zip hmem).1)
    exact ⟨.tuple ys, .tuple ht.1 hl hys⟩
  | dict hk _ ih =>
    obtain ⟨ys, hok, hkeys, hfits, hsame⟩ := ReadsBack.entries hk fun e he => ih e he ht
    refine ⟨.dict ys, fun p => by rw [toData, decode, hok]; rfl, .dict hkeys hfits, fun hdef => ?_⟩
    cases hdef with
    | dict _ hdef => exact hsame hdef
  | mapping hk _ ih =>
    obtain ⟨ys, hok, hkeys, hfits, hsame⟩ := ReadsBack.entries hk fun e he => ih e he ht
    refine ⟨.dict ys, fun p => by rw [toData, decode, hok]; rfl, .mapping hkeys hfits, fun hdef => ?_⟩
    cases hdef with
    | dict _ hdef => exact hsame hdef
  | record hc hl hn hfits hd ih =>
    have hs := hcat.of_find? ht hc
    obtain ⟨ys, hys⟩ := exists_forall₂ fun a hmem =>
      exists_fieldBack (f := a.1) (e := a.2) hcat hs ho hl hn hmem (hfits hmem) (hd hmem)
        (ih hmem (hs.shapes a.1 (List.of_mem_zip hmem).1))
    exact ⟨_, .record hc hs hl hn hys hagain⟩

/-- **The data of a value are read back.** -/
theorem Fits.readsBack (hcat : cat.Sound known strict) (ho : o.nulls = false) {t : Shape}
    {x : Value} (h : Fits cat t x) (ht : t.clear known = true) :
    ∃ y, ReadsBack cat rounds strict o t x y := by
  induction rounds generalizing strict o t x with
  | zero => exact h.readsBack_of hcat ho (fun n _ _ h => absurd h.symm (Nat.succ_ne_zero n)) ht
  | succ n ih =>
    refine h.readsBack_of hcat ho (fun m u y hm hy hu => ?_) ht
    obtain rfl := Nat.succ.inj hm
    exact ih hcat.relaxed rfl hy hu

end EditorBridge.Schema
