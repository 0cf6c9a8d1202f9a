/-
What was read can be read again.

A new instance of a checked class is looked at once more: its fields are written as plain data
and read again.  The data are given loosely and read strictly at first, what is written is read
loosely, and a choice may take another alternative the second time.  Still no field is ever found
wrong, because whatever is written of a value that was read is accepted where the value was
(`rereads`), for all shapes but those that ask for a type by its name.

There are two ways to fail, the first time as well as the second: an integer that is read as a
floating point number can be too large, and one that a message or a path would show can have too
many digits.  An alternative that fails so ends the whole choice.  So the statements here are
under a proposition `B` that is to hold if an integer in the data is too large, and a proposition
`C` that is to hold if one cannot be shown, and every such failure comes with the one or the
other (`Excused`).

The induction is on the rounds, and in each round first over the data, then over how they were
read: an alternative that precedes the one that was taken must not fail otherwise than by a wrong
part, and that is known only once the instances in it have passed.
-/
import EditorBridge.Proofs.Schema.Catalogs
import EditorBridge.Proofs.Schema.Refusals
import EditorBridge.Proofs.Value.Large

namespace EditorBridge

/-- Whether a value is a scalar of JSON. -/
def Value.isScalar : Value → Bool
  | null | bool _ | int _ | float _ | str _ => true
  | _ => false

namespace Schema

variable {cat : Catalog} {rounds : Nat} {strict : Bool} {p : Path} {o : Omission} {B C : Prop}

/-! ### Shapes and classes -/

mutual

/-- Whether a shape is put together from scalars, sequences, tables, choices, and records, with
scalars for the options of literals and for the values of enumerations. -/
def Shape.ordinary : Shape → Bool
  | .typed _ => false
  | .list t | .sequence t | .tupleOf t | .dict _ t | .mapping _ t => t.ordinary
  | .tuple ts | .union ts => Shape.allOrdinary ts
  | .literal options => options.all (·.isScalar)
  | .enumeration e => e.members.all (·.2.isScalar)
  | _ => true

def Shape.allOrdinary : List Shape → Bool
  | [] => true
  | t :: ts => t.ordinary && Shape.allOrdinary ts

end

theorem Shape.allOrdinary_iff {ts : List Shape} :
    Shape.allOrdinary ts = true ↔ ∀ t ∈ ts, t.ordinary = true := by
  induction ts with
  | nil => exact ⟨fun _ => List.forall_mem_nil _, fun _ => rfl⟩
  | cons t ts ih =>
    rw [List.forall_mem_cons, ← ih, ← Bool.and_eq_true]
    rfl

theorem Shape.ordinary_tuple {ts : List Shape} :
    (Shape.tuple ts).ordinary = true ↔ ∀ t ∈ ts, t.ordinary = true := Shape.allOrdinary_iff

theorem Shape.ordinary_union {ts : List Shape} :
    (Shape.union ts).ordinary = true ↔ ∀ t ∈ ts, t.ordinary = true := Shape.allOrdinary_iff

theorem Shape.ordinary_literal {options : List Value} :
    (Shape.literal options).ordinary = true ↔ ∀ o ∈ options, o.isScalar = true := List.all_eq_true

theorem Shape.ordinary_enumeration {e : Enumeration} :
    (Shape.enumeration e).ordinary = true ↔ ∀ m ∈ e.members, m.2.isScalar = true :=
  List.all_eq_true

/-- An ordinary shape in which everything can be shown unless `C`. -/
structure Asked (C : Prop) (t : Shape) : Prop where
  ordinary : t.ordinary = true
  shown : ¬C → t.shows = true

namespace Asked

variable {ts : List Shape} {t : Shape}

theorem mono {C' : Prop} (h : Asked C t) (hC : C → C') : Asked C' t :=
  ⟨h.ordinary, fun hnot => h.shown (hnot ∘ hC)⟩

theorem alternative (h : Asked C (.union ts)) (ht : t ∈ ts) : Asked C t :=
  ⟨Shape.ordinary_union.1 h.ordinary t ht, fun hnot => Shape.allShow_iff.1 (h.shown hnot) t ht⟩

theorem item (h : Asked C (.tuple ts)) (ht : t ∈ ts) : Asked C t :=
  ⟨Shape.ordinary_tuple.1 h.ordinary t ht, fun hnot => Shape.allShow_iff.1 (h.shown hnot) t ht⟩

end Asked

/-- Data from which nothing is read yet.  No integer in them is too large unless `B`, and all of
them can be shown unless `C`. -/
structure Given (B C : Prop) (v : Value) : Prop where
  unread : v.Unread
  huge : v.huge = true → B
  shown : ¬C → v.shows = true

/-- A class of ordinary fields that are told apart by names and by keys, with defaults that can be
read from their data; all of it can be shown. -/
structure RecordClass.Steady (cat : Catalog) (cls : RecordClass) : Prop where
  names : (cls.fields.map (·.name)).Nodup
  keys : (cls.fields.map cls.keyOf).Nodup
  shapes : ∀ f ∈ cls.fields, Asked False f.shape
  given : ∀ f ∈ cls.fields, ∀ d, f.default = some d → Given False False (toData cat {} d)
  defaults : ∀ f ∈ cls.fields, ∀ d, f.default = some d → ∀ rounds p,
    ∃ y, decode cat rounds false p f.shape (toData cat {} d) = .ok y

/-- All classes of a catalog are such. -/
def Catalog.Steady (cat : Catalog) : Prop := ∀ c cls, cat.find? c = some cls → cls.Steady cat

/-! ### Data -/

namespace Given

theorem mono {B' C' : Prop} {v : Value} (h : Given B C v) (hB : B → B') (hC : C → C') :
    Given B' C' v :=
  ⟨h.unread, fun hhuge => hB (h.huge hhuge), fun hnot => h.shown (hnot ∘ hC)⟩

theorem item {v w : Value} {vs : List Value} (h : Given B C v) (hv : items? v = some vs)
    (hw : w ∈ vs) : Given B C w := by
  obtain ⟨hunread, hhuge, hshown⟩ := h
  have hitem : w.huge = true → Value.hugeItem vs = true := fun hwhuge => by
    rw [Value.hugeItem_eq, List.any_eq_true]
    exact ⟨w, hw, hwhuge⟩
  have hshows : ¬C → w.shows = true := fun hnot => shows_of_items hv hw (hshown hnot)
  cases hunread with
  | list hvs | tuple hvs =>
    cases hv
    exact ⟨hvs w hw, fun hwhuge => hhuge (hitem hwhuge), hshows⟩
  | null | bool | int | float | str | bytes | moment | thing | set | dict => cases hv

theorem key {es : List (Value × Value)} {e : Value × Value} (h : Given B C (.dict es))
    (he : e ∈ es) (hnot : ¬C) : e.1.shows = true := (shows_of_entry he (h.shown hnot)).1

theorem entry {es : List (Value × Value)} {e : Value × Value} (h : Given B C (.dict es))
    (he : e ∈ es) : Given B C e.2 := by
  obtain ⟨hunread, hhuge, hshown⟩ := h
  cases hunread with
  | dict hes =>
    refine ⟨hes e he, fun hehuge => hhuge ?_, fun hnot => (shows_of_entry he (hshown hnot)).2⟩
    rw [Value.huge_dict, List.any_eq_true]
    exact ⟨e, he, hehuge⟩

theorem float (x : Binary64) : Given B C (.float x) := ⟨.float x, nofun, fun _ => rfl⟩

theorem list {vs : List Value} (h : ∀ v ∈ vs, Given B C v) : Given B C (.list vs) := by
  refine ⟨.list fun v hv => (h v hv).unread, fun hhuge => ?_,
    fun hnot => Value.showsItems_iff.2 fun v hv => (h v hv).shown hnot⟩
  rw [Value.huge_list, List.any_eq_true] at hhuge
  obtain ⟨v, hv, hhuge⟩ := hhuge
  exact (h v hv).huge hhuge

theorem dict {es : List (Value × Value)} (hk : ∀ e ∈ es, ¬C → e.1.shows = true)
    (h : ∀ e ∈ es, Given B C e.2) : Given B C (.dict es) := by
  refine ⟨.dict fun e he => (h e he).unread, fun hhuge => ?_,
    fun hnot => Value.showsEntries_iff.2 fun e he => ⟨hk e he hnot, (h e he).shown hnot⟩⟩
  rw [Value.huge_dict, List.any_eq_true] at hhuge
  obtain ⟨e, he, hhuge⟩ := hhuge
  exact (h e he).huge hhuge

/-- What is written of given data is given data. -/
theorem toData {v : Value} (h : Given B C v) : Given B C (toData cat o v) := by
  have hshows : ¬C → (Schema.toData cat o v).shows = true := fun hnot =>
    shows_toData (h.shown hnot)
  -- what can be shown is settled, so the induction leaves it out
  suffices hdata : Given B True (Schema.toData cat o v) from ⟨hdata.unread, hdata.huge, hshows⟩
  obtain ⟨hunread, hhuge, -⟩ := h
  clear hshows
  have hshown {w : Value} : ¬True → w.shows = true := fun hnot => absurd trivial hnot
  have hitems {vs : List Value} (hhuge : Value.hugeItem vs = true → B)
      (ih : ∀ v ∈ vs, (v.huge = true → B) → Given B True (Schema.toData cat o v)) :
      Given B True (.list (itemsToData cat o vs)) := by
    rw [itemsToData_eq]
    refine .list fun w hw => ?_
    obtain ⟨v, hv, rfl⟩ := List.mem_map.1 hw
    refine ih v hv fun hvhuge => hhuge ?_
    rw [Value.hugeItem_eq, List.any_eq_true]
    exact ⟨v, hv, hvhuge⟩
  induction hunread with
  | null => exact ⟨.null, hhuge, hshown⟩
  | bool b => exact ⟨.bool b, hhuge, hshown⟩
  | int n => exact ⟨.int n, hhuge, hshown⟩
  | float x => exact ⟨.float x, hhuge, hshown⟩
  | str s => exact ⟨.str s, hhuge, hshown⟩
  | bytes bs => exact ⟨.bytes bs, hhuge, hshown⟩
  | moment m => exact ⟨.moment m, hhuge, hshown⟩
  | thing t s => exact ⟨.thing t s, hhuge, hshown⟩
  | list _ ih | tuple _ ih | set _ ih => exact hitems hhuge ih
  | dict _ ih =>
    rw [Schema.toData, entriesToData_eq]
    refine .dict (fun _ _ => hshown) fun a ha => ?_
    obtain ⟨e, he, rfl⟩ := List.mem_map.1 ha
    refine ih e he fun hehuge => hhuge ?_
    rw [Value.huge_dict, List.any_eq_true]
    exact ⟨e, he, hehuge⟩

/-- A scalar that equals given data is given if it can be shown. -/
theorem of_same {v w : Value} (hv : Given B C v) (hw : w.isScalar = true) (hs : w.same v = true)
    (hshown : ¬C → w.shows = true) : Given B C w := by
  unfold Value.isScalar at hw
  split at hw
  · exact ⟨.null, nofun, hshown⟩
  · exact ⟨.bool _, nofun, hshown⟩
  · exact ⟨.int _, fun hhuge => hv.huge (hv.unread.huge_of_same hs hhuge), hshown⟩
  · exact .float _
  · exact ⟨.str _, nofun, hshown⟩
  · cases hw

end Given

/-! ### Scalars -/

/-- A scalar that equals anything equals itself. -/
theorem same_self_of_same {v w : Value} (hw : w.isScalar = true) (hs : w.same v = true) :
    w.same w = true := by
  unfold Value.isScalar at hw
  split at hw
  · exact Value.Definite.null.same_self
  · exact (Value.Definite.bool _).same_self
  · exact (Value.Definite.int _).same_self
  · rename_i x
    refine (Value.Definite.float fun hnan => ?_).same_self
    unfold Value.same at hs
    split at hs
    · simp [Binary64.sameInt, hnan] at hs
    · split at hs <;> simp [Binary64.same, hnan] at hs
  · exact (Value.Definite.str _).same_self
  · cases hw

/-- Given data stand for a member by its value. -/
theorem Enumeration.exists_value_of_find? {e : Enumeration} {v x : Value} (hv : v.Unread)
    (h : e.find? v = some x) : ∃ m ∈ e.members, x = e.member m ∧ m.2.same v = true := by
  obtain ⟨m, hm, hx, hs | hs⟩ := exists_same_of_find? h
  · refine ⟨m, hm, hx, ?_⟩
    rw [member, Value.same] at hs
    · exact (Bool.and_eq_true _ _ ▸ hs).2
    · rintro _ _ _ _ rfl
      cases hv
  · exact ⟨m, hm, hx, hs⟩

theorem Enumeration.exists_find? {e : Enumeration} {m : String × Value} (hm : m ∈ e.members)
    (hs : m.2.same m.2 = true) : ∃ x, e.find? m.2 = some x := by
  unfold find?
  cases (e.members.map e.member).find? fun x => x.same m.2 with
  | some x => exact ⟨x, rfl⟩
  | none =>
    obtain ⟨m', hm'⟩ := Option.isSome_iff_exists.1 (List.find?_isSome
      (p := fun m' : String × Value => m'.2.same m.2) |>.2 ⟨m, hm, hs⟩)
    exact ⟨e.member m', by rw [hm']; rfl⟩

/-- A scalar that was read can be read again. -/
theorem scalar?_again {t : Shape} {v x : Value} (h : scalar? t v = some (.ok x))
    (ht : Asked C t) (hv : Given B C v) :
    Given B C (toData cat {} x) ∧ ∀ n p, ∃ y, decode cat n false p t (toData cat {} x) = .ok y := by
  unfold scalar? at h
  split at h
  · cases h
    exact ⟨hv.toData, fun n p => ⟨toData cat {} v, by simp [decode, scalar?]⟩⟩
  · cases h
    exact ⟨hv.toData, fun n p => ⟨.null, by simp [decode, scalar?, toData]⟩⟩
  · cases h
    exact ⟨hv.toData, fun n p => ⟨.bool _, by simp [decode, scalar?, toData]; rfl⟩⟩
  · cases h
    exact ⟨hv.toData, fun n p => ⟨.int _, by simp [decode, scalar?, toData]; rfl⟩⟩
  · cases hv.unread
  · cases h
    exact ⟨hv.toData, fun n p => ⟨.float _, by simp [decode, scalar?, toData]; rfl⟩⟩
  · unfold scalar?.asFloat at h
    split at h <;> cases h
    exact ⟨.float _, fun n p => ⟨.float _, by simp [decode, scalar?, toData]; rfl⟩⟩
  · cases hv.unread
  · cases h
    exact ⟨hv.toData, fun n p => ⟨.str _, by simp [decode, scalar?, toData]; rfl⟩⟩
  · rename_i e v
    obtain ⟨y, hy, hx⟩ := Option.map_eq_some_iff.1 h
    cases hx
    obtain ⟨m, hm, rfl, hs⟩ := Enumeration.exists_value_of_find? hv.unread hy
    have hscalar := Shape.ordinary_enumeration.1 ht.ordinary m hm
    have hshown (hnot : ¬C) : m.2.shows = true := List.all_eq_true.1 (ht.shown hnot) m hm
    obtain ⟨z, hz⟩ := Enumeration.exists_find? hm (same_self_of_same hscalar hs)
    rw [Enumeration.member, toData]
    exact ⟨hv.of_same hscalar hs hshown, fun n p => ⟨z, by simp [decode, scalar?, hz]⟩⟩
  · cases ht.ordinary
  · cases h

/-! ### What is written of a value that was read -/

theorem Given.told {cls : RecordClass} {es : List (Value × Value)} {f : Field} {v : Value}
    (h : Given B C (.dict es)) (hv : cls.told? es f = some v) : Given B C v := by
  obtain ⟨k, hk⟩ := RecordClass.exists_mem_of_told hv
  exact h.entry hk

/-- **What is written of a value that was read from given data is given data.** -/
theorem Reads.given (hcat : cat.Steady) {t : Shape} {v x : Value} (h : Reads cat t v x)
    (ht : Asked C t) (hv : Given B C v) : Given B C (toData cat {} x) := by
  have hitems {t : Shape} {v : Value} {vs xs : List Value} (hvs : items? v = some vs)
      (hl : vs.length = xs.length) (hv : Given B C v)
      (ih : ∀ {a b}, (a, b) ∈ vs.zip xs → Asked C t → Given B C a → Given B C (toData cat {} b))
      (ht : Asked C t) : Given B C (.list (itemsToData cat {} xs)) := by
    rw [itemsToData_eq]
    refine .list fun w hw => ?_
    obtain ⟨x, hx, rfl⟩ := List.mem_map.1 hw
    obtain ⟨a, hmem⟩ := exists_mem_zip hl hx
    exact ih hmem ht (hv.item hvs (List.of_mem_zip hmem).1)
  have hentries {t : Shape} {es xs : List (Value × Value)} (hl : es.length = xs.length)
      (hv : Given B C (.dict es)) (hk : ∀ {a b}, (a, b) ∈ es.zip xs → b.1 = a.1)
      (ih : ∀ {a b}, (a, b) ∈ es.zip xs → Asked C t → Given B C a.2 →
        Given B C (toData cat {} b.2)) (ht : Asked C t) :
      Given B C (.dict (entriesToData cat {} xs)) := by
    rw [entriesToData_eq]
    refine .dict (fun w hw => ?_) fun w hw => ?_ <;>
      obtain ⟨x, hx, rfl⟩ := List.mem_map.1 hw <;>
      obtain ⟨a, hmem⟩ := exists_mem_zip hl hx
    · rw [hk hmem]
      exact hv.key (List.of_mem_zip hmem).1
    · exact ih hmem ht (hv.entry (List.of_mem_zip hmem).1)
  have hbare {v : Value} {vs : List Value} (hvs : items? v = some vs) (hv : Given B C v) :
      Given B C (.list (itemsToData cat {} vs)) := by
    rw [itemsToData_eq]
    refine .list fun w hw => ?_
    obtain ⟨x, hx, rfl⟩ := List.mem_map.1 hw
    exact (hv.item hvs hx).toData
  induction h with
  | scalar h => exact (scalar?_again h ht hv).1
  | union hmem _ ih =>
    exact ih (ht.alternative hmem) hv
  | literal => exact hv.toData
  | list hvs hl _ ih | sequence hvs hl _ ih | tupleOf hvs hl _ ih => exact hitems hvs hl hv ih ⟨ht.1, ht.2⟩
  | tuple hvs hlt hl _ ih =>
    rw [toData, itemsToData_eq]
    refine .list fun w hw => ?_
    obtain ⟨x, hx, rfl⟩ := List.mem_map.1 hw
    obtain ⟨t, a, hmem⟩ := exists_mem_zip_of_mem hlt hl hx
    obtain ⟨ht', hmem'⟩ := List.of_mem_zip hmem
    exact ih hmem (ht.item ht') (hv.item hvs (List.of_mem_zip hmem').1)
  | anyTuple hvs | bareList hvs | bareTuple hvs => exact hbare hvs hv
  | bareDict => exact hv.toData
  | dict hl hk _ ih | mapping hl hk _ ih => exact hentries hl hv hk ih ⟨ht.1, ht.2⟩
  | record hc hl hn _ hd ih =>
    have hs := hcat _ _ hc
    rw [toData, hc]
    refine .dict (fun a ha => ?_) fun a ha => ?_ <;>
      obtain ⟨f, e, hmem, -, rfl⟩ := exists_of_mem_fieldsToData hs.names hl hn ha
    · exact fun _ => rfl
    have hf := (List.of_mem_zip hmem).1
    cases htold : RecordClass.told? _ _ f with
    | some v => exact ih hmem htold ((hs.shapes f hf).mono False.elim) (hv.told htold)
    | none => exact (hs.given f hf _ (hd hmem htold)).mono False.elim False.elim

/-! ### Failing -/

/-- An integer is too large, or it has too many digits to be shown. -/
def Excused (B C : Prop) (e : Error) : Prop := e = .tooLarge ∧ B ∨ e = .unshown ∧ C

theorem Excused.ne_wrong {e : Error} {q : Path} {problem : Problem} (h : Excused B C e) :
    e ≠ .wrong q problem := by
  obtain ⟨rfl, -⟩ | ⟨rfl, -⟩ := h <;> exact nofun

/-- A part is wrong, or an integer is to blame. -/
def Harmless (B C : Prop) (e : Error) : Prop := (∃ q problem, e = .wrong q problem) ∨ Excused B C e

theorem unshown_of_veiled {t : Shape} {v : Value} (ht : Asked C t) (hv : Given B C v)
    (h : Veiled t v) : Excused B C .unshown := by
  refine .inr ⟨rfl, ?_⟩
  by_contra hnot
  exact not_veiled.2 ⟨ht.shown hnot, hv.shown hnot⟩ h

/-- What was read is read again without failing otherwise than by an integer. -/
def Rereads (cat : Catalog) (rounds : Nat) (B C : Prop) : Prop :=
  ∀ {t v x}, Reads cat t v x → Asked C t → Given B C v → ∀ p,
    Only (Excused B C) (decode cat rounds false p t (toData cat {} x))

/-- The check of an instance finds nothing if nothing is wrong. -/
theorem eq_nil_of_wrongFields {cls : RecordClass} {fields : List (String × Value)}
    {ps : List (String × String)}
    (h : ∀ e ∈ fields, ∀ f, cls.field? e.1 = some f →
      Only (Excused B C) (decode cat rounds false [.str e.1] f.shape (toData cat {} e.2)))
    (hok : wrongFields cat rounds cls fields = .ok ps) : ps = [] := by
  induction fields generalizing ps with
  | nil =>
    rw [wrongFields] at hok
    cases hok
    rfl
  | cons e fields ih =>
    obtain ⟨he, hes⟩ := List.forall_mem_cons.1 h
    rw [wrongFields] at hok
    split at hok
    · exact ih hes hok
    · have hfield := he _ ‹_›
      split at hok
      · exact ih hes hok
      · exact absurd rfl (hfield _ ‹_›).ne_wrong
      · cases hok

/-- **An instance that was read from given data passes**, if it can be read again. -/
theorem wrongFields_rereads {again : Nat} {cls : RecordClass} {es : List (Value × Value)}
    {fields : List (String × Value)} (hagain : Rereads cat again B C) (hs : cls.Steady cat)
    (hes : Given B C (.dict es))
    (hfields : List.Forall₂ (FieldReads cat rounds strict cls es) cls.fields fields) :
    Only (Excused B C) (wrongFields cat again cls fields) ∧
      ∀ ps, wrongFields cat again cls fields = .ok ps → ps = [] := by
  obtain ⟨hl, hall⟩ := List.forall₂_iff_zip.1 hfields
  have hfield : ∀ e ∈ fields, ∀ f, cls.field? e.1 = some f →
      Only (Excused B C) (decode cat again false [.str e.1] f.shape (toData cat {} e.2)) := by
    intro e he f hf
    have hmem := RecordClass.mem_zip_of_field? hs.names hl (fun h => (hall h).1) he hf
    have hf := (List.of_mem_zip hmem).1
    obtain ⟨-, hread⟩ := hall hmem
    split at hread
    · obtain ⟨p, hp⟩ := hread
      exact hagain (Reads.of_decode hp) ((hs.shapes f hf).mono False.elim) (hes.told ‹_›) _
    · obtain ⟨y, hy⟩ := hs.defaults f hf _ hread again [.str e.1]
      rw [hy]
      exact .ok y
  exact ⟨wrongFields_only hfield, fun ps => eq_nil_of_wrongFields hfield⟩

/-! ### Reading -/

/-- The parts of ordinary shapes and given data are such. -/
theorem Part.given (hcat : cat.Steady) {t t' : Shape} {v v' : Value} (h : Part cat t v t' v')
    (ht : Asked C t) (hv : Given B C v) : Asked C t' ∧ Given B C v' := by
  cases h with
  | alternative hmem =>
    exact ⟨ht.alternative hmem, hv⟩
  | listItem hvs hw | sequenceItem hvs hw | tupleOfItem hvs hw =>
    exact ⟨⟨ht.1, ht.2⟩, hv.item hvs hw⟩
  | tupleItem hvs hmem =>
    exact ⟨ht.item (List.of_mem_zip hmem).1, hv.item hvs (List.of_mem_zip hmem).2⟩
  | dictEntry he | mappingEntry he => exact ⟨⟨ht.1, ht.2⟩, hv.entry he⟩
  | field hc hf hw => exact ⟨((hcat _ _ hc).shapes _ hf).mono False.elim, hv.told hw⟩

theorem scalar?_harmless {t : Shape} {v : Value} {r : Except Error Value} (hv : Given B C v)
    (h : scalar? t v = some r) : Only (Harmless B C) r := by
  obtain ⟨x, rfl⟩ | ⟨-, n, rfl, rfl | ⟨e, m, rfl⟩⟩ := scalar?_cases h
  · exact .ok x
  · unfold scalar?.asFloat
    split
    · exact .ok _
    · refine .error (.inr (.inl ⟨rfl, hv.huge ?_⟩))
      rw [Value.huge_int, ‹Binary64.ofInt? n = none›]
      rfl
  · cases hv.unread

/-- **Given data are read, or a part is wrong, or an integer is to blame**, if instances pass. -/
theorem decode_harmless (hcat : cat.Steady)
    (hagain : ∀ n, rounds = n + 1 → Rereads cat n B C) {t : Shape} {v : Value}
    (ht : Asked C t) (hv : Given B C v) :
    Only (Harmless B C) (decode cat rounds strict p t v) := by
  refine decode_only (fun t v => Asked C t ∧ Given B C v) (fun q problem => .inl ⟨q, problem, rfl⟩)
    (fun h hunsaid => .inr (unshown_of_veiled h.1 h.2 hunsaid.veiled))
    (fun hpart h => hpart.given hcat h.1 h.2) (fun h => scalar?_harmless h.2) ?_ ⟨ht, hv⟩
  intro n c cls es fields h hn hc _ hfields
  obtain ⟨honly, hnil⟩ := wrongFields_rereads (hagain n hn) (hcat c cls hc) h.2 hfields
  exact ⟨fun e he => .inr (honly e he), fun ps hps hne => absurd (hnil ps hps) hne⟩

/-- If one alternative accepts a value, then a choice fails only by an integer. -/
theorem decodeFirst_rereads {ts : List Shape} {v : Value}
    (hall : ∀ t ∈ ts, Only (Harmless B C) (decode cat rounds strict p t v)) {t : Shape} (ht : t ∈ ts)
    (h : Only (Excused B C) (decode cat rounds strict p t v)) :
    Only (Excused B C) (decodeFirst cat rounds strict p ts v) ∧
      decodeFirst cat rounds strict p ts v ≠ .ok none := by
  induction ts with
  | nil => cases ht
  | cons u ts ih =>
    obtain ⟨hu, hts⟩ := List.forall_mem_cons.1 hall
    -- an alternative that gives way is not the one that accepts
    have hrest {e : Error} (he : decode cat rounds strict p u v = .error e)
        (hne : ¬Excused B C e) : t ∈ ts := by
      obtain rfl | ht := List.mem_cons.1 ht
      · exact absurd (h e he) hne
      · exact ht
    rw [decodeFirst]
    split
    · exact ⟨.ok _, by simp⟩
    · rename_i heq
      exact ih hts (hrest heq (by simp [Excused]))
    · rename_i heq
      exact ih hts (hrest heq (by simp [Excused]))
    · rename_i heq
      exact ih hts (hrest heq (by simp [Excused]))
    · rename_i e hwrong _ _ heq
      obtain ⟨q, problem, rfl⟩ | hexcused := hu e heq
      · exact absurd rfl (hwrong q problem)
      · exact ⟨.error hexcused, by simp⟩

/-- A scalar that was accepted as an option is accepted again. -/
theorem literal_rereads {options : List Value} {v w : Value} (hw : w ∈ options)
    (ht : Asked C (.literal options)) (hv : v.Unread) (hs : v.same w = true) :
    ∃ y, decode cat rounds strict p (.literal options) (toData cat o v) = .ok y := by
  have hscalar := Shape.ordinary_literal.1 ht.ordinary w hw
  have hdata : toData cat o v = v := by
    unfold Value.isScalar at hscalar
    cases hv <;> first | rfl | (split at hscalar <;> simp_all [Value.same])
  rw [hdata, decode, if_pos (List.any_eq_true.2 ⟨w, hw, hs⟩)]
  exact ⟨v, rfl⟩

/-- A key of given data that cannot be shown is to blame. -/
theorem Given.unshown_key {es : List (Value × Value)} {e : Value × Value}
    (hv : Given B C (.dict es)) (he : e ∈ es) (hplain : e.1.plainShows = false) :
    Excused B C .unshown := by
  refine .inr ⟨rfl, ?_⟩
  by_contra hnot
  rw [Value.plainShows_of_shows (hv.key he hnot)] at hplain
  cases hplain

/-- Items are read again, if each of them is. -/
theorem decodeItems_rereads {t : Shape} {v : Value} {vs xs : List Value} (hvs : items? v = some vs)
    (hl : vs.length = xs.length) (hv : Given B C v)
    (hitem : ∀ {a b}, (a, b) ∈ vs.zip xs → Given B C a → ∀ p,
      Only (Excused B C) (decode cat rounds false p t (toData cat {} b))) (p : Path) :
    Only (Excused B C) (decodeItems cat rounds false p t 0 (itemsToData cat {} xs)) := by
  rw [itemsToData_eq]
  refine decodeItems_only fun w hw => ?_
  obtain ⟨x, hx, rfl⟩ := List.mem_map.1 hw
  obtain ⟨a, hmem⟩ := exists_mem_zip hl hx
  exact hitem hmem (hv.item hvs (List.of_mem_zip hmem).1)

/-- Entries are read again, if the value of each of them is. -/
theorem decodeEntries_rereads {t : Shape} {es xs : List (Value × Value)}
    (hl : es.length = xs.length) (hv : Given B C (.dict es))
    (hk : ∀ {a b}, (a, b) ∈ es.zip xs → b.1 = a.1)
    (hentry : ∀ {a b}, (a, b) ∈ es.zip xs → Given B C a.2 → ∀ p,
      Only (Excused B C) (decode cat rounds false p t (toData cat {} b.2))) (p : Path) :
    Only (Excused B C) (decodeEntries cat rounds false p t (entriesToData cat {} xs)) := by
  rw [entriesToData_eq]
  refine decodeEntries_only (fun w hw hplain => ?_) fun w hw => ?_ <;>
    obtain ⟨x, hx, rfl⟩ := List.mem_map.1 hw <;>
    obtain ⟨a, hmem⟩ := exists_mem_zip hl hx
  · exact hv.unshown_key (List.of_mem_zip hmem).1 (hk hmem ▸ hplain)
  · exact hentry hmem (hv.entry (List.of_mem_zip hmem).1)

/-- An instance is read again, if each field that was given is. -/
theorem decode_record_rereads (hcat : cat.Steady)
    (hagain : ∀ n, rounds = n + 1 → Rereads cat n B C) {c : String} {cls : RecordClass}
    {es : List (Value × Value)} {fields : List (String × Value)} (hc : cat.find? c = some cls)
    (hl : cls.fields.length = fields.length)
    (hn : ∀ {f e}, (f, e) ∈ cls.fields.zip fields → e.1 = f.name)
    (hd : ∀ {f e}, (f, e) ∈ cls.fields.zip fields → cls.told? es f = none →
      f.default = some e.2)
    (hgiven : Given B C (toData cat {} (.record c fields)))
    (hfield : ∀ {f e v}, (f, e) ∈ cls.fields.zip fields → cls.told? es f = some v → ∀ p,
      Only (Excused B C) (decode cat rounds false p f.shape (toData cat {} e.2))) (p : Path) :
    Only (Excused B C) (decode cat rounds false p (.record c) (toData cat {} (.record c fields))) := by
  have hs := hcat _ _ hc
  rw [toData, hc] at hgiven ⊢
  have htold {f : Field} {e : String × Value} (hmem : (f, e) ∈ cls.fields.zip fields) :
      cls.told? (fieldsToData cat {} (some cls) fields) f =
        if f.given = true ∧ Omission.omits {} f.default e.2 = false then some (toData cat {} e.2)
        else none :=
    RecordClass.told?_fieldsToData hs.names hs.keys hl hn hmem
  have hvalue {f : Field} (hf : f ∈ cls.fields) : ∃ e, (f, e) ∈ cls.fields.zip fields := by
    rw [← List.map_fst_zip (Nat.le_of_eq hl)] at hf
    obtain ⟨⟨f, e⟩, hmem, rfl⟩ := List.mem_map.1 hf
    exact ⟨e, hmem⟩
  refine decode_record_only hc (by simp) (by simp) (decodeFields_only ?_ ?_) ?_
  · -- a field that is not written cannot be given, and has its default
    intro f hf hnone hdefault
    obtain ⟨e, hmem⟩ := hvalue hf
    have hgiven : f.given = false := by
      by_contra hgiven
      rw [htold hmem, if_pos ⟨by simpa using hgiven, rfl⟩] at hnone
      cases hnone
    have hsome := hd hmem (by simp [RecordClass.told?, hgiven])
    rw [hdefault] at hsome
    cases hsome
  · intro f hf w hw p
    obtain ⟨e, hmem⟩ := hvalue hf
    rw [htold hmem] at hw
    split at hw <;> cases hw
    cases hfirst : cls.told? es f with
    | some v => exact hfield hmem hfirst p
    | none =>
      obtain ⟨y, hy⟩ := hs.defaults f hf _ (hd hmem hfirst) rounds p
      rw [hy]
      exact .ok y
  · intro n fields' hrounds _ hfields
    obtain ⟨honly, hnil⟩ := wrongFields_rereads (hagain n hrounds) hs hgiven hfields
    exact ⟨honly, fun ps hps hne => absurd (hnil ps hps) hne⟩

/-- What was read is read again, if instances pass. -/
theorem rereads_of (hcat : cat.Steady) (hagain : ∀ n, rounds = n + 1 → Rereads cat n B C) :
    Rereads cat rounds B C := by
  intro t v x h ht hv
  have hdata := fun {t v x} (h : Reads cat t v x) => h.given (B := B) (C := C) hcat
  induction h with
  | @scalar t v x h =>
    intro p
    obtain ⟨-, hread⟩ : Given B C (toData cat {} x) ∧ _ := scalar?_again h ht hv
    obtain ⟨y, hy⟩ := hread rounds p
    rw [hy]
    exact .ok y
  | @union ts t v x hmem h ih =>
    intro p
    have hgiven := hdata h (ht.alternative hmem) hv
    obtain ⟨hfirst, hsome⟩ := decodeFirst_rereads
      (fun u hu => decode_harmless hcat hagain (ht.alternative hu) hgiven) hmem
      (ih (ht.alternative hmem) hv p)
    rw [decode]
    refine hfirst.bind fun r hr => ?_
    cases r with
    | some y => exact .ok y
    | none => exact absurd hr hsome
  | literal hw hs =>
    intro p
    obtain ⟨y, hy⟩ := literal_rereads hw ht hv.unread hs
    rw [hy]
    exact .ok y
  | list hvs hl _ ih | sequence hvs hl _ ih | tupleOf hvs hl _ ih =>
    intro p
    rw [toData, decode]
    exact (decodeItems_rereads hvs hl hv (fun hmem => ih hmem ⟨ht.1, ht.2⟩) p).bind fun _ _ => .ok _
  | @tuple ts v vs xs hvs hlt hl _ ih =>
    intro p
    rw [toData, decode, itemsToData_eq]
    refine decodeAllOf_only (fun hne => absurd (by simp [hlt, hl]) hne) fun {t w} hmem => ?_
    obtain ⟨⟨t, x⟩, hx, heq⟩ := List.mem_map.1 (List.zip_map_right ▸ hmem)
    cases heq
    obtain ⟨a, htmem⟩ := exists_mem_zip_zip hlt hl hx
    exact ih htmem (ht.item (List.of_mem_zip hx).1)
      (hv.item hvs (List.of_mem_zip (List.of_mem_zip htmem).2).1)
  | anyTuple hvs =>
    intro p
    rw [toData, decode, decodeAllOf]
    exact .ok _
  | bareList hvs | bareTuple hvs =>
    intro p
    rw [toData, decode]
    exact .ok _
  | bareDict =>
    intro p
    rw [toData, decode]
    split
    · exact .ok _
    · rename_i hkeys
      rw [Bool.not_eq_true, List.all_eq_false, entriesToData_eq] at hkeys
      obtain ⟨w, hw, hplain⟩ := hkeys
      obtain ⟨e, he, rfl⟩ := List.mem_map.1 hw
      exact .error (hv.unshown_key he (by simpa using hplain))
  | dict hl hk _ ih | mapping hl hk _ ih =>
    intro p
    rw [toData, decode]
    exact (decodeEntries_rereads hl hv hk (fun hmem => ih hmem ⟨ht.1, ht.2⟩) p).bind fun _ _ => .ok _
  | @record c cls es fields hc hl hn hread hd ih =>
    refine decode_record_rereads hcat hagain hc hl hn hd
      (hdata (.record hc hl hn hread hd) ht hv) fun {f e v} hmem htold => ?_
    have hshape := (hcat _ _ hc).shapes f (List.of_mem_zip hmem).1
    exact ih hmem htold (hshape.mono False.elim) (hv.told htold)

/-- **What was read is read again**, however often instances are looked at. -/
theorem rereads (hcat : cat.Steady) (rounds : Nat) : Rereads cat rounds B C := by
  induction rounds using Nat.strongRecOn with
  | ind rounds ih => exact rereads_of hcat fun n hn => ih n (by omega)

/-- **Given data are read, or a part is wrong, or an integer in them is to blame; and what was
read can be read again from its own data**, but for such an integer. -/
theorem Catalog.Steady.decode_rereads (hcat : cat.Steady) {t : Shape} (ht : t.ordinary = true) {v : Value}
    (hv : v.Unread) (rounds : Nat) (strict : Bool) (p : Path) :
    (∀ e, decode cat rounds strict p t v = .error e →
      (∃ q problem, e = .wrong q problem) ∨ Excused (v.huge = true) (Veiled t v) e) ∧
    ∀ x, decode cat rounds strict p t v = .ok x → ∀ again q,
      (∃ y, decode cat again false q t (toData cat {} x) = .ok y) ∨
        ∃ e, decode cat again false q t (toData cat {} x) = .error e ∧
          Excused (v.huge = true) (Veiled t v) e := by
  have hasked : Asked (Veiled t v) t := ⟨ht, fun hnot => (not_veiled.1 hnot).1⟩
  have hgiven : Given (v.huge = true) (Veiled t v) v := ⟨hv, id, fun hnot => (not_veiled.1 hnot).2⟩
  refine ⟨decode_harmless hcat (fun n _ => rereads hcat n) hasked hgiven, fun x hx again q => ?_⟩
  have hagain := rereads (B := v.huge = true) hcat again (Reads.of_decode hx) hasked hgiven q
  cases hy : decode cat again false q t (toData cat {} x) with
  | ok y => exact .inl ⟨y, rfl⟩
  | error e => exact .inr ⟨e, rfl, hagain e hy⟩

namespace Catalog

theorem full_ordinary :
    ∀ cls ∈ full.classes, ∀ f ∈ cls.fields, f.shape.ordinary = true := by decide

theorem full_small : ∀ cls ∈ full.classes, ∀ f ∈ cls.fields,
    (f.default.all fun d => !(toData full {} d).huge) = true := by decide

theorem full_shows : full.Shows := by
  have hall : ∀ cls ∈ full.classes, ∀ f ∈ cls.fields,
      f.shape.shows = true ∧ f.default.all Value.shows = true := by decide +kernel
  intro c cls hc f hf
  obtain ⟨hshape, hdefault⟩ := hall cls (List.mem_of_find?_eq_some hc) f hf
  refine ⟨hshape, fun d hd => ?_⟩
  rwa [hd] at hdefault

theorem full_steady : full.Steady := by
  intro c cls hc
  have hsound := sound_of_check (full_check false)
  have hs := full_sound hc
  have hcls := List.mem_of_find?_eq_some hc
  have hshows := full_shows c cls hc
  refine ⟨hs.names, hs.keys, fun f hf => ⟨full_ordinary cls hcls f hf, fun _ => (hshows f hf).1⟩,
    fun f hf d hd => ⟨?_, fun hhuge => ?_, fun _ => shows_toData ((hshows f hf).2 d hd)⟩,
    fun f hf d hd rounds p => ?_⟩
  · exact ((hs.fits f hf d hd).toData_plain hsound (hs.shapes f hf)).1.unread
  · have hsmall := full_small cls hcls f hf
    rw [hd, Option.all_some, hhuge] at hsmall
    cases hsmall
  · obtain ⟨y, hy⟩ := (hs.fits f hf d hd).readsBack (o := {}) hsound rfl (hs.shapes f hf)
    exact ⟨y, hy.ok p⟩

/-- **Reading given data into a shape of the classes there are ends with a value or with a wrong
part**, or with an integer in the data that is too large for a floating point number, or with an
integer, in the data or in a literal of the shape, that has too many digits to be shown; and what
was read can be read again from its own data, loosely, but for such an integer.  However often
instances are looked at again, none is found invalid. -/
theorem full_rereads {t : Shape} (ht : t.ordinary = true) {v : Value} (hv : v.Unread)
    (rounds : Nat) (strict : Bool) (p : Path) :
    (∀ e, decode full rounds strict p t v = .error e →
      (∃ q problem, e = .wrong q problem) ∨
        e = .tooLarge ∧ v.huge = true ∨ e = .unshown ∧ Veiled t v) ∧
    ∀ x, decode full rounds strict p t v = .ok x → ∀ again q,
      (∃ y, decode full again false q t (toData full {} x) = .ok y) ∨
        ∃ e, decode full again false q t (toData full {} x) = .error e ∧
          (e = .tooLarge ∧ v.huge = true ∨ e = .unshown ∧ Veiled t v) :=
  full_steady.decode_rereads ht hv rounds strict p

/-- A choice whose first alternative has a floating point number where the second has an integer,
behind records that only strict reading tells apart. -/
def forked : Shape :=
  .union [.tuple [.record "Plain", .float], .tuple [.record "Options", .int]]

/-- Data for the second alternative of `forked`. -/
def forkedData (n : Int) : Value := .list [Value.table [("tab-size", .int 2)], .int n]

theorem forkedData_unread (n : Int) : (forkedData n).Unread := by
  have htable : (Value.table [("tab-size", .int 2)]).Unread := .dict (by simpa using .int 2)
  exact .list (by simpa using ⟨htable, .int n⟩)

/-- What `forkedData` is read as if unknown keys are refused. -/
def forkedValue (n : Int) : Value := .tuple [
  .record "Options" [("tab_size", .int 2), ("names", .list []), ("extra", .dict [])], .int n]

theorem fromDict_forked (n : Int) :
    fromDict full forked true (forkedData n) = .ok (forkedValue n) := by
  cbv

theorem decode_float_of_none {n : Int} (hn : Binary64.ofInt? n = none) :
    decode cat rounds strict p .float (.int n) = .error .tooLarge := by
  simp [decode, scalar?, scalar?.asFloat, hn]

/-- When unknown keys are ignored, `Plain` takes the table and a number has to follow. -/
theorem fromDict_forked_again {n : Int} (hn : Binary64.ofInt? n = none) :
    fromDict full forked false (toData full {} (forkedValue n)) = .error .tooLarge := by
  have hdata : toData full {} (forkedValue n) = .list [Value.table
      [("tab-size", .int 2), ("names", .list []), ("extra", .dict [])], .int n] := by cbv
  have hplain (p : Path) : decode full lookTwice false p (.record "Plain") (Value.table
      [("tab-size", .int 2), ("names", .list []), ("extra", .dict [])]) =
        .ok (.record "Plain" [("snake_case", .int 0), ("other_name", .str "x"), ("hidden", .int 7)]) := by
    cbv
  have hfirst : decode full lookTwice false [] (.tuple [.record "Plain", .float])
      (.list [Value.table [("tab-size", .int 2), ("names", .list []), ("extra", .dict [])], .int n]) =
        .error .tooLarge := by
    rw [decode, decodeAllOf]
    simp [decodeEach, hplain, decode_float_of_none hn, bind, Except.bind]
  rw [hdata, fromDict, forked, decode, decodeFirst, hfirst]
  rfl

theorem full_rereads_forked :
    decode full lookTwice true [] forked (forkedData 7) = .ok (forkedValue 7) ∧
      ∃ y, decode full lookTwice false [] forked (toData full {} (forkedValue 7)) = .ok y := by
  have hread : decode full lookTwice true [] forked (forkedData 7) = .ok (forkedValue 7) :=
    fromDict_forked 7
  obtain ⟨-, hagain⟩ := full_rereads (t := forked) rfl (forkedData_unread 7) lookTwice true []
  refine ⟨hread, (hagain _ hread lookTwice []).resolve_right ?_⟩
  rintro ⟨e, -, ⟨-, hhuge⟩ | ⟨-, hveiled⟩⟩
  · exact absurd hhuge (by decide)
  · exact not_veiled.2 ⟨by decide, by decide +kernel⟩ hveiled

/-- An integer beyond the floating point numbers. -/
def beyond : Int := 2 ^ 1024

theorem ofInt?_beyond : Binary64.ofInt? beyond = none := by decide +kernel

theorem not_full_rereads_beyond :
    fromDict full forked true (forkedData beyond) = .ok (forkedValue beyond) ∧
      fromDict full forked false (toData full {} (forkedValue beyond)) = .error .tooLarge ∧
      fromDict full .float true (.int beyond) = .error .tooLarge := by
  exact ⟨fromDict_forked beyond, fromDict_forked_again ofInt?_beyond,
    decode_float_of_none ofInt?_beyond⟩

end Catalog

end Schema

end EditorBridge
