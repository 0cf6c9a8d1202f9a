/-
What it means that data are read into a shape.

The decoder is eight functions with a bound on how often instances are looked at again, a path
for its errors and a switch for unknown keys.  None of these three decides what comes out if
something does.  `Reads` is the relation between data and results that is left without them:
one constructor for each kind of shape.  Whatever the decoder accepts stands in this relation
(`Reads.of_decode`), so what holds of all results is proved by induction on it.

The helpers of the decoder are taken first, each as a statement about its whole list.
-/
import EditorBridge.Proofs.Params
import EditorBridge.Proofs.Value.Plain
import EditorBridge.Schema.Decode

namespace EditorBridge.Schema

variable {cat : Catalog} {rounds : Nat} {strict : Bool} {p : Path}

/-- The items of a list or of a tuple. -/
def items? : Value → Option (List Value)
  | .list vs | .tuple vs => some vs
  | _ => none

theorem sizeOf_items {v : Value} {vs : List Value} (h : items? v = some vs) :
    sizeOf vs < sizeOf v := by
  unfold items? at h
  split at h <;> simp_all

/-- What a table says about a field of a record. -/
def RecordClass.told? (cls : RecordClass) (es : List (Value × Value)) (f : Field) :
    Option Value :=
  if f.given then (valueAt? (cls.keyOf f) es).map (·.1) else none

/-- As the decoder looks the field up. -/
theorem RecordClass.told?_eq (cls : RecordClass) (es : List (Value × Value)) (f : Field) :
    cls.told? es f = (if f.given then valueAt? (cls.keyOf f) es else none).map (·.1) := by
  unfold told?
  split <;> rfl

theorem RecordClass.sizeOf_told {cls : RecordClass} {es : List (Value × Value)} {f : Field}
    {v : Value} (h : cls.told? es f = some v) : sizeOf v < sizeOf es := by
  unfold told? at h
  split at h
  · obtain ⟨⟨w, hw⟩, -, rfl⟩ := Option.map_eq_some_iff.1 h
    exact hw
  · cases h

/-- What a table says about a field is one of its entries. -/
theorem RecordClass.exists_mem_of_told {cls : RecordClass} {es : List (Value × Value)}
    {f : Field} {v : Value} (h : cls.told? es f = some v) : ∃ k, (k, v) ∈ es := by
  unfold told? at h
  split at h
  · induction es with
    | nil => simp [valueAt?] at h
    | cons e es ih =>
      obtain ⟨k, w⟩ := e
      unfold valueAt? at h
      split at h
      · cases h
        exact ⟨k, List.mem_cons_self⟩
      · rw [Option.map_map] at h
        obtain ⟨k, hk⟩ := ih h
        exact ⟨k, List.mem_cons_of_mem _ hk⟩
  · cases h

/-- Data that are read into a shape, and what comes out. -/
inductive Reads (cat : Catalog) : Shape → Value → Value → Prop
  | scalar {t : Shape} {v x : Value} (h : scalar? t v = some (.ok x)) : Reads cat t v x
  | union {ts : List Shape} {t : Shape} {v x : Value} (ht : t ∈ ts) (h : Reads cat t v x) :
    Reads cat (.union ts) v x
  | literal {options : List Value} {o v : Value} (ho : o ∈ options) (h : v.same o = true) :
    Reads cat (.literal options) v v
  | list {t : Shape} {v : Value} {vs xs : List Value} (hv : items? v = some vs)
    (hl : vs.length = xs.length) (h : ∀ {a b}, (a, b) ∈ vs.zip xs → Reads cat t a b) :
    Reads cat (.list t) v (.list xs)
  | sequence {t : Shape} {v : Value} {vs xs : List Value} (hv : items? v = some vs)
    (hl : vs.length = xs.length) (h : ∀ {a b}, (a, b) ∈ vs.zip xs → Reads cat t a b) :
    Reads cat (.sequence t) v (.list xs)
  | tupleOf {t : Shape} {v : Value} {vs xs : List Value} (hv : items? v = some vs)
    (hl : vs.length = xs.length) (h : ∀ {a b}, (a, b) ∈ vs.zip xs → Reads cat t a b) :
    Reads cat (.tupleOf t) v (.tuple xs)
  | tuple {ts : List Shape} {v : Value} {vs xs : List Value} (hv : items? v = some vs)
    (ht : ts.length = vs.length) (hl : vs.length = xs.length)
    (h : ∀ {t a b}, (t, a, b) ∈ ts.zip (vs.zip xs) → Reads cat t a b) :
    Reads cat (.tuple ts) v (.tuple xs)
  | anyTuple {v : Value} {vs : List Value} (hv : items? v = some vs) :
    Reads cat (.tuple []) v (.tuple vs)
  | bareList {v : Value} {vs : List Value} (hv : items? v = some vs) :
    Reads cat .bareList v (.list vs)
  | bareTuple {v : Value} {vs : List Value} (hv : items? v = some vs) :
    Reads cat .bareTuple v (.list vs)
  | bareDict {es : List (Value × Value)} : Reads cat .bareDict (.dict es) (.dict es)
  | dict {k t : Shape} {es xs : List (Value × Value)} (hl : es.length = xs.length)
    (hk : ∀ {a b}, (a, b) ∈ es.zip xs → b.1 = a.1)
    (h : ∀ {a b}, (a, b) ∈ es.zip xs → Reads cat t a.2 b.2) :
    Reads cat (.dict k t) (.dict es) (.dict xs)
  | mapping {k t : Shape} {es xs : List (Value × Value)} (hl : es.length = xs.length)
    (hk : ∀ {a b}, (a, b) ∈ es.zip xs → b.1 = a.1)
    (h : ∀ {a b}, (a, b) ∈ es.zip xs → Reads cat t a.2 b.2) :
    Reads cat (.mapping k t) (.dict es) (.dict xs)
  /-- A field has what the table says about it, and otherwise its default. -/
  | record {c : String} {cls : RecordClass} {es : List (Value × Value)}
    {fields : List (String × Value)} (hc : cat.find? c = some cls)
    (hl : cls.fields.length = fields.length)
    (hn : ∀ {f e}, (f, e) ∈ cls.fields.zip fields → e.1 = f.name)
    (h : ∀ {f e v}, (f, e) ∈ cls.fields.zip fields → cls.told? es f = some v →
      Reads cat f.shape v e.2)
    (hd : ∀ {f e}, (f, e) ∈ cls.fields.zip fields → cls.told? es f = none →
      f.default = some e.2) :
    Reads cat (.record c) (.dict es) (.record c fields)

/-! ### Lists side by side -/

section Zip

variable {α β γ : Type} {xs : List α} {ys : List β} {zs : List γ}

theorem exists_mem_zip (hl : xs.length = ys.length) {y : β} (hy : y ∈ ys) :
    ∃ x, (x, y) ∈ xs.zip ys := by
  obtain ⟨i, hi, rfl⟩ := List.getElem_of_mem hy
  refine ⟨xs[i], List.mem_iff_getElem.2 ⟨i, ?_, List.getElem_zip⟩⟩
  rw [List.length_zip]
  omega

theorem exists_mem_zip_zip (hl : xs.length = ys.length) (hl' : ys.length = zs.length) {x : α}
    {z : γ} (h : (x, z) ∈ xs.zip zs) : ∃ y, (x, y, z) ∈ xs.zip (ys.zip zs) := by
  obtain ⟨i, hi, heq⟩ := List.getElem_of_mem h
  rw [List.length_zip] at hi
  rw [List.getElem_zip] at heq
  cases heq
  refine ⟨ys[i], List.mem_iff_getElem.2 ⟨i, ?_, ?_⟩⟩
  · rw [List.length_zip, List.length_zip]
    omega
  · rw [List.getElem_zip, List.getElem_zip]

theorem exists_mem_zip_of_mem (hl : xs.length = ys.length) (hl' : ys.length = zs.length) {z : γ}
    (hz : z ∈ zs) : ∃ x y, (x, y, z) ∈ xs.zip (ys.zip zs) := by
  obtain ⟨y, hy⟩ := exists_mem_zip hl' hz
  obtain ⟨x, hx⟩ := exists_mem_zip (hl.trans (by simp [List.length_zip, hl'])) hy
  exact ⟨x, y, hx⟩

end Zip

/-! ### The helpers of the decoder -/

section Helpers

attribute [local simp] decodeItems decodeEntries decodeEach decodeFields decodeFirst

theorem decodeItems_ok {t : Shape} {vs xs : List Value} {i : Nat}
    (h : decodeItems cat rounds strict p t i vs = .ok xs) :
    List.Forall₂ (fun v x => ∃ p, decode cat rounds strict p t v = .ok x) vs xs := by
  induction vs generalizing i xs with
  | nil =>
    obtain rfl : xs = [] := by simpa using h
    exact .nil
  | cons v vs ih =>
    rw [decodeItems] at h
    obtain ⟨x, hx, h⟩ := bind_ok_iff.1 h
    obtain ⟨xs, hxs, h⟩ := bind_ok_iff.1 h
    cases h
    exact .cons ⟨_, hx⟩ (ih hxs)

theorem decodeEntries_ok {t : Shape} {es xs : List (Value × Value)}
    (h : decodeEntries cat rounds strict p t es = .ok xs) :
    List.Forall₂ (fun e x => x.1 = e.1 ∧ ∃ p, decode cat rounds strict p t e.2 = .ok x.2)
      es xs := by
  induction es generalizing xs with
  | nil =>
    obtain rfl : xs = [] := by simpa using h
    exact .nil
  | cons e es ih =>
    rw [decodeEntries] at h
    split at h
    · obtain ⟨x, hx, h⟩ := bind_ok_iff.1 h
      obtain ⟨xs, hxs, h⟩ := bind_ok_iff.1 h
      cases h
      exact .cons ⟨rfl, _, hx⟩ (ih hxs)
    · cases h

theorem decodeEach_ok {ts : List Shape} {vs xs : List Value} {i : Nat}
    (hl : ts.length = vs.length) (h : decodeEach cat rounds strict p i ts vs = .ok xs) :
    vs.length = xs.length ∧ ∀ {t a b}, (t, a, b) ∈ ts.zip (vs.zip xs) →
      ∃ p, decode cat rounds strict p t a = .ok b := by
  induction ts generalizing i vs xs with
  | nil =>
    rw [List.length_nil, eq_comm, List.length_eq_zero_iff] at hl
    subst hl
    obtain rfl : xs = [] := by simpa using h
    exact ⟨rfl, by simp⟩
  | cons t ts ih =>
    cases vs with
    | nil => cases hl
    | cons v vs =>
      rw [decodeEach] at h
      obtain ⟨x, hx, h⟩ := bind_ok_iff.1 h
      obtain ⟨xs, hxs, h⟩ := bind_ok_iff.1 h
      cases h
      obtain ⟨hlen, hall⟩ := ih (by simpa using hl) hxs
      refine ⟨congrArg (· + 1) hlen, fun hmem => ?_⟩
      rw [List.zip_cons_cons, List.zip_cons_cons, List.mem_cons] at hmem
      obtain h | hmem := hmem
      · cases h
        exact ⟨_, hx⟩
      · exact hall hmem

/-- One field of a record is read. -/
def FieldReads (cat : Catalog) (rounds : Nat) (strict : Bool) (cls : RecordClass)
    (es : List (Value × Value)) (f : Field) (e : String × Value) : Prop :=
  e.1 = f.name ∧ match cls.told? es f with
    | some v => ∃ p, decode cat rounds strict p f.shape v = .ok e.2
    | none => f.default = some e.2

theorem decodeFields_ok {cls : RecordClass} {fs : List Field} {es : List (Value × Value)}
    {fields : List (String × Value)}
    (h : decodeFields cat rounds strict p cls fs es = .ok fields) :
    List.Forall₂ (FieldReads cat rounds strict cls es) fs fields := by
  induction fs generalizing fields with
  | nil =>
    obtain rfl : fields = [] := by simpa using h
    exact .nil
  | cons f fs ih =>
    rw [decodeFields] at h
    have htold := cls.told?_eq es f
    split at h
    · obtain ⟨x, hx, h⟩ := bind_ok_iff.1 h
      obtain ⟨rest, hrest, h⟩ := bind_ok_iff.1 h
      cases h
      refine .cons ⟨rfl, ?_⟩ (ih hrest)
      rw [htold, ‹(if f.given then _ else _) = some _›]
      exact ⟨_, hx⟩
    · split at h
      · obtain ⟨x, hx, h⟩ := bind_ok_iff.1 h
        obtain ⟨rest, hrest, h⟩ := bind_ok_iff.1 h
        cases hx
        cases h
        refine .cons ⟨rfl, ?_⟩ (ih hrest)
        rw [htold, ‹(if f.given then _ else _) = none›]
        assumption
      · cases h

theorem decodeFirst_ok {ts : List Shape} {v x : Value}
    (h : decodeFirst cat rounds strict p ts v = .ok (some x)) :
    ∃ t ∈ ts, decode cat rounds strict p t v = .ok x := by
  induction ts with
  | nil => simp at h
  | cons t ts ih =>
    have hrest (h : decodeFirst cat rounds strict p ts v = .ok (some x)) :
        ∃ t' ∈ t :: ts, decode cat rounds strict p t' v = .ok x := by
      obtain ⟨t', ht, h⟩ := ih h
      exact ⟨t', List.mem_cons_of_mem _ ht, h⟩
    rw [decodeFirst] at h
    split at h
    · cases h
      exact ⟨t, List.mem_cons_self, ‹_›⟩
    · exact hrest h
    · exact hrest h
    · exact hrest h
    · cases h

end Helpers

/-! ### The decoder -/

/-- An instance that is accepted has its fields from the table or from the class. -/
theorem decode_record_ok {c : String} {es : List (Value × Value)} {x : Value}
    (h : decode cat rounds strict p (.record c) (.dict es) = .ok x) :
    ∃ cls fields, cat.find? c = some cls ∧ x = .record c fields ∧
      List.Forall₂ (FieldReads cat rounds strict cls es) cls.fields fields := by
  rw [decode] at h
  split at h
  · cases h
  · rename_i cls hc
    dsimp only at h
    split at h
    · cases h
    · obtain ⟨fields, hfields, h⟩ := bind_ok_iff.1 h
      refine ⟨cls, fields, hc, ?_, decodeFields_ok hfields⟩
      split at h
      · cases h
        rfl
      · split at h
        · obtain ⟨es, -, h⟩ := bind_ok_iff.1 h
          split at h
          · cases h
            rfl
          · cases h
        · cases h
          rfl

/-- What becomes of items, if whatever is accepted of them is read. -/
theorem items_read {t : Shape} {vs : List Value} {make : List Value → Value} {x : Value}
    (hitem : ∀ w ∈ vs, ∀ {p t x}, decode cat rounds strict p t w = .ok x → Reads cat t w x)
    (h : (decodeItems cat rounds strict p t 0 vs >>= fun xs => .ok (make xs)) = .ok x) :
    ∃ xs, x = make xs ∧ vs.length = xs.length ∧ ∀ {a b}, (a, b) ∈ vs.zip xs → Reads cat t a b := by
  obtain ⟨xs, hxs, h⟩ := bind_ok_iff.1 h
  cases h
  obtain ⟨hl, hall⟩ := List.forall₂_iff_zip.1 (decodeItems_ok hxs)
  refine ⟨xs, rfl, hl, fun hmem => ?_⟩
  obtain ⟨p', hp⟩ := hall hmem
  exact hitem _ (List.of_mem_zip hmem).1 hp

/-- What becomes of entries, if whatever is accepted of their values is read. -/
theorem entries_read {t : Shape} {es : List (Value × Value)} {x : Value}
    (hentry : ∀ e ∈ es, ∀ {p t x}, decode cat rounds strict p t e.2 = .ok x → Reads cat t e.2 x)
    (h : (decodeEntries cat rounds strict p t es >>= fun xs => .ok (.dict xs)) = .ok x) :
    ∃ xs, x = .dict xs ∧ es.length = xs.length ∧ (∀ {a b}, (a, b) ∈ es.zip xs → b.1 = a.1) ∧
      ∀ {a b}, (a, b) ∈ es.zip xs → Reads cat t a.2 b.2 := by
  obtain ⟨xs, hxs, h⟩ := bind_ok_iff.1 h
  cases h
  obtain ⟨hl, hall⟩ := List.forall₂_iff_zip.1 (decodeEntries_ok hxs)
  refine ⟨xs, rfl, hl, fun hmem => (hall hmem).1, fun {a b} hmem => ?_⟩
  obtain ⟨-, p', hp⟩ := hall hmem
  exact hentry _ (List.of_mem_zip hmem).1 hp

/-- What becomes of items each of which has a shape of its own. -/
theorem tuple_read {ts : List Shape} {v x : Value} {vs : List Value} (hv : items? v = some vs)
    (hitem : ∀ w ∈ vs, ∀ {p t x}, decode cat rounds strict p t w = .ok x → Reads cat t w x)
    (h : decodeAllOf cat rounds strict p ts vs = .ok x) : Reads cat (.tuple ts) v x := by
  rw [decodeAllOf] at h
  split at h
  · cases h
    rw [List.isEmpty_iff.1 ‹ts.isEmpty = true›]
    exact .anyTuple hv
  · split at h
    · cases h
    · obtain ⟨xs, hxs, h⟩ := bind_ok_iff.1 h
      cases h
      have hlen := Decidable.not_not.1 ‹¬ts.length ≠ vs.length›
      obtain ⟨hl, hall⟩ := decodeEach_ok hlen hxs
      refine .tuple hv hlen hl fun hmem => ?_
      obtain ⟨p', hp⟩ := hall hmem
      exact hitem _ (List.of_mem_zip (List.of_mem_zip hmem).2).1 hp

/-- **Whatever the decoder accepts is read.** -/
theorem Reads.of_decode {p : Path} {t : Shape} {v x : Value}
    (h : decode cat rounds strict p t v = .ok x) : Reads cat t v x := by
  -- the decoder goes to parts of the value, or stays with the value and opens the shape
  have hitem {vs : List Value} (hv : items? v = some vs) (w : Value) (hw : w ∈ vs) {p : Path}
      {t' : Shape} {x : Value} (h : decode cat rounds strict p t' w = .ok x) : Reads cat t' w x := by
    have := sizeOf_items hv
    have := List.sizeOf_lt_of_mem hw
    exact Reads.of_decode h
  have hentry {es : List (Value × Value)} (hv : v = .dict es) (e : Value × Value)
      (he : e ∈ es) {p : Path} {t' : Shape} {x : Value}
      (h : decode cat rounds strict p t' e.2 = .ok x) : Reads cat t' e.2 x := by
    have : sizeOf es < sizeOf v := by simp [hv]
    have := List.sizeOf_lt_of_mem he
    have : sizeOf e.2 < sizeOf e := by
      obtain ⟨k, w⟩ := e
      simp only [Prod.mk.sizeOf_spec]
      omega
    exact Reads.of_decode h
  unfold decode at h
  split at h
  · -- a choice
    obtain ⟨r, hr, h⟩ := bind_ok_iff.1 h
    split at h
    · cases h
      obtain ⟨t', ht, hx⟩ := decodeFirst_ok hr
      have := List.sizeOf_lt_of_mem ht
      exact .union ht (Reads.of_decode hx)
    · cases h
  · -- one of some scalars
    split at h
    · cases h
      obtain ⟨o, ho, hs⟩ := List.any_eq_true.1 ‹_›
      exact .literal ho hs
    · cases h
  · -- a record
    rename_i c es
    obtain ⟨cls, fields, hc, rfl, hfields⟩ := decode_record_ok (by rw [decode]; exact h)
    obtain ⟨hl, hall⟩ := List.forall₂_iff_zip.1 hfields
    refine .record hc hl (fun hmem => (hall hmem).1) (fun {f e v} hmem hv => ?_)
      fun {f e} hmem hnone => ?_
    · obtain ⟨-, hread⟩ := hall hmem
      rw [hv] at hread
      obtain ⟨p', hp⟩ := hread
      have := RecordClass.sizeOf_told hv
      exact Reads.of_decode hp
    · obtain ⟨-, hread⟩ := hall hmem
      rw [hnone] at hread
      exact hread
  · cases h
  · -- tables
    obtain ⟨xs, rfl, hl, hk, hall⟩ := entries_read (hentry rfl) h
    exact .dict hl hk hall
  · obtain ⟨xs, rfl, hl, hk, hall⟩ := entries_read (hentry rfl) h
    exact .mapping hl hk hall
  · split at h <;> cases h
    exact .bareDict
  · -- sequences, each of which may be given as a list or as a tuple
    obtain ⟨xs, rfl, hl, hall⟩ := items_read (hitem rfl) h
    exact .list rfl hl hall
  · obtain ⟨xs, rfl, hl, hall⟩ := items_read (hitem rfl) h
    exact .list rfl hl hall
  · obtain ⟨xs, rfl, hl, hall⟩ := items_read (hitem rfl) h
    exact .sequence rfl hl hall
  · obtain ⟨xs, rfl, hl, hall⟩ := items_read (hitem rfl) h
    exact .sequence rfl hl hall
  · obtain ⟨xs, rfl, hl, hall⟩ := items_read (hitem rfl) h
    exact .tupleOf rfl hl hall
  · obtain ⟨xs, rfl, hl, hall⟩ := items_read (hitem rfl) h
    exact .tupleOf rfl hl hall
  · cases h
    exact .bareList rfl
  · cases h
    exact .bareList rfl
  · cases h
    exact .bareTuple rfl
  · cases h
    exact .bareTuple rfl
  · exact tuple_read rfl (hitem rfl) h
  · exact tuple_read rfl (hitem rfl) h
  · -- scalars
    split at h
    · subst h
      exact .scalar ‹_›
    · cases h
termination_by (sizeOf v, sizeOf t)
decreasing_by
  all_goals first | omega | (subst_vars; simp; omega)

end EditorBridge.Schema
