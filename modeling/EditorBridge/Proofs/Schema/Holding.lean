/-
Of which shape a value is that was read.

`Holds` says what it is to be a value of a shape: element by element, key by key, field by field.
What the decoder gives is such a value, but for what it does not look at (`holds_of_fromDict`):
the keys of tables are those of the data, whatever the shape says of keys; a tuple without shapes
for its items is any sequence, and comes out as a list if the shape is the bare one; and a field
that is not told has the default of its class.

That much is allowed by a `Leeway`.  For shapes without bare tuples, with keys of the data that
suit the shapes of keys, and with defaults that suit their fields, nothing of it is made use of,
and what was read is a value of the shape without any leeway (`Holds.exact`).

The first is proved by induction on how the value was read, the second by induction on how it is a
value of its shape.
-/
import EditorBridge.Proofs.Schema.Catalogs

namespace EditorBridge

/-- A key of a table that is a value or an element of it. -/
inductive Value.HasKey : Value → Value → Prop
  | table {es : List (Value × Value)} {e : Value × Value} (he : e ∈ es) : HasKey (.dict es) e.1
  | entry {es : List (Value × Value)} {e : Value × Value} {k : Value} (he : e ∈ es)
    (h : HasKey e.2 k) : HasKey (.dict es) k
  | list {vs : List Value} {v k : Value} (hv : v ∈ vs) (h : HasKey v k) : HasKey (.list vs) k
  | tuple {vs : List Value} {v k : Value} (hv : v ∈ vs) (h : HasKey v k) : HasKey (.tuple vs) k

namespace Schema

variable {cat : Catalog} {rounds : Nat} {strict : Bool} {p : Path}

/-- What is let through where a shape would refuse it. -/
structure Leeway where
  /-- The keys of tables that may be any. -/
  key : Value → Prop
  /-- Whether tuples without shapes for their items may be longer, and lists. -/
  tuple : Prop
  /-- Whether a field may have its default, of whatever shape that is. -/
  default : Prop

namespace Leeway

def none : Leeway := ⟨fun _ => False, False, False⟩

/-- What is let through when a value is read. -/
def ofRead (v : Value) : Leeway := ⟨v.HasKey, True, True⟩

end Leeway

/-- A value of a shape, with some leeway. -/
inductive Holds (cat : Catalog) (l : Leeway) : Shape → Value → Prop
  | any (v : Value) : Holds cat l .any v
  | null : Holds cat l .null .null
  | bool (b : Bool) : Holds cat l .bool (.bool b)
  | int (n : Int) : Holds cat l .int (.int n)
  | number (e m : String) (n : Int) : Holds cat l .int (.member e m true (.int n))
  | float (x : Binary64) : Holds cat l .float (.float x)
  | str (s : String) : Holds cat l .str (.str s)
  | list {t : Shape} {xs : List Value} (h : ∀ x ∈ xs, Holds cat l t x) :
    Holds cat l (.list t) (.list xs)
  | sequence {t : Shape} {v : Value} {xs : List Value} (hv : items? v = some xs)
    (h : ∀ x ∈ xs, Holds cat l t x) : Holds cat l (.sequence t) v
  | tupleOf {t : Shape} {xs : List Value} (h : ∀ x ∈ xs, Holds cat l t x) :
    Holds cat l (.tupleOf t) (.tuple xs)
  | tuple {ts : List Shape} {xs : List Value} (hl : ts.length = xs.length)
    (h : ∀ {t x}, (t, x) ∈ ts.zip xs → Holds cat l t x) : Holds cat l (.tuple ts) (.tuple xs)
  | longTuple (hl : l.tuple) (xs : List Value) : Holds cat l (.tuple []) (.tuple xs)
  | dict {k t : Shape} {es : List (Value × Value)}
    (hk : ∀ e ∈ es, ¬l.key e.1 → Holds cat l k e.1) (h : ∀ e ∈ es, Holds cat l t e.2) :
    Holds cat l (.dict k t) (.dict es)
  | mapping {k t : Shape} {es : List (Value × Value)}
    (hk : ∀ e ∈ es, ¬l.key e.1 → Holds cat l k e.1) (h : ∀ e ∈ es, Holds cat l t e.2) :
    Holds cat l (.mapping k t) (.dict es)
  | bareList (xs : List Value) : Holds cat l .bareList (.list xs)
  | bareTuple (xs : List Value) : Holds cat l .bareTuple (.tuple xs)
  | listForTuple (hl : l.tuple) (xs : List Value) : Holds cat l .bareTuple (.list xs)
  | bareDict (es : List (Value × Value)) : Holds cat l .bareDict (.dict es)
  | union {ts : List Shape} {t : Shape} {x : Value} (ht : t ∈ ts) (h : Holds cat l t x) :
    Holds cat l (.union ts) x
  | literal {options : List Value} {o v : Value} (ho : o ∈ options) (h : v.same o = true) :
    Holds cat l (.literal options) v
  | enumeration {e : Enumeration} {m : String × Value} (hm : m ∈ e.members) :
    Holds cat l (.enumeration e) (e.member m)
  /-- An instance has the fields of its class, in their order. -/
  | record {c : String} {cls : RecordClass} {fields : List (String × Value)}
    (hc : cat.find? c = some cls) (hl : cls.fields.length = fields.length)
    (hn : ∀ {f e}, (f, e) ∈ cls.fields.zip fields → e.1 = f.name)
    (h : ∀ {f e}, (f, e) ∈ cls.fields.zip fields → ¬(l.default ∧ f.default = some e.2) →
      Holds cat l f.shape e.2) : Holds cat l (.record c) (.record c fields)
  | typed {n : String} {v : Value} (h : (n == "object" || v.typeName == n) = true) :
    Holds cat l (.typed n) v

/-! ### What is read is a value of the shape but for the leeway -/

theorem Holds.of_scalar {l : Leeway} {t : Shape} {v x : Value}
    (h : scalar? t v = some (.ok x)) : Holds cat l t x := by
  unfold scalar? at h
  split at h
  · cases h
    exact .any _
  · cases h
    exact .null
  · cases h
    exact .bool _
  · cases h
    exact .int _
  · cases h
    exact .number _ _ _
  · cases h
    exact .float _
  · unfold scalar?.asFloat at h
    split at h <;> cases h
    exact .float _
  · unfold scalar?.asFloat at h
    split at h <;> cases h
    exact .float _
  · cases h
    exact .str _
  · obtain ⟨y, hy, hx⟩ := Option.map_eq_some_iff.1 h
    cases hx
    obtain ⟨m, hm, rfl⟩ := Enumeration.exists_of_find? hy
    exact .enumeration hm
  · split at h <;> cases h
    exact .typed ‹_›
  · cases h

theorem hasKey_of_items {v w k : Value} {vs : List Value} (hv : items? v = some vs) (hw : w ∈ vs)
    (h : w.HasKey k) : v.HasKey k := by
  unfold items? at hv
  split at hv <;> cases hv
  · exact .list hw h
  · exact .tuple hw h

/-- **What is read is a value of the shape**, but for keys, tuples without shapes and defaults. -/
theorem Reads.holds {l : Leeway} {t : Shape} {v x : Value} (h : Reads cat t v x)
    (htuple : l.tuple) (hdefault : l.default) (hkey : ∀ k, v.HasKey k → l.key k) :
    Holds cat l t x := by
  have hitems {t : Shape} {v : Value} {vs xs : List Value} (hvs : items? v = some vs)
      (hl : vs.length = xs.length) (hkey : ∀ k, v.HasKey k → l.key k)
      (ih : ∀ {a b}, (a, b) ∈ vs.zip xs → (∀ k, a.HasKey k → l.key k) → Holds cat l t b) :
      ∀ x ∈ xs, Holds cat l t x := by
    intro x hx
    obtain ⟨a, hmem⟩ := exists_mem_zip hl hx
    exact ih hmem fun k hk => hkey k (hasKey_of_items hvs (List.of_mem_zip hmem).1 hk)
  have hentries {t : Shape} {es xs : List (Value × Value)} (hl : es.length = xs.length)
      (hkey : ∀ k, (Value.dict es).HasKey k → l.key k)
      (hk : ∀ {a b}, (a, b) ∈ es.zip xs → b.1 = a.1)
      (ih : ∀ {a b}, (a, b) ∈ es.zip xs → (∀ k, a.2.HasKey k → l.key k) → Holds cat l t b.2) :
      ∀ e ∈ xs, l.key e.1 ∧ Holds cat l t e.2 := by
    intro e he
    obtain ⟨a, hmem⟩ := exists_mem_zip hl he
    have ha := (List.of_mem_zip hmem).1
    rw [hk hmem]
    exact ⟨hkey _ (.table ha), ih hmem fun k hk => hkey k (.entry ha hk)⟩
  induction h with
  | scalar h => exact .of_scalar h
  | union ht _ ih => exact .union ht (ih hkey)
  | literal ho hs => exact .literal ho hs
  | list hvs hl _ ih => exact .list (hitems hvs hl hkey ih)
  | sequence hvs hl _ ih => exact .sequence rfl (hitems hvs hl hkey ih)
  | tupleOf hvs hl _ ih => exact .tupleOf (hitems hvs hl hkey ih)
  | tuple hvs hlt hl _ ih =>
    refine .tuple (hlt.trans hl) fun {t x} hx => ?_
    obtain ⟨a, hmem⟩ := exists_mem_zip_zip hlt hl hx
    exact ih hmem fun k hk =>
      hkey k (hasKey_of_items hvs (List.of_mem_zip (List.of_mem_zip hmem).2).1 hk)
  | anyTuple => exact .longTuple htuple _
  | bareList => exact .bareList _
  | bareTuple => exact .listForTuple htuple _
  | bareDict => exact .bareDict _
  | dict hl hk _ ih =>
    have hxs := hentries hl hkey hk ih
    exact .dict (fun e he hnot => absurd (hxs e he).1 hnot) fun e he => (hxs e he).2
  | mapping hl hk _ ih =>
    have hxs := hentries hl hkey hk ih
    exact .mapping (fun e he hnot => absurd (hxs e he).1 hnot) fun e he => (hxs e he).2
  | record hc hl hn _ hd ih =>
    refine .record hc hl hn fun {f e} hmem hnot => ?_
    cases htold : RecordClass.told? _ _ f with
    | some v =>
      obtain ⟨k, hk⟩ := RecordClass.exists_mem_of_told htold
      exact ih hmem htold fun k' hk' => hkey k' (.entry hk hk')
    | none => exact absurd ⟨hdefault, hd hmem htold⟩ hnot

/-! ### Without leeway -/

mutual

/-- Whether a shape has no tuples without shapes for their items, and accepted shapes for the keys
of its tables. -/
def Shape.tight (key : Shape → Bool) : Shape → Bool
  | .bareTuple => false
  | .list t | .sequence t | .tupleOf t => t.tight key
  | .tuple ts => !ts.isEmpty && Shape.allTight key ts
  | .union ts => Shape.allTight key ts
  | .dict k t | .mapping k t => key k && k.tight key && t.tight key
  | _ => true

def Shape.allTight (key : Shape → Bool) : List Shape → Bool
  | [] => true
  | t :: ts => t.tight key && Shape.allTight key ts

end

theorem Shape.allTight_iff {key : Shape → Bool} {ts : List Shape} :
    Shape.allTight key ts = true ↔ ∀ t ∈ ts, t.tight key = true := by
  induction ts with
  | nil => simp [Shape.allTight]
  | cons t ts ih => simp [Shape.allTight, ih]

/-- A catalog of such shapes with defaults that are values of the shapes of their fields. -/
structure Catalog.Tight (cat : Catalog) (key : Shape → Bool) : Prop where
  shapes : ∀ c cls, cat.find? c = some cls → ∀ f ∈ cls.fields, f.shape.tight key = true
  defaults : ∀ c cls, cat.find? c = some cls → ∀ f ∈ cls.fields, ∀ d, f.default = some d →
    Holds cat .none f.shape d

/-- **Where there is nothing to let through, a value with leeway is one without.** -/
theorem Holds.exact {l : Leeway} {key : Shape → Bool} (hcat : cat.Tight key)
    (hkey : ∀ k, key k = true → ∀ v, l.key v → Holds cat .none k v) {t : Shape} {x : Value}
    (h : Holds cat l t x) (ht : t.tight key = true) : Holds cat .none t x := by
  have hkeys {k t : Shape} {es : List (Value × Value)}
      (ih : ∀ e ∈ es, ¬l.key e.1 → k.tight key = true → Holds cat .none k e.1)
      (ht : (key k && k.tight key && t.tight key) = true) :
      ∀ e ∈ es, ¬Leeway.none.key e.1 → Holds cat .none k e.1 := by
    intro e he _
    rw [Bool.and_eq_true, Bool.and_eq_true] at ht
    by_cases hl : l.key e.1
    · exact hkey k ht.1.1 _ hl
    · exact ih e he hl ht.1.2
  have hvalues {k t : Shape} {es : List (Value × Value)}
      (ih : ∀ e ∈ es, t.tight key = true → Holds cat .none t e.2)
      (ht : (key k && k.tight key && t.tight key) = true) : ∀ e ∈ es, Holds cat .none t e.2 :=
    fun e he => ih e he (Bool.and_eq_true _ _ ▸ ht).2
  induction h with
  | any v => exact .any v
  | null => exact .null
  | bool b => exact .bool b
  | int n => exact .int n
  | number e m n => exact .number e m n
  | float x => exact .float x
  | str s => exact .str s
  | list _ ih => exact .list fun x hx => ih x hx ht
  | sequence hv _ ih => exact .sequence hv fun x hx => ih x hx ht
  | tupleOf _ ih => exact .tupleOf fun x hx => ih x hx ht
  | tuple hl _ ih =>
    rw [Shape.tight, Bool.and_eq_true, Shape.allTight_iff] at ht
    exact .tuple hl fun hmem => ih hmem (ht.2 _ (List.of_mem_zip hmem).1)
  | longTuple => cases ht
  | dict _ _ ihk ih => exact .dict (hkeys ihk ht) (hvalues ih ht)
  | mapping _ _ ihk ih => exact .mapping (hkeys ihk ht) (hvalues ih ht)
  | bareList xs => exact .bareList xs
  | bareTuple xs => exact .bareTuple xs
  | listForTuple => cases ht
  | bareDict es => exact .bareDict es
  | union hmem _ ih =>
    rw [Shape.tight, Shape.allTight_iff] at ht
    exact .union hmem (ih (ht _ hmem))
  | literal ho hs => exact .literal ho hs
  | enumeration hm => exact .enumeration hm
  | @record c cls fields hc hl hn _ ih =>
    refine .record hc hl hn fun {f e} hmem _ => ?_
    have hf := (List.of_mem_zip hmem).1
    by_cases hdefault : f.default = some e.2
    · exact hcat.defaults c cls hc f hf e.2 hdefault
    · exact ih hmem (fun h => hdefault h.2) (hcat.shapes c cls hc f hf)
  | typed h => exact .typed h

/-- **What is read is a value of the shape**, but for what is not looked at: the keys are any keys
of the data, tuples without shapes for their items are any sequences, and what is not told is a
default.  Where none of these can be anything else than the shape says, what is read is a value of
the shape altogether. -/
theorem holds_of_fromDict {t : Shape} {v x : Value} (h : fromDict cat t strict v = .ok x) :
    Holds cat (.ofRead v) t x ∧
      ∀ key : Shape → Bool, (∀ k, key k = true → ∀ a, v.HasKey a → Holds cat .none k a) →
        cat.Tight key → t.tight key = true → Holds cat .none t x := by
  have hread : Holds cat (.ofRead v) t x :=
    (Reads.of_decode h).holds trivial trivial fun _ hk => hk
  exact ⟨hread, fun key hkey hcat ht => hread.exact hcat hkey ht⟩

/-! ### The classes there are -/

/-- The keys of plain data are texts. -/
theorem exists_str_of_hasKey {v k : Value} (hv : v.Plain) (h : v.HasKey k) : ∃ s, k = .str s := by
  induction h with
  | table he =>
    cases hv with
    | dict hk _ => exact hk _ he
  | entry he _ ih =>
    cases hv with
    | dict _ hes => exact ih (hes _ he)
  | list hw _ ih =>
    cases hv with
    | list hvs => exact ih (hvs _ hw)
  | tuple => cases hv

/-- Shapes of keys that accept every text. -/
def textKey : Shape → Bool
  | .str | .any => true
  | _ => false

theorem holds_of_textKey {l : Leeway} {k : Shape} (hk : textKey k = true) (s : String) :
    Holds cat l k (.str s) := by
  unfold textKey at hk
  split at hk
  · exact .str s
  · exact .any _
  · cases hk

/-- A value that is read unambiguously is a value of its shape. -/
theorem Fits.holds (hcat : ∀ c cls, cat.find? c = some cls → ∀ f ∈ cls.fields,
    f.shape.tight textKey = true) {t : Shape} {x : Value} (h : Fits cat t x)
    (ht : t.tight textKey = true) : Holds cat .none t x := by
  have hkeys {k t : Shape} {es : List (Value × Value)} (hk : ∀ e ∈ es, ∃ s, e.1 = .str s)
      (ht : (textKey k && k.tight textKey && t.tight textKey) = true) :
      ∀ e ∈ es, ¬Leeway.none.key e.1 → Holds cat .none k e.1 := by
    intro e he _
    rw [Bool.and_eq_true, Bool.and_eq_true] at ht
    obtain ⟨s, hs⟩ := hk e he
    rw [hs]
    exact holds_of_textKey ht.1.1 s
  have hvalues {k t : Shape} {es : List (Value × Value)}
      (ih : ∀ e ∈ es, t.tight textKey = true → Holds cat .none t e.2)
      (ht : (textKey k && k.tight textKey && t.tight textKey) = true) :
      ∀ e ∈ es, Holds cat .none t e.2 :=
    fun e he => ih e he (Bool.and_eq_true _ _ ▸ ht).2
  induction h with
  | any => exact .any _
  | null => exact .null
  | bool b => exact .bool b
  | int n => exact .int n
  | float x => exact .float x
  | str s => exact .str s
  | literal _ ho hs => exact .literal ho hs
  | enumeration hm => exact .enumeration hm
  | union hmem _ ih =>
    rw [Shape.tight, Shape.allTight_iff] at ht
    exact .union hmem (ih (ht _ hmem))
  | list _ ih => exact .list fun x hx => ih x hx ht
  | sequence _ ih => exact .sequence rfl fun x hx => ih x hx ht
  | tupleOf _ ih => exact .tupleOf fun x hx => ih x hx ht
  | tuple hl _ ih =>
    rw [Shape.tight, Bool.and_eq_true, Shape.allTight_iff] at ht
    exact .tuple hl fun hmem => ih hmem (ht.2 _ (List.of_mem_zip hmem).1)
  | dict hk _ ih => exact .dict (hkeys hk ht) (hvalues ih ht)
  | mapping hk _ ih => exact .mapping (hkeys hk ht) (hvalues ih ht)
  | @record c cls fields hc hl hn _ _ ih =>
    exact .record hc hl hn fun hmem _ =>
      ih hmem (hcat c cls hc _ (List.of_mem_zip hmem).1)

namespace Catalog

theorem full_shapes_tight :
    ∀ cls ∈ full.classes, ∀ f ∈ cls.fields, f.shape.tight textKey = true := by decide

theorem full_tight : full.Tight textKey := by
  have hshapes : ∀ c cls, full.find? c = some cls → ∀ f ∈ cls.fields,
      f.shape.tight textKey = true :=
    fun c cls hc => full_shapes_tight cls (List.mem_of_find?_eq_some hc)
  exact ⟨hshapes, fun c cls hc f hf d hd =>
    ((full_sound hc).fits f hf d hd).holds hshapes (hshapes c cls hc f hf)⟩

end Catalog

/-- A list of options with a table in them. -/
def optionsData : Value := .list [Value.table
  [("tab-size", .int 2), ("extra", Value.table [("wide", .bool true)])]]

/-- The options of `optionsData`, as a tuple. -/
def optionsTuple : Value := .tuple [.record "Options" [("tab_size", .int 2), ("names", .list []),
  ("extra", Value.table [("wide", .bool true)])]]

theorem holds_of_fromDict_options :
    fromDict .full (.tupleOf (.record "Options")) true optionsData = .ok optionsTuple ∧
      Holds .full .none (.tupleOf (.record "Options")) optionsTuple := by
  have hread : fromDict .full (.tupleOf (.record "Options")) true optionsData = .ok optionsTuple := by
    cbv
  have hplain : optionsData.Plain := by
    have hextra : (Value.table [("wide", .bool true)]).Plain :=
      .dict (by simp) (by simpa using .bool true)
    have htable : (Value.table [("tab-size", .int 2),
        ("extra", Value.table [("wide", .bool true)])]).Plain :=
      .dict (by simp) (by simpa using ⟨.int 2, hextra⟩)
    exact .list (by simpa using htable)
  refine ⟨hread, (holds_of_fromDict hread).2 textKey (fun k hk a ha => ?_) Catalog.full_tight rfl⟩
  obtain ⟨s, rfl⟩ := exists_str_of_hasKey hplain ha
  exact holds_of_textKey hk s

/-- A bare tuple is read as a list, and the keys of a table are not looked at. -/
theorem not_holds_of_fromDict :
    (fromDict .full .bareTuple false (.list [.int 1, .int 2]) = .ok (.list [.int 1, .int 2]) ∧
      ¬Holds .full .none .bareTuple (.list [.int 1, .int 2])) ∧
    (fromDict .full (.dict .int .int) false (Value.table [("a", .int 1)]) =
      .ok (Value.table [("a", .int 1)]) ∧
      ¬Holds .full .none (.dict .int .int) (Value.table [("a", .int 1)])) := by
  refine ⟨⟨by cbv, fun h => ?_⟩, by cbv, fun h => ?_⟩
  · cases h with
    | listForTuple hl => exact hl
  · cases h with
    | dict hk _ =>
      have hkey : Holds .full .none .int (.str "a") := hk _ List.mem_cons_self id
      cases hkey

end Schema

end EditorBridge
