/-
The values of a shape.

`Fits` says what a value of a shape looks like, as it comes out when plain data are read: an
instance of a class has exactly the fields of the class, each with a value of its shape, and a
field that cannot be given has its default.  Data that are read into a shape give a value of it
(`Reads.fits`).

This rests on what the classes of a catalog are like (`Catalog.Sound`): a default is of the shape
of its field, and the alternatives of every choice differ in form (`Shape.clear`).  Classes may
mention one another and themselves, so soundness is about a set of class names that is closed
under mentioning.
-/
import EditorBridge.Proofs.Schema.Forms
import Mathlib.Data.List.Pairwise

namespace EditorBridge.Schema

open Value (Plain Definite Simple)

variable {cat : Catalog} {known : String → Bool} {strict : Bool}

/-! ### Enumerations -/

/-- Every value of the enumeration is an integer, or a text if the members do not count as
numbers, and no two of them are equal. -/
def Enumeration.isPlain (e : Enumeration) : Bool :=
  (e.members.all fun m => match m.2 with
    | .int _ => true
    | .str _ => !e.numeric
    | _ => false) &&
  decide ((e.members.map (·.2)).Pairwise fun v w => v.same w = false ∧ w.same v = false)

namespace Enumeration

variable {e : Enumeration} {m : String × Value}

theorem value_of_isPlain (h : e.isPlain = true) (hm : m ∈ e.members) :
    (∃ n, m.2 = .int n) ∨ e.numeric = false ∧ ∃ s, m.2 = .str s := by
  unfold isPlain at h
  rw [Bool.and_eq_true, List.all_eq_true] at h
  have := h.1 m hm
  split at this
  · exact .inl ⟨_, ‹_›⟩
  · exact .inr ⟨by simpa using this, _, ‹_›⟩
  · cases this

/-- A member is told by its value. -/
theorem eq_of_same (h : e.isPlain = true) {m' : String × Value} (hm : m ∈ e.members)
    (hm' : m' ∈ e.members) (hs : m'.2.same m.2 = true) : m' = m := by
  unfold isPlain at h
  rw [Bool.and_eq_true, decide_eq_true_iff, List.pairwise_map] at h
  by_contra hne
  have : Std.Symm fun a b : String × Value => a.2.same b.2 = false ∧ b.2.same a.2 = false :=
    ⟨fun _ _ h => h.symm⟩
  obtain ⟨hdiff, -⟩ := h.2.forall hm' hm hne
  rw [hs] at hdiff
  cases hdiff

/-- What a value stands for is a member that equals it, itself or by its value. -/
theorem exists_same_of_find? {v x : Value} (h : e.find? v = some x) :
    ∃ m ∈ e.members, x = e.member m ∧ ((e.member m).same v = true ∨ m.2.same v = true) := by
  unfold find? at h
  rw [List.find?_map] at h
  cases hnumber : e.members.find? ((fun y => y.same v) ∘ e.member) with
  | some m =>
    rw [hnumber] at h
    cases h
    have hsame := List.find?_some hnumber
    exact ⟨m, List.mem_of_find?_eq_some hnumber, rfl, .inl hsame⟩
  | none =>
    rw [hnumber] at h
    obtain ⟨m, hm, rfl⟩ := Option.map_eq_some_iff.1 (show Option.map _ _ = some x from h)
    have hsame := List.find?_some hm
    exact ⟨m, List.mem_of_find?_eq_some hm, rfl, .inr hsame⟩

theorem exists_of_find? {v x : Value} (h : e.find? v = some x) : ∃ m ∈ e.members, x = e.member m := by
  obtain ⟨m, hm, hx, -⟩ := exists_same_of_find? h
  exact ⟨m, hm, hx⟩

theorem find?_eq_of_unique {α : Type} {l : List α} {q : α → Bool} {a : α} (ha : a ∈ l)
    (hq : q a = true) (hu : ∀ b ∈ l, q b = true → b = a) : l.find? q = some a := by
  obtain ⟨b, hb⟩ := Option.isSome_iff_exists.1 (List.find?_isSome.2 ⟨a, ha, hq⟩)
  rw [hb, hu b (List.mem_of_find?_eq_some hb) (List.find?_some hb)]

/-- **The value of a member finds the member.** -/
theorem find?_value (h : e.isPlain = true) (hm : m ∈ e.members) :
    e.find? m.2 = some (e.member m) := by
  -- as a number a member is found first, otherwise by its value
  have hself : m.2.same m.2 = true := by
    obtain ⟨n, hn⟩ | ⟨-, s, hs⟩ := value_of_isPlain h hm
    · simp [hn, Value.same, Value.asInt?]
    · simp [hs, Value.same]
  have hmember (m' : String × Value) :
      (e.member m').same m.2 = (e.numeric && m'.2.same m.2) := by
    obtain ⟨n, hn⟩ | ⟨-, s, hs⟩ := value_of_isPlain h hm
    · simp [hn, member, Value.same]
    · simp [hs, member, Value.same]
  have hvalue : e.members.find? (fun m' => m'.2.same m.2) = some m :=
    find?_eq_of_unique hm hself fun m' hm' hs => eq_of_same h hm hm' hs
  unfold find?
  rw [List.find?_map]
  cases hnumeric : e.numeric with
  | true =>
    have : e.members.find? ((fun x => x.same m.2) ∘ e.member) = some m := by
      rw [← hvalue]
      congr 1
      funext m'
      simp [hmember, hnumeric]
    rw [this]
    rfl
  | false =>
    have : e.members.find? ((fun x => x.same m.2) ∘ e.member) = none := by
      rw [List.find?_eq_none]
      intro m' _
      simp [hmember, hnumeric]
    rw [this, hvalue]
    rfl

end Enumeration

/-! ### Shapes and classes that are read unambiguously -/

/-- No form is accepted by two of the shapes, and none of them shows data of another form. -/
def Shape.apart (ts : List Shape) : Bool :=
  decide (ts.Pairwise fun t u => ∀ f ∈ t.forms, f ∉ u.forms) && Shape.allDiscreet ts

mutual

/-- Whether a shape is one for plain data in which every choice is settled by form, and mentions
known classes only. -/
def Shape.clear (known : String → Bool) : Shape → Bool
  | .any | .null | .bool | .int | .float | .str | .literal _ => true
  | .list t | .sequence t | .tupleOf t | .dict _ t | .mapping _ t => t.clear known
  | .tuple ts => !ts.isEmpty && Shape.allClear known ts
  | .union ts => Shape.apart ts && Shape.allClear known ts
  | .enumeration e => e.isPlain
  | .record c => known c
  | .bareList | .bareTuple | .bareDict | .typed _ => false

def Shape.allClear (known : String → Bool) : List Shape → Bool
  | [] => true
  | t :: ts => t.clear known && Shape.allClear known ts

end

theorem Shape.allClear_iff {ts : List Shape} :
    Shape.allClear known ts = true ↔ ∀ t ∈ ts, t.clear known = true := by
  induction ts with
  | nil => simp [Shape.allClear]
  | cons t ts ih => simp [Shape.allClear, ih]

/-- A value of a shape. -/
inductive Fits (cat : Catalog) : Shape → Value → Prop
  | any {v : Value} (h : v.Plain) : Fits cat .any v
  | null : Fits cat .null .null
  | bool (b : Bool) : Fits cat .bool (.bool b)
  | int (n : Int) : Fits cat .int (.int n)
  | float (x : Binary64) : Fits cat .float (.float x)
  | str (s : String) : Fits cat .str (.str s)
  | literal {options : List Value} {o v : Value} (hv : v.Plain) (ho : o ∈ options)
    (h : v.same o = true) : Fits cat (.literal options) v
  | enumeration {e : Enumeration} {m : String × Value} (hm : m ∈ e.members) :
    Fits cat (.enumeration e) (e.member m)
  | union {ts : List Shape} {t : Shape} {x : Value} (ht : t ∈ ts) (h : Fits cat t x) :
    Fits cat (.union ts) x
  | list {t : Shape} {xs : List Value} (h : ∀ x ∈ xs, Fits cat t x) : Fits cat (.list t) (.list xs)
  | sequence {t : Shape} {xs : List Value} (h : ∀ x ∈ xs, Fits cat t x) :
    Fits cat (.sequence t) (.list xs)
  | tupleOf {t : Shape} {xs : List Value} (h : ∀ x ∈ xs, Fits cat t x) :
    Fits cat (.tupleOf t) (.tuple xs)
  | tuple {ts : List Shape} {xs : List Value} (hl : ts.length = xs.length)
    (h : ∀ {t x}, (t, x) ∈ ts.zip xs → Fits cat t x) : Fits cat (.tuple ts) (.tuple xs)
  | dict {k t : Shape} {es : List (Value × Value)} (hk : ∀ e ∈ es, ∃ s, e.1 = .str s)
    (h : ∀ e ∈ es, Fits cat t e.2) : Fits cat (.dict k t) (.dict es)
  | mapping {k t : Shape} {es : List (Value × Value)} (hk : ∀ e ∈ es, ∃ s, e.1 = .str s)
    (h : ∀ e ∈ es, Fits cat t e.2) : Fits cat (.mapping k t) (.dict es)
  | record {c : String} {cls : RecordClass} {fields : List (String × Value)}
    (hc : cat.find? c = some cls) (hl : cls.fields.length = fields.length)
    (hn : ∀ {f e}, (f, e) ∈ cls.fields.zip fields → e.1 = f.name)
    (h : ∀ {f e}, (f, e) ∈ cls.fields.zip fields → Fits cat f.shape e.2)
    (hd : ∀ {f e}, (f, e) ∈ cls.fields.zip fields → f.given = false → f.default = some e.2) :
    Fits cat (.record c) (.record c fields)

/-- A class whose instances are read unambiguously.  When `strict`, data cannot have more keys
than can be given. -/
structure RecordClass.Sound (cat : Catalog) (known : String → Bool) (strict : Bool)
    (cls : RecordClass) : Prop where
  names : (cls.fields.map (·.name)).Nodup
  keys : (cls.fields.map cls.keyOf).Nodup
  shapes : ∀ f ∈ cls.fields, f.shape.clear known = true
  fits : ∀ f ∈ cls.fields, ∀ d, f.default = some d → Fits cat f.shape d
  simple : ∀ f ∈ cls.fields, ∀ d, f.default = some d → d.Simple
  given : strict = true → ∀ f ∈ cls.fields, f.given = true

/-- The known classes of a catalog are read unambiguously. -/
def Catalog.Sound (cat : Catalog) (known : String → Bool) (strict : Bool) : Prop :=
  ∀ c, known c = true → ∃ cls, cat.find? c = some cls ∧ cls.Sound cat known strict

theorem Catalog.Sound.of_find? (h : cat.Sound known strict) {c : String} {cls : RecordClass}
    (hc : known c = true) (hcls : cat.find? c = some cls) : cls.Sound cat known strict := by
  obtain ⟨cls', hcls', hs⟩ := h c hc
  rw [hcls] at hcls'
  cases hcls'
  exact hs

/-- What can be read strictly can be read otherwise. -/
theorem Catalog.Sound.relaxed (h : cat.Sound known strict) : cat.Sound known false := by
  intro c hc
  obtain ⟨cls, hcls, hs⟩ := h c hc
  exact ⟨cls, hcls, hs.names, hs.keys, hs.shapes, hs.fits, hs.simple, nofun⟩

/-! ### What is read is a value of the shape -/

theorem plain_of_items {v : Value} {vs : List Value} (hv : v.Plain) (h : items? v = some vs) :
    ∀ w ∈ vs, w.Plain := by
  cases hv with
  | list hvs =>
    cases h
    exact hvs
  | null | bool | int | float | str | moment | dict => cases h

theorem Fits.of_scalar {t : Shape} {v x : Value} (hv : v.Plain) (ht : t.clear known = true)
    (h : scalar? t v = some (.ok x)) : Fits cat t x := by
  unfold scalar? at h
  split at h
  · cases h
    exact .any hv
  · cases h
    exact .null
  · cases h
    exact .bool _
  · cases h
    exact .int _
  · cases hv
  · cases h
    exact .float _
  · unfold scalar?.asFloat at h
    split at h <;> cases h
    exact .float _
  · cases hv
  · cases h
    exact .str _
  · rename_i e v
    obtain ⟨y, hy, hx⟩ := Option.map_eq_some_iff.1 h
    cases hx
    obtain ⟨m, hm, rfl⟩ := Enumeration.exists_of_find? hy
    exact .enumeration hm
  · simp [Shape.clear] at ht
  · cases h

/-- **What is read from plain data is a value of the shape.** -/
theorem Reads.fits (hcat : cat.Sound known strict) {t : Shape} {v x : Value} (h : Reads cat t v x)
    (ht : t.clear known = true) (hv : v.Plain) : Fits cat t x := by
  induction h with
  | scalar h => exact .of_scalar hv ht h
  | union hmem _ ih =>
    rw [Shape.clear, Bool.and_eq_true, Shape.allClear_iff] at ht
    exact .union hmem (ih (ht.2 _ hmem) hv)
  | literal ho hs => exact .literal hv ho hs
  | list hitems hl _ ih =>
    have hvs := plain_of_items hv hitems
    refine .list fun x hx => ?_
    obtain ⟨v, hmem⟩ := exists_mem_zip hl hx
    exact ih hmem ht (hvs v (List.of_mem_zip hmem).1)
  | sequence hitems hl _ ih =>
    have hvs := plain_of_items hv hitems
    refine .sequence fun x hx => ?_
    obtain ⟨v, hmem⟩ := exists_mem_zip hl hx
    exact ih hmem ht (hvs v (List.of_mem_zip hmem).1)
  | tupleOf hitems hl _ ih =>
    have hvs := plain_of_items hv hitems
    refine .tupleOf fun x hx => ?_
    obtain ⟨v, hmem⟩ := exists_mem_zip hl hx
    exact ih hmem ht (hvs v (List.of_mem_zip hmem).1)
  | tuple hitems hlt hl _ ih =>
    have hvs := plain_of_items hv hitems
    rw [Shape.clear, Bool.and_eq_true, Shape.allClear_iff] at ht
    refine .tuple (hlt.trans hl) fun {t x} hx => ?_
    obtain ⟨v, hmem⟩ := exists_mem_zip_zip hlt hl hx
    exact ih hmem (ht.2 t (List.of_mem_zip hx).1)
      (hvs v (List.of_mem_zip (List.of_mem_zip hmem).2).1)
  | anyTuple | bareList | bareTuple | bareDict => simp [Shape.clear] at ht
  | dict hl hk _ ih =>
    cases hv with
    | dict hkeys hvs =>
      refine .dict (fun x hx => ?_) fun x hx => ?_ <;>
        obtain ⟨e, hmem⟩ := exists_mem_zip hl hx
      · rw [hk hmem]
        exact hkeys e (List.of_mem_zip hmem).1
      · exact ih hmem ht (hvs e (List.of_mem_zip hmem).1)
  | mapping hl hk _ ih =>
    cases hv with
    | dict hkeys hvs =>
      refine .mapping (fun x hx => ?_) fun x hx => ?_ <;>
        obtain ⟨e, hmem⟩ := exists_mem_zip hl hx
      · rw [hk hmem]
        exact hkeys e (List.of_mem_zip hmem).1
      · exact ih hmem ht (hvs e (List.of_mem_zip hmem).1)
  | record hc hl hn _ hd ih =>
    have hs := hcat.of_find? ht hc
    cases hv with
    | dict _ hvs =>
      refine .record hc hl hn (fun {f e} hmem => ?_) fun {f e} hmem hnot => hd hmem ?_
      · have hf := (List.of_mem_zip hmem).1
        cases htold : RecordClass.told? _ _ f with
        | some v =>
          obtain ⟨k, hk⟩ := RecordClass.exists_mem_of_told htold
          exact ih hmem htold (hs.shapes f hf) (hvs _ hk)
        | none => exact hs.fits f hf _ (hd hmem htold)
      · simp [RecordClass.told?, hnot]

/-- An integer becomes a number that is finite. -/
theorem definite_asFloat {n : Int} {x : Value} (h : scalar?.asFloat n = .ok x) : x.Definite := by
  unfold scalar?.asFloat Binary64.ofInt? at h
  split at h
  · rename_i y hy
    cases h
    dsimp only at hy
    split at hy
    · rename_i hfinite
      cases hy
      exact .float (by rw [hfinite]; decide)
    · cases hy
  · cases h

/-- **No NaN comes out where none goes in.** -/
theorem Reads.definite (hcat : cat.Sound known strict) {t : Shape} {v x : Value}
    (h : Reads cat t v x) (ht : t.clear known = true) (hv : v.Definite) : x.Definite := by
  have hitems {v : Value} {vs : List Value} (hv : v.Definite) (h : items? v = some vs) :
      ∀ w ∈ vs, w.Definite := by
    cases hv <;> cases h <;> assumption
  induction h with
  | scalar h =>
    unfold scalar? at h
    split at h
    · cases h
      exact hv
    · cases h
      exact .null
    · cases h
      exact .bool _
    · cases h
      exact .int _
    · cases h
      exact .member ..
    · cases h
      exact hv
    · exact definite_asFloat (by simpa using h)
    · exact definite_asFloat (by simpa using h)
    · cases h
      exact .str _
    · obtain ⟨y, hy, hx⟩ := Option.map_eq_some_iff.1 h
      cases hx
      obtain ⟨m, -, rfl⟩ := Enumeration.exists_of_find? hy
      exact .member ..
    · split at h <;> cases h
      exact hv
    · cases h
  | union hmem _ ih =>
    rw [Shape.clear, Bool.and_eq_true, Shape.allClear_iff] at ht
    exact ih (ht.2 _ hmem) hv
  | literal => exact hv
  | list hvs hl _ ih | sequence hvs hl _ ih =>
    refine .list fun x hx => ?_
    obtain ⟨v, hmem⟩ := exists_mem_zip hl hx
    exact ih hmem ht (hitems hv hvs v (List.of_mem_zip hmem).1)
  | tupleOf hvs hl _ ih =>
    refine .tuple fun x hx => ?_
    obtain ⟨v, hmem⟩ := exists_mem_zip hl hx
    exact ih hmem ht (hitems hv hvs v (List.of_mem_zip hmem).1)
  | tuple hvs hlt hl _ ih =>
    rw [Shape.clear, Bool.and_eq_true, Shape.allClear_iff] at ht
    refine .tuple fun x hx => ?_
    obtain ⟨t, v, hmem⟩ := exists_mem_zip_of_mem hlt hl hx
    obtain ⟨ht', hmem'⟩ := List.of_mem_zip hmem
    exact ih hmem (ht.2 t ht') (hitems hv hvs v (List.of_mem_zip hmem').1)
  | anyTuple | bareList | bareTuple | bareDict => simp [Shape.clear] at ht
  | dict hl hk _ ih | mapping hl hk _ ih =>
    cases hv with
    | dict hkeys hvs =>
      refine .dict (fun x hx => ?_) fun x hx => ?_ <;>
        obtain ⟨e, hmem⟩ := exists_mem_zip hl hx
      · rw [hk hmem]
        exact hkeys e (List.of_mem_zip hmem).1
      · exact ih hmem ht (hvs e (List.of_mem_zip hmem).1)
  | record hc hl hn _ hd ih =>
    have hs := hcat.of_find? ht hc
    cases hv with
    | dict _ hvs =>
      refine .record fun e he => ?_
      obtain ⟨f, hmem⟩ := exists_mem_zip hl he
      have hf := (List.of_mem_zip hmem).1
      cases htold : RecordClass.told? _ _ f with
      | some v =>
        obtain ⟨k, hk⟩ := RecordClass.exists_mem_of_told htold
        exact ih hmem htold (hs.shapes f hf) (hvs _ hk)
      | none => exact (hs.simple f hf _ (hd hmem htold)).definite

end EditorBridge.Schema
