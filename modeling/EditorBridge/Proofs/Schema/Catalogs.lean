/-
The catalogs there are: their classes are read unambiguously.

Soundness of a catalog (`Catalog.Sound`) is about finitely many classes, so it is looked at by a
check that computes.  What is not plain there is whether a default is of the shape of its field;
`suits` tells it for the defaults that classes have, and goes through records as deep as they are
nested.

When keys that cannot be given are refused, a class with a hidden field is not read back, since
the field is written; all other classes are (`fromDict_asDict`).
-/
import EditorBridge.Proofs.Schema.RoundTrip
import EditorBridge.Schema.Specimen
import Mathlib

namespace EditorBridge.Schema

open Value (Plain Definite Simple)

variable {cat : Catalog} {known : String → Bool} {strict : Bool}

/-! ### The check -/

/-- Whether a default is of a shape; the number bounds how deep records are nested. -/
def suits (cat : Catalog) : Nat → Shape → Value → Bool
  | 0, _, _ => false
  | n + 1, t, d => match t, d with
    | .any, .null | .null, .null | .bool, .bool _ | .int, .int _ | .str, .str _ => true
    | .float, .float x => x.kind != .nan
    | .dict .., .dict [] | .mapping .., .dict [] => true
    | .list t, .list ds | .sequence t, .list ds | .tupleOf t, .tuple ds => ds.all (suits cat n t)
    | .tuple ts, .tuple ds =>
      ts.length == ds.length && (ts.zip ds).all fun a => suits cat n a.1 a.2
    | .union ts, d => ts.any fun t => suits cat n t d
    | .record c, .record c' fields => c == c' && (cat.find? c).any fun cls =>
      cls.fields.length == fields.length && (cls.fields.zip fields).all fun a =>
        a.2.1 == a.1.name && a.1.given && suits cat n a.1.shape a.2.2
    | _, _ => false

theorem fits_of_suits {n : Nat} {t : Shape} {d : Value} (h : suits cat n t d = true) :
    Fits cat t d ∧ d.Simple := by
  induction n generalizing t d with
  | zero => cases h
  | succ n ih =>
    unfold suits at h
    split at h
    · exact ⟨.any .null, .null⟩
    · exact ⟨.null, .null⟩
    · exact ⟨.bool _, .bool _⟩
    · exact ⟨.int _, .int _⟩
    · exact ⟨.str _, .str _⟩
    · exact ⟨.float _, .float (by simpa using h)⟩
    · exact ⟨.dict (by simp) (by simp), .emptyDict⟩
    · exact ⟨.mapping (by simp) (by simp), .emptyDict⟩
    · rw [List.all_eq_true] at h
      exact ⟨.list fun d hd => (ih (h d hd)).1, .list fun d hd => (ih (h d hd)).2⟩
    · rw [List.all_eq_true] at h
      exact ⟨.sequence fun d hd => (ih (h d hd)).1, .list fun d hd => (ih (h d hd)).2⟩
    · rw [List.all_eq_true] at h
      exact ⟨.tupleOf fun d hd => (ih (h d hd)).1, .tuple fun d hd => (ih (h d hd)).2⟩
    · rw [Bool.and_eq_true, List.all_eq_true, beq_iff_eq] at h
      obtain ⟨hl, h⟩ := h
      refine ⟨.tuple hl fun hmem => (ih (h _ hmem)).1, .tuple fun d hd => ?_⟩
      obtain ⟨t, hmem⟩ := exists_mem_zip hl hd
      exact (ih (h _ hmem)).2
    · obtain ⟨t, ht, h⟩ := List.any_eq_true.1 h
      exact ⟨.union ht (ih h).1, (ih h).2⟩
    · rename_i c c' fields
      rw [Bool.and_eq_true, beq_iff_eq, Option.any_eq_true] at h
      obtain ⟨rfl, cls, hc, h⟩ := h
      simp only [Bool.and_eq_true, beq_iff_eq, List.all_eq_true] at h
      obtain ⟨hl, h⟩ := h
      refine ⟨.record hc hl (fun hmem => (h _ hmem).1.1) (fun hmem => (ih (h _ hmem).2).1)
        fun hmem hnot => ?_, .record fun e he => ?_⟩
      · rw [(h _ hmem).1.2] at hnot
        cases hnot
      · obtain ⟨f, hmem⟩ := exists_mem_zip hl he
        exact (ih (h _ hmem).2).2
    · cases h

/-- How deep records are nested in the defaults that `RecordClass.check` accepts. -/
def defaultDepth : Nat := 8

/-- Whether a class is read unambiguously. -/
def RecordClass.check (cat : Catalog) (known : String → Bool) (cls : RecordClass) : Bool :=
  decide (cls.fields.map (·.name)).Nodup && decide (cls.fields.map cls.keyOf).Nodup &&
    cls.fields.all fun f => f.shape.clear known && f.default.all (suits cat defaultDepth f.shape)

theorem RecordClass.sound_of_check {cls : RecordClass} (h : cls.check cat known = true)
    (hgiven : strict = true → ∀ f ∈ cls.fields, f.given = true) :
    cls.Sound cat known strict := by
  unfold check at h
  simp only [Bool.and_eq_true, decide_eq_true_eq, List.all_eq_true, Option.all_eq_true] at h
  obtain ⟨⟨hnames, hkeys⟩, hfields⟩ := h
  exact ⟨hnames, hkeys, fun f hf => (hfields f hf).1,
    fun f hf d hd => (fits_of_suits ((hfields f hf).2 d hd)).1,
    fun f hf d hd => (fits_of_suits ((hfields f hf).2 d hd)).2, hgiven⟩

namespace Catalog

/-- Whether a class is known, and has no hidden field if data are read strictly. -/
def reads (cat : Catalog) (strict : Bool) (name : String) : Bool :=
  (cat.find? name).any fun cls => !strict || cls.fields.all (·.given)

/-- Whether all the classes that `reads` admits are read unambiguously. -/
def check (cat : Catalog) (strict : Bool) : Bool :=
  cat.classes.all fun cls => !cat.reads strict cls.name || cls.check cat (cat.reads strict)

theorem sound_of_check (h : cat.check strict = true) : cat.Sound (cat.reads strict) strict := by
  intro c hc
  have hreads := hc
  unfold reads at hreads
  obtain ⟨cls, hcls, hgiven⟩ := Option.any_eq_true _ _ |>.1 hreads
  have hname : cls.name = c := by simpa using List.find?_some hcls
  unfold check at h
  rw [List.all_eq_true] at h
  have hcheck := h cls (List.mem_of_find?_eq_some hcls)
  rw [hname, hc, Bool.not_true, Bool.false_or] at hcheck
  refine ⟨cls, hcls, RecordClass.sound_of_check hcheck fun hstrict f hf => ?_⟩
  rw [hstrict, Bool.not_true, Bool.false_or, List.all_eq_true] at hgiven
  exact hgiven f hf

/-! ### Reading back -/

/-- A record that was read is a value of its class, and has no NaN if the data had none. -/
theorem Sound.of_fromDict {strictly : Bool} (hcat : cat.Sound known strictly) {c : String} (hc : known c = true)
    {data x : Value} (hplain : data.Plain)
    (h : fromDict cat (.record c) strict data = .ok x) :
    Fits cat (.record c) x ∧ (data.Definite → x.Definite) := by
  have hreads := Reads.of_decode h
  have hclear : (Shape.record c).clear known = true := by rw [Shape.clear, hc]
  exact ⟨hreads.fits hcat hclear hplain, hreads.definite hcat hclear⟩

theorem full_check (strict : Bool) : full.check strict = true := by
  cases strict <;> cbv

/-- Every class there is is read unambiguously, unless keys that cannot be given are refused. -/
theorem full_sound {c : String} {cls : RecordClass} (hc : full.find? c = some cls) :
    cls.Sound full (full.reads false) false := by
  have hreads : full.reads false c = true := by
    unfold reads
    rw [hc]
    rfl
  exact (sound_of_check (full_check false)).of_find? hreads hc

theorem full_names : (full.classes.map (·.name)).Nodup := by decide

/-- **A record that was read from plain data is written as a table that is read back as an equal
one**, whether or not defaults are left out; strictly too if all fields of its class can be
given. -/
theorem fromDict_asDict {cls : RecordClass} (hcls : cls ∈ full.classes) {data x : Value}
    (hplain : data.Plain) (hdefinite : data.Definite)
    (h : fromDict full (.record cls.name) strict data = .ok x) (removeDefaults strictly : Bool)
    (hgiven : strictly = true → ∀ f ∈ cls.fields, f.given = true) :
    x.typeName = cls.name ∧ ∃ table y, asDict? full removeDefaults x = some table ∧
      fromDict full (.record cls.name) strictly table = .ok y ∧ y.same x = true := by
  have hfind : full.find? cls.name = some cls :=
    Enumeration.find?_eq_of_unique hcls (beq_self_eq_true _) fun c hc hname =>
      List.inj_on_of_nodup_map full_names hc hcls (by simpa using hname)
  have hreads : full.reads strictly cls.name = true := by
    unfold reads
    rw [hfind, Option.any_some]
    cases strictly with
    | false => rfl
    | true => simpa using hgiven rfl
  have hsound := sound_of_check (full_check strictly)
  obtain ⟨hfits, hx⟩ := hsound.of_fromDict hreads hplain h
  obtain ⟨y, hy⟩ : ∃ y, ReadsBack full lookTwice strictly { defaults := removeDefaults }
      (.record cls.name) x y :=
    hfits.readsBack hsound rfl (by rw [Shape.clear, hreads])
  cases hfits with
  | record =>
    exact ⟨rfl, _, y, rfl, hy.ok [], hy.same (hx hdefinite)⟩

/-- A step with a member of an enumeration and a checked record in it. -/
def secondStep : Value := .record "Step" [
  ("action", .str "open"), ("position", .tuple [.int 0, .int 0]),
  ("kind", .member "EnumData" "SECOND" false (.str "second")),
  ("options", .record "Options" [
    ("tab_size", .int 2), ("names", .list []), ("extra", .dict [])])]

/-- The data of `secondStep`. -/
def secondStepData : Value := Value.table [
  ("action", .str "open"), ("kind", .str "second"),
  ("options", Value.table [("tab-size", .int 2)])]

theorem fromDict_asDict_secondStep :
    fromDict full (.record "Step") false secondStepData = .ok secondStep ∧
      ∃ table y, asDict? full true secondStep = some table ∧
        fromDict full (.record "Step") true table = .ok y ∧ y.same secondStep = true := by
  have hread : fromDict full (.record "Step") false secondStepData = .ok secondStep := by cbv
  have hplain : secondStepData.Plain := by
    have hoptions : (Value.table [("tab-size", .int 2)]).Plain :=
      .dict (by simp) (by simpa using .int 2)
    refine .dict (by simp) ?_
    simpa using ⟨.str "open", .str "second", hoptions⟩
  have hdefinite : secondStepData.Definite := by
    have hoptions : (Value.table [("tab-size", .int 2)]).Definite :=
      .dict (by simpa using .str "tab-size") (by simpa using .int 2)
    refine .dict ?_ ?_
    · simpa using ⟨.str "action", .str "kind", .str "options"⟩
    · simpa using ⟨.str "open", .str "second", hoptions⟩
  have hstep : Specimen.step ∈ full.classes := by simp [full, all, Specimen.classes]
  exact ⟨hread, (fromDict_asDict hstep hplain hdefinite hread true true
    (by simp [Specimen.step])).2⟩

end Catalog

end EditorBridge.Schema
