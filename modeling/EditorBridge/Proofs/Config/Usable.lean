/-
Configurations that are used.

A configuration is shown in one of four formats, and what it says about the client is told to
the server.  Two kinds of values may be an obstacle to that: JSON has no text for dates and times,
which a text of TOML may hold, and no format has one for an integer with too many digits, which
may be read from hexadecimal ones.  Dates and times are refused everywhere but in the table of
initialization options (`mem_obstacles_options`).

So a configuration is shown as JSON, and the greeting that is made from it is written, exactly if
there is no obstacle in it; if there is one, the first of them is named
(`Value.Plain.unwritable`).  The other obstacle is a trace that the protocol does not know: no
greeting is made with it.
-/
import EditorBridge.Proofs.Config.Shown
import EditorBridge.Proofs.Link.Frames
import EditorBridge.Proofs.Link.Greeting
import Mathlib

namespace EditorBridge

open Schema

/-! ### What there is no text for -/

namespace Value

mutual

/-- What JSON has no text for in a value, in the order in which it is written. -/
def obstacles : Value → List Json.Unwritable
  | .int n => if Digits.fit n then [] else [.tooManyDigits]
  | .moment m => [.value (Value.moment m).typeName]
  | .list vs | .tuple vs | .set vs => obstaclesOfItems vs
  | .dict es => obstaclesOfEntries es
  | .record _ fields => obstaclesOfFields fields
  | .member _ _ _ v => obstacles v
  | _ => []

def obstaclesOfItems : List Value → List Json.Unwritable
  | [] => []
  | v :: vs => obstacles v ++ obstaclesOfItems vs

def obstaclesOfEntries : List (Value × Value) → List Json.Unwritable
  | [] => []
  | (_, v) :: es => obstacles v ++ obstaclesOfEntries es

def obstaclesOfFields : List (String × Value) → List Json.Unwritable
  | [] => []
  | (_, v) :: fields => obstacles v ++ obstaclesOfFields fields

end

theorem obstaclesOfItems_eq (vs : List Value) : obstaclesOfItems vs = vs.flatMap obstacles := by
  induction vs with
  | nil => rfl
  | cons v vs ih =>
    rw [List.flatMap_cons, ← ih]
    rfl

theorem obstaclesOfEntries_eq (es : List (Value × Value)) :
    obstaclesOfEntries es = es.flatMap fun e => e.2.obstacles := by
  induction es with
  | nil => rfl
  | cons e es ih =>
    rw [List.flatMap_cons, ← ih]
    rfl

theorem obstaclesOfFields_eq (fields : List (String × Value)) :
    obstaclesOfFields fields = fields.flatMap fun f => f.2.obstacles := by
  induction fields with
  | nil => rfl
  | cons f fields ih =>
    rw [List.flatMap_cons, ← ih]
    rfl

@[simp] theorem obstacles_null : null.obstacles = [] := rfl

@[simp] theorem obstacles_bool (b : Bool) : (bool b).obstacles = [] := rfl

@[simp] theorem obstacles_int (n : Int) :
    (int n).obstacles = if Digits.fit n then [] else [.tooManyDigits] := rfl

@[simp] theorem obstacles_float (x : Binary64) : (float x).obstacles = [] := rfl

@[simp] theorem obstacles_str (s : String) : (str s).obstacles = [] := rfl

@[simp] theorem obstacles_moment (m : Moment) :
    (moment m).obstacles = [.value (Value.moment m).typeName] := rfl

@[simp] theorem obstacles_member (e n : String) (numeric : Bool) (v : Value) :
    (member e n numeric v).obstacles = v.obstacles := rfl

@[simp] theorem obstacles_list (vs : List Value) : (list vs).obstacles = vs.flatMap obstacles :=
  obstaclesOfItems_eq vs

@[simp] theorem obstacles_tuple (vs : List Value) : (tuple vs).obstacles = vs.flatMap obstacles :=
  obstaclesOfItems_eq vs

@[simp] theorem obstacles_dict (es : List (Value × Value)) :
    (dict es).obstacles = es.flatMap fun e => e.2.obstacles :=
  obstaclesOfEntries_eq es

@[simp] theorem obstacles_record (c : String) (fields : List (String × Value)) :
    (record c fields).obstacles = fields.flatMap fun f => f.2.obstacles :=
  obstaclesOfFields_eq fields

@[simp] theorem obstacles_table (es : List (String × Value)) :
    (table es).obstacles = es.flatMap fun e => e.2.obstacles := by
  rw [table, obstacles_dict, List.flatMap_map]

theorem obstacles_of_isNull {v : Value} (h : v.isNull = true) : v.obstacles = [] := by
  cases v with
  | null => rfl
  | _ => simp [isNull] at h

/-- A table of plain data. -/
theorem Plain.table {es : List (String × Value)} (h : ∀ e ∈ es, e.2.Plain) :
    (Value.table es).Plain := by
  refine .dict (fun e he => ?_) fun e he => ?_ <;> obtain ⟨a, ha, rfl⟩ := List.mem_map.1 he
  · exact ⟨a.1, rfl⟩
  · exact h a ha

/-- Data of JSON are plain, and there is no obstacle in them. -/
theorem plain_of_json {v : Value} (h : Json.Plain v) : v.Plain ∧ v.obstacles = [] := by
  induction h with
  | null => exact ⟨.null, rfl⟩
  | bool b => exact ⟨.bool b, rfl⟩
  | int h => exact ⟨.int _, if_pos h⟩
  | float x => exact ⟨.float x, rfl⟩
  | str s => exact ⟨.str s, rfl⟩
  | list _ ih =>
    refine ⟨.list fun v hv => (ih v hv).1, ?_⟩
    rw [obstacles_list, List.flatMap_eq_nil_iff]
    exact fun v hv => (ih v hv).2
  | dict hk _ ih =>
    refine ⟨.dict hk fun e he => (ih e he).1, ?_⟩
    rw [obstacles_dict, List.flatMap_eq_nil_iff]
    exact fun e he => (ih e he).2

/-- Plain data without an obstacle are data of JSON. -/
theorem Plain.json {v : Value} (h : v.Plain) (hnone : v.obstacles = []) : Json.Plain v := by
  induction h with
  | null => exact .null
  | bool b => exact .bool b
  | int n => exact .int (by simpa using hnone)
  | float x => exact .float x
  | str s => exact .str s
  | moment m => simp at hnone
  | list _ ih =>
    rw [obstacles_list, List.flatMap_eq_nil_iff] at hnone
    exact .list fun v hv => ih v hv (hnone v hv)
  | dict hk _ ih =>
    rw [obstacles_dict, List.flatMap_eq_nil_iff] at hnone
    exact .dict hk fun e he => ih e he (hnone e he)

end Value

namespace Json

open Value (obstacles)

variable {u : Unwritable} {l : Layout} {level : Nat}

/-- What can be written can be written where integers have few digits. -/
theorem Writable.fit {v : Value} (h : Writable v) (l : Layout) (level : Nat) :
    ∃ s, write Digits.fit l level v = .ok s := h _ (fun _ h => h) l level

theorem writeItems_blocked {vs : List Value} (hok : ∀ v ∈ vs, v.obstacles = [] → Writable v)
    (hfail : ∀ v ∈ vs, v.obstacles.head? = some u → write Digits.fit l level v = .error u)
    (hu : (vs.flatMap obstacles).head? = some u) :
    writeItems Digits.fit l level vs = .error u := by
  induction vs with
  | nil => cases hu
  | cons v vs ih =>
    obtain ⟨hv, hok⟩ := List.forall_mem_cons.1 hok
    obtain ⟨hv', hfail⟩ := List.forall_mem_cons.1 hfail
    rw [List.flatMap_cons] at hu
    rw [writeItems]
    cases hfirst : v.obstacles with
    | nil =>
      rw [hfirst, List.nil_append] at hu
      obtain ⟨s, hs⟩ := (hv hfirst).fit l level
      rw [hs, ih hok hfail hu]
      rfl
    | cons u' us =>
      rw [hfirst, List.cons_append, List.head?_cons] at hu
      rw [hv' (by rw [hfirst, List.head?_cons, hu])]
      rfl

theorem writeMembers_blocked {es : List (Value × Value)} (hk : ∀ e ∈ es, ∃ s, e.1 = .str s)
    (hok : ∀ e ∈ es, e.2.obstacles = [] → Writable e.2)
    (hfail : ∀ e ∈ es, e.2.obstacles.head? = some u → write Digits.fit l level e.2 = .error u)
    (hu : (es.flatMap fun e => e.2.obstacles).head? = some u) :
    writeMembers Digits.fit l level es = .error u := by
  induction es with
  | nil => cases hu
  | cons e es ih =>
    obtain ⟨k, v⟩ := e
    obtain ⟨⟨key, hkey⟩, hkeys⟩ := List.forall_mem_cons.1 hk
    obtain ⟨hv, hoks⟩ := List.forall_mem_cons.1 hok
    obtain ⟨hv', hfails⟩ := List.forall_mem_cons.1 hfail
    rw [List.flatMap_cons] at hu
    obtain rfl : k = .str key := hkey
    rw [writeMembers, writeKey]
    cases hfirst : v.obstacles with
    | nil =>
      rw [hfirst, List.nil_append] at hu
      obtain ⟨s, hs⟩ := (hv hfirst).fit l level
      rw [hs, ih hkeys hoks hfails hu]
      rfl
    | cons u' us =>
      rw [hfirst, List.cons_append, List.head?_cons] at hu
      rw [hv' (by rw [hfirst, List.head?_cons, hu])]
      rfl

end Json

namespace Value

/-- **The first obstacle in plain data is what JSON has no text for.** -/
theorem Plain.unwritable {v : Value} (h : v.Plain) {u : Json.Unwritable}
    (hu : v.obstacles.head? = some u) (l : Json.Layout) (level : Nat) :
    Json.write Digits.fit l level v = .error u := by
  induction h generalizing level with
  | null | bool | float | str => simp at hu
  | int n =>
    rw [obstacles_int] at hu
    rw [Json.write, Json.writeInt]
    split at hu
    · cases hu
    · cases hu
      exact if_neg ‹_›
  | moment m =>
    simp only [obstacles_moment, List.head?_cons, Option.some.injEq] at hu
    rw [← hu, Json.write]
    all_goals simp
  | list h ih =>
    rw [obstacles_list] at hu
    have hitems := Json.writeItems_blocked (l := l)
      (fun v hv hnone => ((h v hv).json hnone).writable)
      (fun v hv hfirst => ih v hv hfirst (level + 1)) hu
    rw [Json.write, hitems]
    rfl
  | dict hk h ih =>
    rw [obstacles_dict] at hu
    have hmembers := Json.writeMembers_blocked (l := l) hk
      (fun e he hnone => ((h e he).json hnone).writable)
      (fun e he hfirst => ih e he hfirst (level + 1)) hu
    rw [Json.write, hmembers]
    rfl

end Value

/-! ### What a record is written as -/

namespace Schema

variable {cat : Catalog} {known free : String → Bool} {strict : Bool} {o : Omission}

/-- Writing a record as a table leaves out no obstacle, unless defaults are left out. -/
theorem Fits.obstacles_toData (hcat : cat.Sound known strict) {t : Shape} {x : Value}
    (h : Fits cat t x) (ht : t.clear known = true) (ho : o.defaults = false) :
    (toData cat o x).obstacles = x.obstacles := by
  induction h with
  | any h | literal h => rw [toData_of_plain h]
  | null | bool | int | float | str => rw [toData] <;> simp
  | enumeration => rw [Enumeration.member, toData, Value.obstacles_member]
  | union hmem _ ih =>
    rw [Shape.clear, Bool.and_eq_true, Shape.allClear_iff] at ht
    exact ih (ht.2 _ hmem)
  | list _ ih | sequence _ ih =>
    rw [toData, itemsToData_eq, Value.obstacles_list, Value.obstacles_list, List.flatMap_map]
    exact List.flatMap_congr fun x hx => ih x hx ht
  | tupleOf _ ih =>
    rw [toData, itemsToData_eq, Value.obstacles_list, Value.obstacles_tuple, List.flatMap_map]
    exact List.flatMap_congr fun x hx => ih x hx ht
  | tuple hl _ ih =>
    rw [Shape.clear, Bool.and_eq_true, Shape.allClear_iff] at ht
    rw [toData, itemsToData_eq, Value.obstacles_list, Value.obstacles_tuple, List.flatMap_map]
    refine List.flatMap_congr fun x hx => ?_
    obtain ⟨t, hmem⟩ := exists_mem_zip hl hx
    exact ih hmem (ht.2 t (List.of_mem_zip hmem).1)
  | dict _ _ ih | mapping _ _ ih =>
    rw [toData, entriesToData_eq, Value.obstacles_dict, Value.obstacles_dict, List.flatMap_map]
    exact List.flatMap_congr fun e he => ih e he ht
  | @record c cls fields hc hl hn _ _ ih =>
    have hs := hcat.of_find? ht hc
    -- what is left out is null
    have hentry : ∀ a ∈ cls.fields.zip fields,
        (entryOf? cat o cls a).toList.flatMap (fun e => e.2.obstacles) = a.2.2.obstacles := by
      intro a ha
      have hvalue := ih ha (hs.shapes a.1 (List.of_mem_zip ha).1)
      unfold entryOf?
      split
      · rename_i homits
        rw [Omission.omits, ho, Bool.false_and, Bool.false_or, Bool.and_eq_true] at homits
        rw [Value.obstacles_of_isNull homits.2]
        rfl
      · simpa using hvalue
    rw [toData, hc, fieldsToData_eq hs.names (List.Subset.refl _) hl hn, Value.obstacles_dict,
      Value.obstacles_record, List.filterMap_eq_flatMap_toList, List.flatMap_assoc,
      List.flatMap_congr hentry]
    conv_rhs => rw [← List.map_snd_zip (Nat.le_of_eq hl.symm), List.flatMap_map]

/-! ### Shapes without dates and times -/

mutual

/-- Whether no value of a shape has a date or a time in it. -/
def Shape.timeless (free : String → Bool) : Shape → Bool
  | .null | .bool | .int | .float | .str => true
  | .list t | .sequence t | .tupleOf t | .dict _ t | .mapping _ t => t.timeless free
  | .tuple ts | .union ts => Shape.allTimeless free ts
  | .record c => free c
  | _ => false

def Shape.allTimeless (free : String → Bool) : List Shape → Bool
  | [] => true
  | t :: ts => t.timeless free && Shape.allTimeless free ts

end

theorem Shape.allTimeless_iff {ts : List Shape} :
    Shape.allTimeless free ts = true ↔ ∀ t ∈ ts, t.timeless free = true := by
  induction ts with
  | nil => simp [Shape.allTimeless]
  | cons t ts ih => simp [Shape.allTimeless, ih]

/-- **In a value of a shape without dates and times only integers are obstacles.** -/
theorem Fits.timeless (hcat : ∀ c, free c = true → ∀ cls, cat.find? c = some cls →
      ∀ f ∈ cls.fields, f.shape.timeless free = true) {t : Shape} {x : Value}
    (h : Fits cat t x) (ht : t.timeless free = true) : ∀ u ∈ x.obstacles, u = .tooManyDigits := by
  induction h with
  | null | bool | float | str => simp
  | int n => simp
  | any | literal | enumeration => simp [Shape.timeless] at ht
  | union hmem _ ih =>
    rw [Shape.timeless, Shape.allTimeless_iff] at ht
    exact ih (ht _ hmem)
  | list _ ih | sequence _ ih =>
    rw [Value.obstacles_list]
    intro u hu
    obtain ⟨x, hx, hu⟩ := List.mem_flatMap.1 hu
    exact ih x hx ht u hu
  | tupleOf _ ih =>
    rw [Value.obstacles_tuple]
    intro u hu
    obtain ⟨x, hx, hu⟩ := List.mem_flatMap.1 hu
    exact ih x hx ht u hu
  | tuple hl _ ih =>
    rw [Shape.timeless, Shape.allTimeless_iff] at ht
    rw [Value.obstacles_tuple]
    intro u hu
    obtain ⟨x, hx, hu⟩ := List.mem_flatMap.1 hu
    obtain ⟨t, hmem⟩ := exists_mem_zip hl hx
    exact ih hmem (ht t (List.of_mem_zip hmem).1) u hu
  | dict _ _ ih | mapping _ _ ih =>
    rw [Value.obstacles_dict]
    intro u hu
    obtain ⟨e, he, hu⟩ := List.mem_flatMap.1 hu
    exact ih e he ht u hu
  | record hc hl _ _ _ ih =>
    rw [Value.obstacles_record]
    intro u hu
    obtain ⟨e, he, hu⟩ := List.mem_flatMap.1 hu
    obtain ⟨f, hmem⟩ := exists_mem_zip hl he
    exact ih hmem (hcat _ ht _ hc f (List.of_mem_zip hmem).1) u hu

/-! ### The fields of an instance -/

/-- A field is found by its name. -/
theorem lookup_of_mem {fields : List (String × Value)} (hnames : (fields.map (·.1)).Nodup)
    {e : String × Value} (he : e ∈ fields) : fields.lookup e.1 = some e.2 := by
  induction fields with
  | nil => cases he
  | cons a fields ih =>
    rw [List.map_cons, List.nodup_cons] at hnames
    rw [List.lookup_cons]
    obtain rfl | he := List.mem_cons.1 he
    · rw [beq_self_eq_true]
    · have hne : e.1 ≠ a.1 := fun h => hnames.1 (h ▸ List.mem_map_of_mem he)
      rw [beq_false_of_ne hne]
      exact ih hnames.2 he

/-- **An instance has a value of its shape in every field**, and an obstacle in the instance is one
in that value or in the value of another field. -/
theorem Fits.exists_field {cls : RecordClass} (hnames : (cls.fields.map (·.name)).Nodup)
    (hc : cat.find? cls.name = some cls) {x : Value} (h : Fits cat (.record cls.name) x)
    {f : Field} (hf : f ∈ cls.fields) : ∃ fields v, x = .record cls.name fields ∧
      fields.lookup f.name = some v ∧ Fits cat f.shape v ∧
      ∀ u ∈ x.obstacles, u ∈ v.obstacles ∨
        ∃ g ∈ cls.fields, g.name ≠ f.name ∧ ∃ w, Fits cat g.shape w ∧ u ∈ w.obstacles := by
  cases h with
  | @record _ cls' fields hc' hl hn hfits =>
    rw [hc] at hc'
    cases hc'
    have hfields : fields.map (·.1) = cls.fields.map (·.name) := by
      conv_lhs => rw [← List.map_snd_zip (Nat.le_of_eq hl.symm), List.map_map]
      conv_rhs => rw [← List.map_fst_zip (Nat.le_of_eq hl), List.map_map]
      exact List.map_congr_left fun a ha => hn ha
    have hnodup : (fields.map (·.1)).Nodup := hfields ▸ hnames
    obtain ⟨e, he, hname⟩ : ∃ e ∈ fields, e.1 = f.name :=
      List.mem_map.1 (hfields ▸ List.mem_map_of_mem hf)
    obtain ⟨g, hmem⟩ := exists_mem_zip hl he
    obtain rfl : g = f :=
      List.inj_on_of_nodup_map hnames (List.of_mem_zip hmem).1 hf ((hn hmem).symm.trans hname)
    refine ⟨fields, e.2, rfl, hname ▸ lookup_of_mem hnodup he, hfits hmem, fun u hu => ?_⟩
    rw [Value.obstacles_record] at hu
    obtain ⟨a, ha, hu⟩ := List.mem_flatMap.1 hu
    obtain ⟨g', hmem'⟩ := exists_mem_zip hl ha
    by_cases hsame : g'.name = g.name
    · obtain rfl : a = e := List.inj_on_of_nodup_map hnodup ha he
        ((hn hmem').trans (hsame.trans hname.symm))
      exact .inl hu
    · exact .inr ⟨g', (List.of_mem_zip hmem').1, hsame, a.2, hfits hmem', hu⟩

end Schema

namespace Config

/-! ### What a configuration says -/

/-- What a section says about a field is of the shape of the field. -/
theorem fits_fieldOf {c : Value} (h : Fits catalog (.record configuration.name) c)
    (cls : RecordClass) {s f : Field} {t : Shape} {place name : String}
    (hs : configuration.field? place = some s) (hshape : s.shape = .record cls.name)
    (hc : catalog.find? cls.name = some cls) (hnames : (cls.fields.map (·.name)).Nodup)
    (hf : cls.field? name = some f) (ht : f.shape = t) : Fits catalog t (fieldOf c place name) := by
  obtain rfl : s.name = place := by simpa using List.find?_some hs
  obtain rfl : f.name = name := by simpa using List.find?_some hf
  obtain ⟨sections, v, rfl, hv, hfits, -⟩ :=
    h.exists_field (by decide) rfl (List.mem_of_find?_eq_some hs)
  rw [hshape] at hfits
  obtain ⟨fields, w, rfl, hw, hfits, -⟩ :=
    hfits.exists_field hnames hc (List.mem_of_find?_eq_some hf)
  rw [ht] at hfits
  simpa [fieldOf, hv, hw] using hfits

/-- The sections in which there are no dates and times. -/
def isTimeless (c : String) : Bool :=
  [documentsSection, formattingSection, clientSection].any (·.name == c)

/-- In a value of a shape of the sections without dates and times only integers are obstacles. -/
theorem eq_tooManyDigits {t : Shape} {x : Value} (h : Fits catalog t x)
    (ht : t.timeless isTimeless = true) : ∀ u ∈ x.obstacles, u = .tooManyDigits := by
  refine h.timeless (fun c hc cls hcls => ?_) ht
  unfold isTimeless at hc
  simp only [List.any_cons, List.any_nil, Bool.or_false, Bool.or_eq_true, beq_iff_eq] at hc
  rcases hc with rfl | rfl | rfl <;> cases hcls <;> decide

/-- **Dates and times can only be in the initialization options.** -/
theorem mem_obstacles_options {c : Value} (h : Fits catalog (.record configuration.name) c)
    {u : Json.Unwritable} (hu : u ∈ c.obstacles) : u = .tooManyDigits ∨
      u ∈ (fieldOf c "server" "initialization_options").obstacles := by
  obtain ⟨s, hs, hname, hshape⟩ : ∃ s ∈ configuration.fields, s.name = "server" ∧
      s.shape = .record serverSection.name := ⟨_, List.mem_cons_self, rfl, rfl⟩
  obtain ⟨f, hf, hfname⟩ : ∃ f ∈ serverSection.fields, f.name = "initialization_options" := by
    decide
  have hsections : ∀ g ∈ configuration.fields, g.name ≠ "server" →
      g.shape.timeless isTimeless = true := by decide
  have hfields : ∀ g ∈ serverSection.fields, g.name ≠ "initialization_options" →
      g.shape.timeless isTimeless = true := by decide
  obtain ⟨sections, v, rfl, hv, hfits, hsection⟩ := h.exists_field (by decide) rfl hs
  rw [hname] at hv hsection
  rw [hshape] at hfits
  obtain hu | ⟨g, hg, hne, w, hw, hu⟩ := hsection u hu
  · obtain ⟨fields, w, rfl, hw, -, hfield⟩ := hfits.exists_field (by decide) rfl hf
    rw [hfname] at hw hfield
    obtain hu | ⟨g, hg, hne, w', hw', hu⟩ := hfield u hu
    · exact .inr (by simpa [fieldOf, hv, hw] using hu)
    · exact .inl (eq_tooManyDigits hw' (hfields g hg hne) u hu)
  · exact .inl (eq_tooManyDigits hw (hsections g hg hne) u hu)

/-- The name of the client is a text. -/
theorem exists_name {c : Value} (h : Fits catalog (.record configuration.name) c) :
    ∃ name, fieldOf c "client" "name" = .str name := by
  have hname : Fits catalog .str (fieldOf c "client" "name") :=
    fits_fieldOf h clientSection rfl rfl rfl (by decide) rfl rfl
  generalize fieldOf c _ _ = v at hname ⊢
  cases hname with
  | str name => exact ⟨name, rfl⟩

/-- The trace is a text, if there is one. -/
theorem exists_trace {c : Value} (h : Fits catalog (.record configuration.name) c) :
    ∃ trace, fieldOf c "client" "trace" = ofText? trace := by
  have htrace : Fits catalog (.union [.str, .null]) (fieldOf c "client" "trace") :=
    fits_fieldOf h clientSection rfl rfl rfl (by decide) rfl rfl
  generalize fieldOf c _ _ = v at htrace ⊢
  cases htrace with
  | union hmem h =>
    simp only [List.mem_cons, List.not_mem_nil, or_false] at hmem
    obtain rfl | rfl := hmem <;> cases h
    · exact ⟨some _, rfl⟩
    · exact ⟨none, rfl⟩

/-- Initialization options are data of TOML. -/
theorem plain_initialization {c : Value} (h : Fits catalog (.record configuration.name) c) :
    (fieldOf c "server" "initialization_options").Plain := by
  have hoptions : Fits catalog (.union [.dict .str .any, .null])
      (fieldOf c "server" "initialization_options") :=
    fits_fieldOf h serverSection rfl rfl rfl (by decide) rfl rfl
  generalize fieldOf c _ _ = v at hoptions ⊢
  cases hoptions with
  | union hmem h =>
    simp only [List.mem_cons, List.not_mem_nil, or_false] at hmem
    obtain rfl | rfl := hmem
    · cases h with
      | dict hk h =>
        refine .dict hk fun e he => ?_
        cases h e he with
        | any h => exact h
    · cases h
      exact .null

/-! ### Using a configuration -/

/-- How something ends that writes a value with these obstacles as JSON: well if there are none,
and otherwise the first of them is named. -/
def WritesUnless (obstacles : List Json.Unwritable) {α : Type} (r : Except Failure α) : Prop :=
  (obstacles = [] → ∃ a, r = .ok a) ∧
    ∀ u, obstacles.head? = some u → r = .error (.unwritable u)

/-- A configuration is printed in the format that is asked for if it can be written in it. -/
theorem print_eq (con : Console) (c : Value) :
    con.print .toml c = ((con.format.getD .toml).render c).map fun s =>
      if s = "" then con else { con with out := con.out ++ s ++ "\n" } := by
  unfold Console.print
  cases (con.format.getD .toml).render c <;> rfl

/-- Data are written as JSON unless there are obstacles in them. -/
theorem writesUnless {v : Value} (h : v.Plain) (l : Json.Layout) :
    WritesUnless v.obstacles ((Json.render l v).mapError .unwritable) := by
  refine ⟨fun hnone => ?_, fun u hu => ?_⟩
  · obtain ⟨s, hs⟩ := (h.json hnone).writable.fit l 0
    exact ⟨s, mapError_ok_iff.2 hs⟩
  · rw [Json.render, h.unwritable hu]
    rfl

/-- What is done with what was written does not change whether it was. -/
theorem WritesUnless.map {obstacles : List Json.Unwritable} {α β : Type} {r : Except Failure α}
    (h : WritesUnless obstacles r) (f : α → β) : WritesUnless obstacles (r.map f) := by
  refine ⟨fun hnone => ?_, fun u hu => ?_⟩
  · obtain ⟨a, rfl⟩ := h.1 hnone
    exact ⟨f a, rfl⟩
  · rw [h.2 u hu]
    rfl

/-- A message about a request whose number has few digits is written as any data are. -/
theorem frame_render {message : Value}
    (h : ∀ n, Frame.number? message = some n → Digits.fit n = true) :
    Frame.render message = Json.render .compact message := by
  have hshort : (fun n => Digits.fit n || Frame.number? message == some n) = Digits.fit := by
    funext n
    by_cases hn : Frame.number? message = some n
    · rw [h n hn, Bool.true_or]
    · rw [beq_false_of_ne hn, Bool.or_false]
  rw [Frame.render, hshort, Json.render]

/-- A frame is written if its message is. -/
theorem WritesUnless.frame {obstacles : List Json.Unwritable} {message : Value}
    (hnumber : ∀ n, Frame.number? message = some n → Digits.fit n = true)
    (h : WritesUnless obstacles ((Json.render .compact message).mapError .unwritable))
    (process : Option ProcessId) :
    WritesUnless obstacles ((Frame.of process message).mapError .unwritable) := by
  rw [← frame_render hnumber] at h
  obtain ⟨f, hf, -, rfl⟩ | ⟨e, he, hf⟩ := Link.frame_of process message <;> rw [hf]
  · refine ⟨fun _ => ⟨f, rfl⟩, fun u hu => ?_⟩
    have hfails := h.2 u hu
    rw [f.rendered] at hfails
    cases hfails
  · rw [he] at h
    refine ⟨fun hnone => ?_, fun u hu => ?_⟩
    · obtain ⟨s, hs⟩ := h.1 hnone
      cases hs
    · exact congrArg Except.error (Except.error.inj (h.2 u hu))

/-- What is shown of a configuration as JSON are its fields. -/
theorem writesUnless_asJson {c : Value} (h : Fits catalog (.record configuration.name) c)
    (l : Json.Layout) :
    WritesUnless c.obstacles ((asJson Format.catalog l c).mapError .unwritable) := by
  rw [asJson, h.toData_congr sound_catalog (fun _ => find?_format_catalog) clear_configuration,
    ← h.obstacles_toData (o := { nulls := true }) sound_catalog clear_configuration rfl]
  exact writesUnless (h.toData_plain sound_catalog clear_configuration).1 l

/-- A member that is said is what it is said of. -/
theorem eq_of_mem_unlessNull {name : String} {v : Value} {e : String × Value}
    (h : e ∈ Link.unlessNull name v) : e.2 = v := by
  unfold Link.unlessNull at h
  split at h
  · cases h
  · rw [List.mem_singleton.1 h]

theorem obstacles_unlessNull (name : String) (v : Value) :
    (Link.unlessNull name v).flatMap (fun e => e.2.obstacles) = v.obstacles := by
  unfold Link.unlessNull
  split
  · rename_i hnull
    rw [List.flatMap_nil, Value.obstacles_of_isNull hnull]
  · rw [List.flatMap_singleton]

/-- What a client says has the obstacles of its initialization options. -/
theorem writesUnless_request {said : List (String × Value)} {initialization : Value}
    {trace : Option String} (hsaid : ∀ e ∈ said, Json.Plain e.2)
    (hinitialization : initialization.Plain) (process : Option ProcessId) {id : Nat}
    (hid : Digits.fit id = true) :
    WritesUnless initialization.obstacles ((Frame.of process (Link.request id "initialize"
      (Value.table (said ++ (Link.unlessNull "initializationOptions" initialization ++
        Link.unlessNull "trace" (ofText? trace)))))).mapError .unwritable) := by
  set params := said ++ (Link.unlessNull "initializationOptions" initialization ++
    Link.unlessNull "trace" (ofText? trace)) with hparams
  have htrace : (ofText? trace).Plain ∧ (ofText? trace).obstacles = [] := by
    cases trace with
    | none => exact ⟨.null, rfl⟩
    | some s => exact ⟨.str s, rfl⟩
  have hplain : ∀ e ∈ params, e.2.Plain := by
    intro e he
    simp only [hparams, List.mem_append] at he
    obtain he | he | he := he
    · exact (Value.plain_of_json (hsaid e he)).1
    · rw [eq_of_mem_unlessNull he]
      exact hinitialization
    · rw [eq_of_mem_unlessNull he]
      exact htrace.1
  have hobstacles : (Value.table params).obstacles = initialization.obstacles := by
    have hnone : said.flatMap (fun e => e.2.obstacles) = [] :=
      List.flatMap_eq_nil_iff.2 fun e he => (Value.plain_of_json (hsaid e he)).2
    rw [Value.obstacles_table, hparams, List.flatMap_append, List.flatMap_append, hnone,
      obstacles_unlessNull, obstacles_unlessNull, htrace.2, List.append_nil, List.nil_append]
  have hmessage : Link.request id "initialize" (Value.table params) = Value.table [
    ("jsonrpc", Link.version), ("id", .int id), ("method", .str "initialize"),
    ("params", Value.table params)] := rfl
  have hnumber : ∀ n, Frame.number? (Link.request id "initialize" (Value.table params)) = some n →
      Digits.fit n = true := by
    intro n hn
    obtain rfl : (id : Int) = n := by simpa [hmessage, Frame.number?] using hn
    exact hid
  have hwhole : (Link.request id "initialize" (Value.table params)).Plain ∧
      (Link.request id "initialize" (Value.table params)).obstacles =
        initialization.obstacles := by
    rw [hmessage]
    constructor
    · refine .table ?_
      simp [Link.version, Value.Plain.str, Value.Plain.int, Value.Plain.table hplain]
    · rw [Value.obstacles_table, ← hobstacles]
      simp [Link.version, hid]
  rw [← hwhole.2]
  exact (writesUnless hwhole.1 .compact).frame hnumber process

/-- **What an accepted configuration is good for.**  It is printed as TOML and as text unless an
integer in what is printed has too many digits.  It is printed as JSON unless there are obstacles
in it: dates or times, which can only be in the initialization options, or such integers.  There
is a greeting of a client that is made from it unless the trace is a text that the protocol does
not know, and it is written unless there are obstacles in the initialization options. -/
theorem ofText_usable {tool : Option String} {text : String} {c : Value}
    (h : ofText tool text = .ok c) :
    let options := fieldOf c "server" "initialization_options"
    let traces := Value.null :: Link.traceLevels.map .str
    (∀ con : Console, con.format = none ∨ con.format = some .toml →
      if (Format.asTable c).shows then ∃ con', con.print .toml c = .ok con'
      else con.print .toml c = .error .unshown) ∧
    (∀ con : Console, con.format = some .text →
      if c.shows then ∃ con', con.print .toml c = .ok con'
      else con.print .toml c = .error .unshown) ∧
    (∀ con : Console, con.format = some .json ∨ con.format = some .indentedJson →
      WritesUnless c.obstacles (con.print .toml c)) ∧
    (∀ u ∈ c.obstacles, u = .tooManyDigits ∨ u ∈ options.obstacles) ∧
    ∀ (client : Client) (root : Option String), client.options = clientOptions c root →
      client.folder.toList.head? = some '/' →
      (fieldOf c "client" "trace" ∈ traces → ∃ params, Link.greeting client = .ok params ∧
        ∀ process (id : Nat), Digits.fit id = true → WritesUnless options.obstacles
          ((Frame.of process (Link.request id "initialize" params)).mapError .unwritable)) ∧
      (fieldOf c "client" "trace" ∉ traces →
        Link.greeting client = .error (.wire (.members "InitializeParams" 1))) := by
  obtain ⟨v, hv, hc⟩ := exists_datum_of_ofText h
  have hfits := (Reads.of_decode hc).fits sound_catalog clear_configuration hv.plain
  refine ⟨fun con hformat => ?_, fun con hformat => ?_, fun con hformat => ?_,
    fun u => mem_obstacles_options hfits, fun client root hoptions hfolder => ?_⟩
  · have hrender := render_toml h
    have htoml : con.format.getD .toml = .toml := by
      obtain hformat | hformat := hformat <;> rw [hformat] <;> rfl
    rw [print_eq, htoml]
    split at hrender
    · obtain ⟨s, hs⟩ := hrender
      rw [if_pos ‹_›, hs]
      exact ⟨_, rfl⟩
    · rw [if_neg ‹_›, hrender]
      rfl
  · have hplain : c.plainShows = c.shows := by
      cases hfits
      rfl
    rw [print_eq, hformat, Option.getD_some, Format.render, hplain]
    split
    · exact ⟨_, rfl⟩
    · rfl
  · rw [print_eq]
    refine WritesUnless.map ?_ _
    obtain hformat | hformat := hformat <;> rw [hformat]
    · exact writesUnless_asJson hfits .spaced
    · exact writesUnless_asJson hfits .indentedBy4
  · obtain ⟨name, hname⟩ := exists_name hfits
    obtain ⟨trace, htrace⟩ := exists_trace hfits
    obtain ⟨said, hsaid, hgreeting⟩ := Link.greeting_spec hfolder
      (show client.options.name = .str name by rw [hoptions]; exact hname)
      (show client.options.trace = ofText? trace by rw [hoptions]; exact htrace)
    have hknown : Link.traceKnown trace = true ↔
        fieldOf c "client" "trace" ∈ Value.null :: Link.traceLevels.map .str := by
      rw [htrace]
      cases trace <;> simp [Link.traceKnown, ofText?]
    rw [← hknown, hgreeting, hoptions]
    refine ⟨fun hk => ⟨_, if_pos hk, fun process id hid => ?_⟩, fun hk => if_neg hk⟩
    rw [clientOptions, htrace]
    exact writesUnless_request hsaid (plain_initialization hfits) process hid

/-- A text with a date in the initialization options. -/
def datedText : String := "[server.initialization-options]\nday = 2020-01-01\n"

/-- The configuration that it says. -/
def dated : Value := .record "BridgeConfig" [
  ("server", .record "ServerConfig" [
    ("command", .str "efm-langserver"), ("args", .list []), ("debug_command", .null),
    ("debug_args", .null), ("env", .dict []), ("cwd", .null),
    ("initialization_options", Value.table [("day", .moment (.day ⟨2020, 1, 1⟩))])]),
  ("documents", defaultsOf documentsSection),
  ("formatting", defaultsOf formattingSection),
  ("client", defaultsOf clientSection)]

theorem ofText_dated : ofText none datedText = .ok dated := by cbv

theorem ofText_usable_dated : ofText none datedText = .ok dated ∧
    (∃ con', Console.print {} .toml dated = .ok con') ∧
    (∃ con', Console.print { format := some .text } .toml dated = .ok con') ∧
    Console.print { format := some .json } .toml dated =
      .error (.unwritable (.value "date")) ∧
    ∃ params, Link.greeting { options := clientOptions dated none } = .ok params ∧
      (Frame.of none (Link.request 1 "initialize" params)).mapError Failure.unwritable =
        .error (.unwritable (.value "date")) := by
  obtain ⟨htoml, htext, hjson, -, hgreeting⟩ := ofText_usable ofText_dated
  have hshown : (Format.asTable dated).shows = true ∧ dated.shows = true := by decide +kernel
  have hfirst : dated.obstacles.head? = some (.value "date") ∧
      (fieldOf dated "server" "initialization_options").obstacles.head? =
        some (.value "date") := by decide +kernel
  obtain ⟨params, hparams, hframe⟩ :=
    (hgreeting { options := clientOptions dated none } none rfl (by decide)).1 List.mem_cons_self
  refine ⟨ofText_dated, ?_, ?_, (hjson _ (.inl rfl)).2 _ hfirst.1, params, hparams,
    (hframe none 1 (by decide +kernel)).2 _ hfirst.2⟩
  · simpa only [hshown.1, if_true] using htoml {} (.inl rfl)
  · simpa only [hshown.2, if_true] using htext { format := some .text } rfl

/-- Not every accepted configuration can be shown in every format and told to the server. -/
theorem not_ofText_usable : ¬∀ (text : String) (c : Value), ofText none text = .ok c →
    (∀ f : Format, ∃ s, f.render c = .ok s) ∧
    ∀ (client : Client) (root : Option String), client.options = clientOptions c root →
      client.folder.toList.head? = some '/' → ∃ params s, Link.greeting client = .ok params ∧
        Json.render .compact (Link.request 1 "initialize" params) = .ok s := by
  intro h
  obtain ⟨hformats, -⟩ := h datedText dated ofText_dated
  obtain ⟨s, hs⟩ := hformats .json
  have hfails : Format.json.render dated = .error (.unwritable (.value "date")) := by rfl
  rw [hfails] at hs
  cases hs

end Config

end EditorBridge
