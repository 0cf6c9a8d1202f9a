/-
What the check of a new instance lets through.

The check writes the value of every field as plain data and decodes them, and then throws away what
comes out.  So a field passes exactly if its data are accepted where its shape is asked for
(`Passes`), and the instance keeps the value itself.  A value of the shape always passes
(`Holds.passes`), but so does a table in place of a record, a tuple in place of a list, or the value
of a member in place of the member: all that is known of a value that passed is that its data are
those of a value of the shape.

The fields that do not pass are named, all of them and no others, in their order.  An integer that
is too large for a floating point number, or that has too many digits to be shown, ends the check
before it can name anything.
-/
import EditorBridge.Proofs.Schema.Accepting
import EditorBridge.Proofs.Schema.Again
import EditorBridge.Proofs.Schema.FirstWrong
import EditorBridge.Proofs.Schema.Holding

namespace EditorBridge.Schema

variable {cat : Catalog} {known : String → Bool} {strict : Bool}

/-- The check lets a value through where a shape is asked for: its data are accepted, whatever keys
they have beside those that a class knows. -/
def Passes (cat : Catalog) (t : Shape) (x : Value) : Prop := Accepts cat false t (toData cat {} x)

/-! ### Values of a shape -/

/-- A class whose hidden fields have defaults. -/
def Catalog.Hides (cat : Catalog) : Prop :=
  ∀ c cls, cat.find? c = some cls → ∀ f ∈ cls.fields, f.given = false → f.default ≠ none

/-- What equals a scalar is written as what equals it. -/
theorem same_toData {v o : Value} {om : Omission} (ho : o.isScalar = true) (h : v.same o = true) :
    (toData cat om v).same o = true := by
  unfold Value.isScalar at ho
  cases v with
  | member e n numeric w =>
    rw [toData]
    split at ho <;> simp_all [Value.same]
  | null | bool | int | float | str | bytes | moment | thing => simpa [toData] using h
  | list | tuple | set | dict | record => split at ho <;> simp_all [Value.same]

/-- **A value of a shape passes.** -/
theorem Holds.passes (hcat : cat.Sound known strict) (hsteady : cat.Steady) (hhides : cat.Hides)
    {t : Shape} {x : Value} (h : Holds cat .none t x) (hclear : t.clear known = true)
    (hordinary : t.ordinary = true) : Passes cat t x := by
  unfold Passes
  have hitems {t : Shape} {xs : List Value}
      (hxs : ∀ x ∈ xs, Accepts cat false t (toData cat {} x)) :
      ∀ w ∈ itemsToData cat {} xs, Accepts cat false t w := by
    rw [itemsToData_eq]
    exact List.forall_mem_map.2 hxs
  have hentries {t : Shape} {es : List (Value × Value)}
      (hes : ∀ e ∈ es, Accepts cat false t (toData cat {} e.2)) :
      ∀ e ∈ entriesToData cat {} es, Accepts cat false t e.2 := by
    rw [entriesToData_eq]
    exact List.forall_mem_map.2 hes
  induction h with
  | any v => exact .scalar rfl
  | null | bool | int | number | float | str =>
    simp only [toData]
    exact .scalar rfl
  | list _ ih =>
    rw [toData]
    exact .list rfl (hitems fun x hx => ih x hx hclear hordinary)
  | sequence hv _ ih =>
    have hxs := hitems fun x hx => ih x hx hclear hordinary
    obtain rfl | rfl := eq_list_or_tuple hv <;>
      · rw [toData]
        exact .sequence rfl hxs
  | tupleOf _ ih =>
    rw [toData]
    exact .tupleOf rfl (hitems fun x hx => ih x hx hclear hordinary)
  | @tuple ts xs hl _ ih =>
    rw [Shape.clear, Bool.and_eq_true, Shape.allClear_iff] at hclear
    rw [Shape.ordinary_tuple] at hordinary
    rw [toData, itemsToData_eq]
    refine .tuple rfl (by simpa using hl) fun {t w} hmem => ?_
    rw [List.zip_map_right] at hmem
    obtain ⟨⟨t, x⟩, hx, heq⟩ := List.mem_map.1 hmem
    cases heq
    have ht := (List.of_mem_zip hx).1
    exact ih hx (hclear.2 t ht) (hordinary t ht)
  | dict _ _ _ ih =>
    rw [toData]
    exact .dict (hentries fun e he => ih e he hclear hordinary)
  | mapping _ _ _ ih =>
    rw [toData]
    exact .mapping (hentries fun e he => ih e he hclear hordinary)
  | union hmem _ ih =>
    rw [Shape.clear, Bool.and_eq_true, Shape.allClear_iff] at hclear
    rw [Shape.ordinary_union] at hordinary
    exact .union hmem (ih (hclear.2 _ hmem) (hordinary _ hmem))
  | literal ho hs =>
    rw [Shape.ordinary_literal] at hordinary
    exact .literal ho (same_toData (hordinary _ ho) hs)
  | @enumeration e m hm =>
    rw [Enumeration.member, toData]
    exact .scalar (x := e.member m) (by simp [scalar?, Enumeration.find?_value hclear hm])
  | @record c cls fields hc hl hn _ ih =>
    have hs := hcat.of_find? hclear hc
    have htold {f : Field} (hf : f ∈ cls.fields) : ∃ e, (f, e) ∈ cls.fields.zip fields ∧
        cls.told? (fieldsToData cat {} (some cls) fields) f =
          if f.given = true ∧ Omission.omits {} f.default e.2 = false then some (toData cat {} e.2)
          else none := by
      rw [← List.map_fst_zip (Nat.le_of_eq hl)] at hf
      obtain ⟨⟨f, e⟩, hmem, rfl⟩ := List.mem_map.1 hf
      exact ⟨e, hmem, RecordClass.told?_fieldsToData hs.names hs.keys hl hn hmem⟩
    rw [toData, hc]
    refine .record hc (fun h => by cases h) (fun f hf v hv => ?_) fun f hf hnone => ?_
    · obtain ⟨e, hmem, heq⟩ := htold hf
      rw [heq] at hv
      split at hv <;> cases hv
      exact ih hmem (fun h => h.1) (hs.shapes f hf) ((hsteady c cls hc).shapes f hf).ordinary
    · obtain ⟨e, hmem, heq⟩ := htold hf
      refine hhides c cls hc f hf ?_
      by_contra hgiven
      rw [heq, if_pos ⟨by simpa using hgiven, rfl⟩] at hnone
      cases hnone
  | bareList | bareTuple | bareDict | typed => simp [Shape.clear] at hclear
  | longTuple hl => cases hl
  | listForTuple hl => cases hl

/-! ### The check -/

section Check

open scoped Classical

/-- **The check names exactly the fields that do not pass**, in their order, each with a message
about it, and what passes is read; or an integer is too large or cannot be shown. -/
theorem wrongFields_names (hcat : cat.Shows) {cls : RecordClass} {fs : List Field}
    (hfs : ∀ f ∈ fs, cls.field? f.name = some f) (value : Field → Value) :
    match wrongFields cat 0 cls (fs.map fun f => (f.name, value f)) with
    | .ok errors =>
      errors.map (·.1) = (fs.filter fun f => ¬Passes cat f.shape (value f)).map (·.name) ∧
        (∀ e ∈ errors, ∃ q problem, e.2 = (Error.wrong (.str e.1 :: q) problem).message) ∧
        ∀ f ∈ fs, Passes cat f.shape (value f) →
          ∃ y, decode cat 0 false [] f.shape (toData cat {} (value f)) = .ok y
    | .error e => e = .tooLarge ∧ (∃ f ∈ fs, Exceeds (toData cat {} (value f))) ∨
      e = .unshown ∧ ∃ f ∈ fs, Veiled f.shape (toData cat {} (value f)) := by
  induction fs with
  | nil => simp [wrongFields]
  | cons f fs ih =>
    obtain ⟨hf, hfs⟩ := List.forall_mem_cons.1 hfs
    have hrest := ih hfs
    -- what ends the check of the other fields ends the whole check
    have hlater {e : Error} (h : e = .tooLarge ∧ (∃ f ∈ fs, Exceeds (toData cat {} (value f))) ∨
        e = .unshown ∧ ∃ f ∈ fs, Veiled f.shape (toData cat {} (value f))) :
        e = .tooLarge ∧ (∃ g ∈ f :: fs, Exceeds (toData cat {} (value g))) ∨
          e = .unshown ∧ ∃ g ∈ f :: fs, Veiled g.shape (toData cat {} (value g)) :=
      h.imp (And.imp_right List.exists_mem_cons_of_exists)
        (And.imp_right List.exists_mem_cons_of_exists)
    have hdecides : Decides (Passes cat f.shape (value f))
        (decode cat 0 false [.str f.name] f.shape (toData cat {} (value f))) :=
      decode_decides (.inl rfl)
    have hshift : decode cat 0 false [.str f.name] f.shape (toData cat {} (value f)) = _ :=
      decode_shifted [.str f.name]
    rw [List.map_cons, wrongFields, hf]
    dsimp only
    cases hx : decode cat 0 false [] f.shape (toData cat {} (value f)) with
    | ok x =>
      rw [hx] at hshift
      rw [hshift] at hdecides ⊢
      have hpass : Passes cat f.shape (value f) := hdecides
      rw [List.filter_cons_of_neg (by simpa using hpass)]
      dsimp only [Except.mapError]
      cases hes : wrongFields cat 0 cls (fs.map fun f => (f.name, value f)) with
      | ok es =>
        rw [hes] at hrest
        obtain ⟨hnames, hmessages, hread⟩ := hrest
        exact ⟨hnames, hmessages, List.forall_mem_cons.2 ⟨fun _ => ⟨x, hx⟩, hread⟩⟩
      | error e =>
        rw [hes] at hrest
        exact hlater hrest
    | error e =>
      rw [hx] at hshift
      rw [hshift] at hdecides ⊢
      cases e with
      | wrong q problem =>
        have hfail : ¬Passes cat f.shape (value f) := hdecides
        rw [List.filter_cons_of_pos (by simpa using hfail)]
        dsimp only [Except.mapError, Error.below]
        cases hes : wrongFields cat 0 cls (fs.map fun f => (f.name, value f)) with
        | ok es =>
          rw [hes] at hrest
          obtain ⟨hnames, hmessages, hread⟩ := hrest
          exact ⟨congrArg (f.name :: ·) hnames,
            List.forall_mem_cons.2 ⟨⟨q, problem, rfl⟩, hmessages⟩,
            List.forall_mem_cons.2 ⟨fun h => absurd h hfail, hread⟩⟩
        | error e =>
          rw [hes] at hrest
          exact hlater hrest
      | tooLarge =>
        exact .inl ⟨rfl, f, List.mem_cons_self, decode_tooLarge (.inl rfl) hx⟩
      | unshown =>
        exact .inr ⟨rfl, f, List.mem_cons_self, decode_unshown hcat hx⟩
      | invalid | unexpectedArgument | missingArguments => exact hdecides.elim

/-- What a field of a new instance holds: the argument of its name, otherwise its default. -/
def Field.valueFrom (args : List (String × Value)) (f : Field) : Value :=
  ((args.lookup f.name) <|> f.default).getD .null

/-- A new instance with some arguments. -/
def RecordClass.made (cls : RecordClass) (args : List (String × Value)) : Value :=
  .record cls.name (cls.fields.map fun f => (f.name, f.valueFrom args))

/-- The arguments are for parameters of a class. -/
def RecordClass.Takes (cls : RecordClass) (args : List (String × Value)) : Prop :=
  ∀ a ∈ args, ∃ f ∈ cls.fields, f.given = true ∧ f.name = a.1

/-- A checked class takes its arguments as they are and asks the check. -/
theorem construct_eq {cls : RecordClass} {args : List (String × Value)}
    (hchecked : cls.checked = true) (hdefaults : ∀ f ∈ cls.fields, f.default ≠ none)
    (hargs : cls.Takes args) :
    construct cat cls args = (do
      match ← wrongFields cat 0 cls (cls.fields.map fun f => (f.name, f.valueFrom args)) with
      | [] => .ok (cls.made args)
      | es => .error (.invalid cls.name es)) := by
  have hknown :
      (args.find? fun a => !(cls.fields.filter (·.given)).any (·.name == a.1)) = none := by
    rw [List.find?_eq_none]
    intro a ha
    obtain ⟨f, hf, hgiven, hname⟩ := hargs a ha
    simp only [Bool.not_eq_true', Bool.not_eq_false, List.any_eq_true, List.mem_filter, beq_iff_eq]
    exact ⟨f, ⟨hf, hgiven⟩, hname⟩
  have hmissing : ((cls.fields.filter (·.given)).filter fun f =>
      f.default.isNone && (args.lookup f.name).isNone) = [] := by
    rw [List.filter_eq_nil_iff]
    intro f hf
    have hdefault := hdefaults f (List.mem_of_mem_filter hf)
    simp [hdefault]
  unfold construct
  dsimp only
  rw [hknown, hmissing]
  dsimp only
  rw [if_neg (by simp), if_pos hchecked]
  rfl

/-- An argument that is for no parameter is refused before anything is checked. -/
theorem construct_of_not_takes {cls : RecordClass} {args : List (String × Value)}
    (hargs : ¬cls.Takes args) : ∃ a ∈ args, (∀ f ∈ cls.fields, f.given = true → f.name ≠ a.1) ∧
      construct cat cls args = .error (.unexpectedArgument cls.name a.1) := by
  cases hfind : args.find? fun a => !(cls.fields.filter (·.given)).any (·.name == a.1) with
  | some a =>
    refine ⟨a, List.mem_of_find?_eq_some hfind, fun f hf hgiven hname => ?_, ?_⟩
    · have hunknown := List.find?_some hfind
      rw [Bool.not_eq_true', List.any_eq_false] at hunknown
      exact hunknown f (List.mem_filter.2 ⟨hf, hgiven⟩) (by simpa using hname)
    · unfold construct
      dsimp only
      rw [hfind]
  | none =>
    refine absurd (fun a ha => ?_) hargs
    have hknown := List.find?_eq_none.1 hfind a ha
    simp only [Bool.not_eq_true', Bool.not_eq_false, List.any_eq_true, List.mem_filter,
      beq_iff_eq] at hknown
    obtain ⟨f, ⟨hf, hgiven⟩, hname⟩ := hknown
    exact ⟨f, hf, hgiven, hname⟩

namespace Catalog

theorem full_hides : full.Hides := by
  have hall : ∀ cls ∈ full.classes, ∀ f ∈ cls.fields, f.given = false →
      f.default.isSome = true := by
    decide
  intro c cls hc f hf hgiven hnone
  have hsome := hall cls (List.mem_of_find?_eq_some hc) f hf hgiven
  rw [hnone] at hsome
  cases hsome

theorem full_checked_defaults : ∀ cls ∈ full.classes, cls.checked = true →
    ∀ f ∈ cls.fields, f.default.isSome = true := by decide

theorem full_find? {cls : RecordClass} (hcls : cls ∈ full.classes) :
    full.find? cls.name = some cls :=
  Enumeration.find?_eq_of_unique hcls (beq_self_eq_true _) fun c hc hname =>
    List.inj_on_of_nodup_map full_names hc hcls (by simpa using hname)

/-- **A checked class makes an instance of what it is given, if the data of every field are accepted
where the shape of the field is asked for.**  Otherwise it names exactly the fields of which that
is not so, unless an integer is too large for a floating point number or has too many digits to be
shown.  An argument that is for no field is refused first.

A field that holds a value of its shape is never named.  What holds for a field of an instance is
less: its data are those of a value of the shape. -/
theorem full_checks {cls : RecordClass} (hcls : cls ∈ full.classes) (hchecked : cls.checked = true)
    (args : List (String × Value)) :
    (cls.Takes args → match construct full cls args with
      | .ok x => x = cls.made args ∧ ∀ f ∈ cls.fields, Passes full f.shape (f.valueFrom args) ∧
        ∃ y, Reads full f.shape (toData full {} (f.valueFrom args)) y ∧
          Holds full (.ofRead (toData full {} (f.valueFrom args))) f.shape y
      | .error (.invalid c errors) => c = cls.name ∧ errors ≠ [] ∧
        errors.map (·.1) =
          (cls.fields.filter fun f => ¬Passes full f.shape (f.valueFrom args)).map (·.name) ∧
        ∀ e ∈ errors, ∃ q problem, e.2 = (Error.wrong (.str e.1 :: q) problem).message
      | .error e =>
        e = .tooLarge ∧ (∃ f ∈ cls.fields, Exceeds (toData full {} (f.valueFrom args))) ∨
        e = .unshown ∧ ∃ f ∈ cls.fields, Veiled f.shape (toData full {} (f.valueFrom args))) ∧
    (¬cls.Takes args → ∃ a ∈ args, (∀ f ∈ cls.fields, f.given = true → f.name ≠ a.1) ∧
      construct full cls args = .error (.unexpectedArgument cls.name a.1)) ∧
    ∀ f ∈ cls.fields, Holds full .none f.shape (f.valueFrom args) →
      Passes full f.shape (f.valueFrom args) := by
  have hfind := full_find? hcls
  have hs := full_sound hfind
  refine ⟨fun hargs => ?_, construct_of_not_takes, fun f hf h => ?_⟩
  · have hdefaults : ∀ f ∈ cls.fields, f.default ≠ none := fun f hf =>
      Option.isSome_iff_ne_none.1 (full_checked_defaults cls hcls hchecked f hf)
    have hfield : ∀ f ∈ cls.fields, cls.field? f.name = some f := fun f hf =>
      Enumeration.find?_eq_of_unique hf (beq_self_eq_true _) fun g hg hname =>
        List.inj_on_of_nodup_map hs.names hg hf (beq_iff_eq.1 hname)
    have hnames := wrongFields_names full_shows hfield fun f => f.valueFrom args
    rw [construct_eq hchecked hdefaults hargs]
    cases herrors : wrongFields full 0 cls (cls.fields.map fun f => (f.name, f.valueFrom args)) with
    | error e =>
      rw [herrors] at hnames
      obtain ⟨rfl, hlarge⟩ | ⟨rfl, hveiled⟩ := hnames
      · exact .inl ⟨rfl, hlarge⟩
      · exact .inr ⟨rfl, hveiled⟩
    | ok errors =>
      rw [herrors] at hnames
      obtain ⟨hnames, hmessages, hread⟩ := hnames
      cases errors with
      | cons e es => exact ⟨rfl, List.cons_ne_nil _ _, hnames, hmessages⟩
      | nil =>
        refine ⟨rfl, fun f hf => ?_⟩
        have hpasses : Passes full f.shape (f.valueFrom args) := by
          have hnil := List.map_eq_nil_iff.1 hnames.symm
          simpa using List.filter_eq_nil_iff.1 hnil f hf
        obtain ⟨y, hy⟩ := hread f hf hpasses
        have hreads := Reads.of_decode hy
        exact ⟨hpasses, y, hreads, hreads.holds trivial trivial fun _ hk => hk⟩
  · exact h.passes (sound_of_check (full_check false)) full_steady full_hides (hs.shapes f hf)
      (full_ordinary cls hcls f hf)

/-- A text is no width of a tabulator. -/
theorem full_checks_options :
    construct full Specimen.options [("tab_size", .str "4")] = .error (.invalid "Options"
        [("tab_size", (Error.wrong [.str "tab_size"] (.expected "int" "str")).message)]) ∧
      ¬Passes full .int (.str "4") := by
  have hcls : Specimen.options ∈ full.classes := by simp [full, all, Specimen.classes]
  have hargs : Specimen.options.Takes [("tab_size", .str "4")] := by
    intro a ha
    rw [List.mem_singleton.1 ha]
    exact ⟨_, List.mem_cons_self, rfl, rfl⟩
  have hconstruct : construct full Specimen.options [("tab_size", .str "4")] =
      .error (.invalid "Options"
        [("tab_size", (Error.wrong [.str "tab_size"] (.expected "int" "str")).message)]) := by
    have hdecode : decode full 0 false [.str "tab_size"] .int (toData full {} (.str "4")) =
        .error (.wrong [.str "tab_size"] (.expected "int" "str")) := by cbv
    have hrest : wrongFields full 0 Specimen.options [("names", .list []), ("extra", .dict [])] =
        .ok [] := by cbv
    rw [construct_eq rfl (by simp [Specimen.options]) hargs]
    change (wrongFields full 0 Specimen.options
      (("tab_size", .str "4") :: [("names", .list []), ("extra", .dict [])]) >>= _) = _
    rw [wrongFields, hrest]
    simp [RecordClass.field?, Specimen.options, hdecode]
    rfl
  have hchecks := (full_checks hcls rfl [("tab_size", .str "4")]).1 hargs
  rw [hconstruct] at hchecks
  obtain ⟨-, -, hnames, -⟩ := hchecks
  refine ⟨hconstruct, fun hpasses => ?_⟩
  have hmem : "tab_size" ∈ (Specimen.options.fields.filter fun f =>
      ¬Passes full f.shape (f.valueFrom [("tab_size", .str "4")])).map (·.name) := by
    rw [← hnames]
    exact List.mem_singleton_self _
  obtain ⟨f, hf, hname⟩ := List.mem_map.1 hmem
  obtain ⟨hf, hnot⟩ := List.mem_filter.1 hf
  simp only [Specimen.options, List.mem_cons, List.not_mem_nil, or_false] at hf
  obtain rfl | rfl | rfl := hf
  · exact of_decide_eq_true hnot hpasses
  · exact absurd hname (by decide)
  · exact absurd hname (by decide)

/-- **An instance may hold what is no value of the shape of a field**: a table where a section is
asked for, a tuple where a list is, the value of a member where the member is.  And a number that is
too large is not named. -/
theorem not_full_checks :
    (construct full Config.configuration [("server", .dict [])] =
        .ok (Config.configuration.made [("server", .dict [])]) ∧
      ¬Holds full .none (.record "ServerConfig") (.dict [])) ∧
    (construct full Specimen.options [("names", .tuple [.str "a"])] =
        .ok (Specimen.options.made [("names", .tuple [.str "a"])]) ∧
      ¬Holds full .none (.list .str) (.tuple [.str "a"])) ∧
    (construct full Specimen.mixed [("level", .int 1)] =
        .ok (Specimen.mixed.made [("level", .int 1)]) ∧
      ¬Holds full .none (.optional (.enumeration Specimen.level)) (.int 1)) ∧
    construct full Specimen.mixed [("ratio", .int beyond)] = .error .tooLarge := by
  refine ⟨⟨by cbv, fun h => by cases h⟩, ⟨by cbv, fun h => by cases h⟩, ⟨by cbv, fun h => ?_⟩, ?_⟩
  · rw [show Shape.optional (.enumeration Specimen.level) =
      .union [.enumeration Specimen.level, .null] by rfl] at h
    cases h with
    | union ht h =>
      simp only [List.mem_cons, List.not_mem_nil, or_false] at ht
      obtain rfl | rfl := ht
      · cases h
      · cases h
  · have hargs : Specimen.mixed.Takes [("ratio", .int beyond)] := by
      intro a ha
      rw [List.mem_singleton.1 ha]
      exact ⟨_, List.mem_cons_self, rfl, rfl⟩
    rw [construct_eq rfl (by simp [Specimen.mixed]) hargs]
    change (wrongFields full 0 Specimen.mixed (("ratio", .int beyond) :: _) >>= _) = _
    rw [wrongFields]
    simp [RecordClass.field?, Specimen.mixed, toData, decode_float_of_none ofInt?_beyond]
    rfl

end Catalog

end Check

end EditorBridge.Schema
