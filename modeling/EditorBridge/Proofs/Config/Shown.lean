/-
A configuration that is shown can be loaded again.

What is shown is the table of a configuration without the fields that hold their defaults and
without nulls.  Nothing is lost by the second: a configuration is read from TOML, which has no
null, so a null in it can only be a default, and defaults are left out at every level
(`Reads.datum`).  The table that is left is read back strictly (`Fits.readsBack`).
-/
import EditorBridge.Config.Files
import EditorBridge.Config.Options
import EditorBridge.Program.Console
import EditorBridge.Proofs.Schema.Catalogs
import EditorBridge.Proofs.Toml.Datum
import Mathlib

namespace EditorBridge

open Schema
open Toml (Datum)

variable {cat cat' : Catalog} {known : String → Bool} {strict : Bool} {o : Omission}

namespace Schema

/-! ### What is left of data of TOML -/

/-- **Data of TOML that were read are written as data of TOML**, if defaults are left out. -/
theorem Reads.datum (hcat : cat.Sound known strict) {t : Shape} {v x : Value}
    (h : Reads cat t v x) (ht : t.clear known = true) (hv : Datum v) :
    Datum (toData cat { defaults := true } x) := by
  have hitems {v : Value} {vs : List Value} (hv : Datum v) (h : items? v = some vs) :
      ∀ w ∈ vs, Datum w := by
    cases hv <;> cases h
    assumption
  have hlist {xs : List Value} (h : ∀ x ∈ xs, Datum (toData cat { defaults := true } x)) :
      Datum (.list (itemsToData cat { defaults := true } xs)) := by
    rw [itemsToData_eq]
    refine .list fun w hw => ?_
    obtain ⟨x, hx, rfl⟩ := List.mem_map.1 hw
    exact h x hx
  induction h with
  | scalar h =>
    unfold scalar? at h
    split at h
    · cases h
      rwa [toData_of_plain hv.plain]
    · cases hv
    · cases h
      rwa [toData_of_plain hv.plain]
    · cases h
      rwa [toData_of_plain hv.plain]
    · cases hv
    · cases h
      rwa [toData_of_plain hv.plain]
    · unfold scalar?.asFloat at h
      split at h <;> cases h
      rw [toData_of_plain (.float _)]
      exact .float _
    · cases hv
    · cases h
      rwa [toData_of_plain hv.plain]
    · obtain ⟨y, hy, hx⟩ := Option.map_eq_some_iff.1 h
      cases hx
      obtain ⟨m, hm, rfl⟩ := Enumeration.exists_of_find? hy
      rw [Enumeration.member, toData]
      obtain ⟨n, hn⟩ | ⟨-, s, hs⟩ := Enumeration.value_of_isPlain ht hm
      · rw [hn]
        exact .int n
      · rw [hs]
        exact .str s
    · simp [Shape.clear] at ht
    · cases h
  | union hmem _ ih =>
    rw [Shape.clear, Bool.and_eq_true, Shape.allClear_iff] at ht
    exact ih (ht.2 _ hmem) hv
  | literal => rwa [toData_of_plain hv.plain]
  | list hvs hl _ ih | sequence hvs hl _ ih | tupleOf hvs hl _ ih =>
    rw [toData]
    refine hlist fun x hx => ?_
    obtain ⟨v, hmem⟩ := exists_mem_zip hl hx
    exact ih hmem ht (hitems hv hvs v (List.of_mem_zip hmem).1)
  | tuple hvs hlt hl _ ih =>
    rw [Shape.clear, Bool.and_eq_true, Shape.allClear_iff] at ht
    rw [toData]
    refine hlist fun x hx => ?_
    obtain ⟨t, v, hmem⟩ := exists_mem_zip_of_mem hlt hl hx
    obtain ⟨ht', hmem'⟩ := List.of_mem_zip hmem
    exact ih hmem (ht.2 t ht') (hitems hv hvs v (List.of_mem_zip hmem').1)
  | anyTuple | bareList | bareTuple | bareDict => simp [Shape.clear] at ht
  | dict hl hk _ ih | mapping hl hk _ ih =>
    cases hv with
    | dict hkeys hvs =>
      rw [toData, entriesToData_eq]
      refine .dict (fun a ha => ?_) fun a ha => ?_ <;>
        obtain ⟨x, hx, rfl⟩ := List.mem_map.1 ha <;>
        obtain ⟨e, hmem⟩ := exists_mem_zip hl hx
      · rw [hk hmem]
        exact hkeys e (List.of_mem_zip hmem).1
      · exact ih hmem ht (hvs e (List.of_mem_zip hmem).1)
  | record hc hl hn _ hd ih =>
    have hs := hcat.of_find? ht hc
    cases hv with
    | dict _ hvs =>
      rw [toData, hc]
      refine .dict (fun a ha => ?_) fun a ha => ?_ <;>
        obtain ⟨f, e, hmem, hkept, rfl⟩ := exists_of_mem_fieldsToData hs.names hl hn ha
      · exact ⟨_, rfl⟩
      · have hf := (List.of_mem_zip hmem).1
        cases htold : RecordClass.told? _ _ f with
        | some v =>
          obtain ⟨k, hk⟩ := RecordClass.exists_mem_of_told htold
          exact ih hmem htold (hs.shapes f hf) (hvs _ hk)
        | none =>
          -- a default equals itself, so it would be left out
          have hdefault := hd hmem htold
          have hsame := (hs.simple f hf _ hdefault).definite.same_self
          simp [Omission.omits, hdefault, hsame] at hkept

/-! ### The table of a record -/

/-- The table of a value is the same in catalogs that agree on the classes in it. -/
theorem Fits.toData_congr (hcat : cat.Sound known strict)
    (hagree : ∀ c, known c = true → cat'.find? c = cat.find? c) {t : Shape} {x : Value}
    (h : Fits cat t x) (ht : t.clear known = true) : toData cat' o x = toData cat o x := by
  induction h with
  | any h | literal h => rw [toData_of_plain h, toData_of_plain h]
  | null | bool | int | float | str => rw [toData, toData] <;> simp
  | enumeration => rw [Enumeration.member, toData, toData]
  | union hmem _ ih =>
    rw [Shape.clear, Bool.and_eq_true, Shape.allClear_iff] at ht
    exact ih (ht.2 _ hmem)
  | list _ ih | sequence _ ih | tupleOf _ ih =>
    rw [toData, toData, itemsToData_eq, itemsToData_eq, List.map_congr_left fun x hx => ih x hx ht]
  | tuple hl _ ih =>
    rw [Shape.clear, Bool.and_eq_true, Shape.allClear_iff] at ht
    rw [toData, toData, itemsToData_eq, itemsToData_eq, List.map_congr_left fun x hx => ?_]
    obtain ⟨t, hmem⟩ := exists_mem_zip hl hx
    exact ih hmem (ht.2 t (List.of_mem_zip hmem).1)
  | dict _ _ ih | mapping _ _ ih =>
    rw [toData, toData, entriesToData_eq, entriesToData_eq,
      List.map_congr_left fun e he => by rw [ih e he ht]]
  | record hc hl hn _ _ ih =>
    have hs := hcat.of_find? ht hc
    rw [toData, toData, hagree _ ht, hc, fieldsToData_eq hs.names (List.Subset.refl _) hl hn,
      fieldsToData_eq hs.names (List.Subset.refl _) hl hn]
    congr 1
    refine List.filterMap_congr fun a ha => ?_
    unfold entryOf?
    rw [ih ha (hs.shapes a.1 (List.of_mem_zip ha).1)]

/-- **The table without defaults is empty exactly if all fields have their defaults.** -/
theorem Fits.toData_eq_empty_iff {cls : RecordClass} (hs : cls.Sound cat known strict)
    (hc : cat.find? cls.name = some cls) (hdefault : ∀ f ∈ cls.fields, f.default.isSome = true)
    {x : Value} (h : Fits cat (.record cls.name) x) :
    toData cat { defaults := true } x = .dict [] ↔ x.same (Config.defaultsOf cls) = true := by
  cases h with
  | @record _ cls' fields hc' hl hn =>
    rw [hc] at hc'
    cases hc'
    have hentry {f : Field} {e : String × Value} (hf : f ∈ cls.fields) :
        entryOf? cat { defaults := true } cls (f, e) = none ↔
          e.2.same (f.default.getD .null) = true := by
      obtain ⟨d, hd⟩ := Option.isSome_iff_exists.1 (hdefault f hf)
      simp [entryOf?, Omission.omits, hd]
    rw [toData, hc, fieldsToData_eq hs.names (List.Subset.refl _) hl hn, Value.dict.injEq,
      List.filterMap_eq_nil_iff]
    simp only [Config.defaultsOf, Value.same, beq_self_eq_true, Bool.true_and,
      Value.sameFields_iff, List.forall₂_map_right_iff]
    constructor
    · intro hnone
      have hall : List.Forall₂ (fun (f : Field) (e : String × Value) =>
          e.1 = f.name ∧ e.2.same (f.default.getD .null) = true) cls.fields fields :=
        List.forall₂_iff_zip.2 ⟨hl, fun {f e} hmem =>
          ⟨hn hmem, (hentry (List.of_mem_zip hmem).1).1 (hnone _ hmem)⟩⟩
      exact Value.forall₂_swap hall fun _ _ _ _ h => h
    · rintro hsame ⟨f, e⟩ hmem
      have hall : List.Forall₂ (fun (f : Field) (e : String × Value) =>
          e.2.same (f.default.getD .null) = true) cls.fields fields :=
        Value.forall₂_swap hsame fun _ _ _ _ h => h.2
      exact (hentry (List.of_mem_zip hmem).1).2 ((List.forall₂_iff_zip.1 hall).2 hmem)

end Schema

/-! ### Taking nulls away -/

/-- There is nothing to take away from data of TOML. -/
theorem Format.withoutNulls_eq {v : Value} (h : Datum v) : withoutNulls v = v := by
  induction h with
  | bool | int | float | str | moment => rw [withoutNulls] <;> simp
  | @list items h ih =>
    have hitems {vs : List Value} (hvs : vs ⊆ items) : itemsWithoutNulls vs = vs := by
      induction vs with
      | nil => rw [itemsWithoutNulls]
      | cons v vs ihl =>
        obtain ⟨hv, hvs⟩ := List.cons_subset.1 hvs
        rw [itemsWithoutNulls, (h v hv).isNull, if_neg Bool.false_ne_true, ih v hv, ihl hvs]
    rw [withoutNulls, hitems (List.Subset.refl _)]
  | @dict entries _ h ih =>
    have hentries {es : List (Value × Value)} (hes : es ⊆ entries) :
        entriesWithoutNulls es = es := by
      induction es with
      | nil => rw [entriesWithoutNulls]
      | cons e es ihl =>
        obtain ⟨he, hes⟩ := List.cons_subset.1 hes
        rw [entriesWithoutNulls, (h e he).isNull, if_neg Bool.false_ne_true, ih e he, ihl hes]
    rw [withoutNulls, hentries (List.Subset.refl _)]

namespace Config

/-! ### Configurations -/

theorem check_catalog : catalog.check true = true := by decide

theorem sound_catalog : catalog.Sound (catalog.reads true) true :=
  Catalog.sound_of_check check_catalog

/-- What is printed knows the classes of a configuration. -/
theorem find?_format_catalog {c : String} (h : catalog.reads true c = true) :
    Format.catalog.find? c = catalog.find? c := by
  unfold Catalog.reads at h
  obtain ⟨cls, hcls, -⟩ := Option.any_eq_true _ _ |>.1 h
  rw [hcls]
  unfold Catalog.find? at hcls ⊢
  rw [Format.catalog, List.find?_append]
  simp only [catalog] at hcls
  rw [hcls]
  rfl

theorem datum_entryOf {key : String} {v w : Value} (hv : Datum v) (h : entryOf key v = .ok w) :
    Datum w := by
  unfold entryOf at h
  split at h
  · cases h
    cases hfind : Value.find? (.str key) _ with
    | none => exact .emptyDict
    | some w => exact hv.find? hfind
  · cases h

/-- A configuration is read from data of TOML. -/
theorem exists_datum_of_ofText {tool : Option String} {text : String} {c : Value}
    (h : ofText tool text = .ok c) :
    ∃ v, Datum v ∧ fromDict catalog (.record configuration.name) true v = .ok c := by
  obtain ⟨v, hv, h⟩ := bind_ok_iff.1 h
  have hv := Toml.datum_of_parse (mapError_ok_iff.1 hv)
  unfold ofData at h
  dsimp only at h
  split at h
  · exact ⟨v, hv, mapError_ok_iff.1 h⟩
  · exact ⟨v, hv, mapError_ok_iff.1 h⟩
  · obtain ⟨u, hu, h⟩ := bind_ok_iff.1 h
    obtain ⟨w, hw, h⟩ := bind_ok_iff.1 h
    exact ⟨w, datum_entryOf (datum_entryOf hv hu) hw, mapError_ok_iff.1 h⟩

/-- The class of a configuration is known. -/
theorem clear_configuration :
    (Shape.record configuration.name).clear (catalog.reads true) = true := rfl

/-- The table of a configuration that was read from data of TOML is data of TOML. -/
theorem datum_asTable {v c : Value} (hv : Datum v)
    (h : fromDict catalog (.record configuration.name) true v = .ok c) :
    Datum (Format.asTable c) ∧ Format.asTable c = toData catalog { defaults := true } c := by
  have hreads := Reads.of_decode h
  have hfits := hreads.fits sound_catalog clear_configuration hv.plain
  have hdatum := hreads.datum sound_catalog clear_configuration hv
  have htable : Format.asTable c = toData catalog { defaults := true } c := by
    rw [← Format.withoutNulls_eq hdatum,
      ← hfits.toData_congr sound_catalog (fun _ => find?_format_catalog) clear_configuration]
    cases hfits
    rfl
  exact ⟨htable ▸ hdatum, htable⟩

/-- A configuration has a text of TOML exactly if its table can be shown. -/
theorem render_toml {tool : Option String} {text : String} {c : Value}
    (h : ofText tool text = .ok c) :
    if (Format.asTable c).shows then ∃ s, Format.toml.render c = .ok s
    else Format.toml.render c = .error .unshown := by
  obtain ⟨v, hv, hc⟩ := exists_datum_of_ofText h
  obtain ⟨es, hes⟩ : ∃ es, Format.asTable c = .dict es := by
    have hfits := (Reads.of_decode hc).fits sound_catalog clear_configuration hv.plain
    rw [(datum_asTable hv hc).2]
    cases hfits
    exact ⟨_, by rw [toData]⟩
  have hwrite := Datum.write_table (hes ▸ (datum_asTable hv hc).1)
  rw [Format.render, hes]
  split at hwrite
  · obtain ⟨s, hs⟩ := hwrite
    rw [if_pos ‹_›, hs]
    exact ⟨s, rfl⟩
  · rw [if_neg ‹_›, hwrite]
    rfl

/-- **A configuration that is shown can be loaded again.**  The table that is shown has no null in
it, and a text exactly if there is no integer with too many digits in it; it is loaded as an equal
configuration, and it is empty exactly if the configuration equals the default one. -/
theorem ofData_asTable {tool : Option String} {text : String} {c : Value}
    (h : ofText tool text = .ok c) (hdefinite : c.Definite) :
    Datum (Format.asTable c) ∧
    (if (Format.asTable c).shows then ∃ s, Format.toml.render c = .ok s
      else Format.toml.render c = .error .unshown) ∧
    (∃ c', c'.same c = true ∧ ofData none (Format.asTable c) = .ok c' ∧
      ∀ shown, readData shown = .ok (Format.asTable c) → ofText none shown = .ok c') ∧
    (Format.asTable c = .dict [] ↔ c.same defaults = true) := by
  obtain ⟨v, hv, hc⟩ := exists_datum_of_ofText h
  have hknown : catalog.reads true configuration.name = true := by decide +kernel
  have hclear : (Shape.record configuration.name).clear (catalog.reads true) = true := by
    rw [Shape.clear, hknown]
  have hfits := (Reads.of_decode hc).fits sound_catalog hclear hv.plain
  obtain ⟨hdatum, htable⟩ := datum_asTable hv hc
  refine ⟨hdatum, render_toml h, ?_, ?_⟩
  · obtain ⟨c', hc'⟩ : ∃ c', ReadsBack catalog lookTwice true { defaults := true }
        (.record configuration.name) c c' := hfits.readsBack sound_catalog rfl hclear
    have hload : ofData none (Format.asTable c) = .ok c' := by
      rw [htable]
      exact mapError_ok_iff.2 (hc'.ok [])
    refine ⟨c', hc'.same hdefinite, hload, fun shown hshown => ?_⟩
    rw [ofText, hshown]
    exact hload
  · rw [htable]
    have hfind : catalog.find? configuration.name = some configuration := rfl
    exact hfits.toData_eq_empty_iff (sound_catalog.of_find? hknown hfind) hfind
      (by simp [configuration])

/-- A configuration with one value set. -/
def narrow : Value := .record "BridgeConfig" [
  ("server", defaultsOf serverSection),
  ("documents", defaultsOf documentsSection),
  ("formatting", .record "FormattingConfig" [
    ("on_save", .bool true), ("tab_size", .int 2), ("insert_spaces", .bool true)]),
  ("client", defaultsOf clientSection)]

theorem ofData_asTable_narrow :
    ofText (some toolName) "[tool.lspbridge.formatting]\ntab-size = 2\n" = .ok narrow ∧
      Datum (Format.asTable narrow) ∧
      (∃ c', c'.same narrow = true ∧ ofData none (Format.asTable narrow) = .ok c') ∧
      (Format.asTable narrow = .dict [] ↔ narrow.same defaults = true) := by
  have hread : ofText (some toolName) "[tool.lspbridge.formatting]\ntab-size = 2\n" =
      .ok narrow := by cbv
  have hsuits : suits catalog defaultDepth (.record "BridgeConfig") narrow = true := by
    decide +kernel
  obtain ⟨hdatum, -, ⟨c', hsame, hload, -⟩, hempty⟩ :=
    ofData_asTable hread (fits_of_suits hsuits).2.definite
  exact ⟨hread, hdatum, ⟨c', hsame, hload⟩, hempty⟩

end Config

end EditorBridge
