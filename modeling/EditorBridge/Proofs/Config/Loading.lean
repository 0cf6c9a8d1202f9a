/-
Where a configuration comes from, and how loading it can end.

A search goes from folder to folder and stops at the first that has a file for the configuration
(`findIn_cases`).  What is in that file is read, or the refusal names the file; the folders
farther up do not matter (`load_congr`).

Three things are not reported as refusals of a file.  The search has to look into the files of
projects it passes, and gives up at one that is no text, holds an integer of too many digits, is
nested too deep for the stack, or has something for `tool` in which no name can be looked up
(`Unsearchable`).  The file of a project is read through two tables, the outer of which has to be
one.  And the stack may not be deep enough for the file that is read.  `Ends` lists these three
next to the proper ends, so it is the whole truth about `load`, on every `Machine`.
-/
import EditorBridge.Config.Files
import EditorBridge.Proofs.Params
import EditorBridge.Proofs.Schema.Refusals
import EditorBridge.Proofs.Schema.Catalogs
import EditorBridge.Toml.Writer

namespace EditorBridge

/-! ### Reading a file -/

namespace FileTree

variable {tree tree' : FileTree} {p : FilePath} {f : Failure}

/-- What keeps a file from being read comes from the system, or is about its bytes. -/
theorem readText_error (h : tree.readText p = .error f) :
    (∃ e, f = .system e) ∨
      ∃ d, f = .unreadable d ∧ f.isSystem = false ∧ f.isAboutValue = true := by
  unfold readText at h
  split at h
  · dsimp only [Text.Charset.decode] at h
    cases hbytes : Text.Utf8.decode? _ with
    | error e =>
      rw [hbytes] at h
      cases h
      exact .inr ⟨_, rfl, rfl, rfl⟩
    | ok cs =>
      rw [hbytes] at h
      cases h
  · cases h
    exact .inl ⟨_, rfl⟩
  · cases h
    exact .inl ⟨_, rfl⟩
  · cases h
    exact .inl ⟨_, rfl⟩

theorem isFile_congr (h : tree'.find p = tree.find p) : tree'.isFile p = tree.isFile p := by
  unfold isFile
  rw [h]

theorem readText_congr (h : tree'.find p = tree.find p) : tree'.readText p = tree.readText p := by
  unfold readText
  rw [h]

end FileTree

theorem Failure.isSystem_system (e : SystemError) : (Failure.system e).isSystem = true := by
  cases e <;> rfl

namespace Config

variable {m : Machine} {tree tree' : FileTree} {p : FilePath} {f : Failure}

/-- A text of TOML is a table. -/
theorem exists_dict_of_readData {text : String} {v : Value} (h : readData text = .ok v) :
    ∃ es, v = .dict es := by
  obtain ⟨nest, -, h⟩ := bind_ok_iff.1 (mapError_ok_iff.1 h)
  cases h
  exact ⟨_, rfl⟩

theorem readData_error {text : String} (h : readData text = .error f) :
    f = .malformedConfig ∨ ∃ n, f = .tooManyDigits n := by
  unfold readData at h
  cases hparse : Toml.parse text with
  | ok v =>
    rw [hparse] at h
    cases h
  | error e =>
    rw [hparse] at h
    cases e <;> cases h
    · exact .inl rfl
    · exact .inr ⟨_, rfl⟩

theorem within_error {α : Type} {deepEnough : String → Bool} {g : String → Except Failure α}
    {text : String} (h : within deepEnough g text = .error f) :
    deepEnough text = true ∧ g text = .error f ∨ deepEnough text = false ∧ f = .exhausted := by
  unfold within at h
  split at h
  · exact .inl ⟨‹_›, h⟩
  · cases h
    exact .inr ⟨by simpa using ‹¬deepEnough text = true›, rfl⟩

theorem within_ok {α : Type} {deepEnough : String → Bool} {g : String → Except Failure α}
    {text : String} {x : α} (h : within deepEnough g text = .ok x) : g text = .ok x := by
  unfold within at h
  split at h
  · exact h
  · cases h

/-- The stack is not deep enough for a file. -/
def TooDeep (deepEnough : String → Bool) (tree : FileTree) (p : FilePath) : Prop :=
  ∃ text, tree.readText p = .ok text ∧ deepEnough text = false

/-- The data in a file. -/
def dataOf (deepEnough : String → Bool) (tree : FileTree) (p : FilePath) : Except Failure Value :=
  tree.readText p >>= within deepEnough readData

variable {deepEnough : String → Bool}

theorem exists_dict_of_dataOf {v : Value} (h : dataOf deepEnough tree p = .ok v) :
    ∃ es, v = .dict es := by
  obtain ⟨text, -, h⟩ := bind_ok_iff.1 h
  exact exists_dict_of_readData (within_ok h)

/-- What keeps the data in a file from being read. -/
theorem dataOf_error (h : dataOf deepEnough tree p = .error f) :
    f.isSystem = true ∨ f = .malformedConfig ∨
      (f.isSystem = false ∧ f.isAboutValue = true ∧
        ((∃ d, f = .unreadable d) ∨ ∃ n, f = .tooManyDigits n)) ∨
      TooDeep deepEnough tree p ∧ f = .exhausted := by
  unfold dataOf at h
  cases htext : tree.readText p with
  | error g =>
    rw [htext] at h
    cases h
    obtain ⟨e, rfl⟩ | ⟨d, rfl, hsystem, hvalue⟩ := FileTree.readText_error htext
    · exact .inl (Failure.isSystem_system e)
    · exact .inr (.inr (.inl ⟨hsystem, hvalue, .inl ⟨d, rfl⟩⟩))
  | ok text =>
    rw [htext] at h
    obtain ⟨-, h⟩ | ⟨hdeep, rfl⟩ := within_error h
    · obtain rfl | ⟨n, rfl⟩ := readData_error h
      · exact .inr (.inl rfl)
      · exact .inr (.inr (.inl ⟨rfl, rfl, .inr ⟨n, rfl⟩⟩))
    · exact .inr (.inr (.inr ⟨⟨text, htext, hdeep⟩, rfl⟩))

/-! ### Reading a configuration -/

theorem exact_catalog : catalog.Exact (catalog.reads true) := by
  have h : catalog.classes.all (fun cls => cls.fields.all fun f =>
      f.shape.exact (catalog.reads true)) = true := by decide
  intro c cls _ hcls f hf
  rw [List.all_eq_true] at h
  exact List.all_eq_true.1 (h cls (List.mem_of_find?_eq_some hcls)) f hf

/-- A refusal by the shapes is about a value, since no configuration holds floating point
numbers. -/
theorem isAboutValue_of_fromDict {v : Value}
    (h : (Schema.fromDict catalog (.record configuration.name) true v).mapError .schema =
      .error f) : f.isSystem = false ∧ f.isAboutValue = true := by
  have htame : Schema.Tame (Schema.fromDict catalog (.record configuration.name) true v) :=
    Schema.decode_tame exact_catalog (by decide)
  cases hv : Schema.fromDict catalog (.record configuration.name) true v with
  | ok x =>
    rw [hv] at h
    cases h
  | error e =>
    rw [hv] at h htame
    cases h
    cases e with
    | tooLarge => exact absurd rfl htame
    | wrong | unshown | invalid | unexpectedArgument | missingArguments => exact ⟨rfl, rfl⟩

/-- The tool whose table of a file is read. -/
def toolOf (p : FilePath) : Option String := if p.name = projectFile then some toolName else none

/-- The configuration in a file. -/
def read (m : Machine) (tree : FileTree) (p : FilePath) : Except Failure Value :=
  tree.readText p >>= within m.loads (ofText (toolOf p))

theorem read_eq : read m tree p = dataOf m.loads tree p >>= ofData (toolOf p) := by
  unfold read dataOf
  cases tree.readText p with
  | error g => rfl
  | ok text =>
    show within m.loads _ text = within m.loads _ text >>= _
    unfold within
    split <;> rfl

/-- The message about a file that cannot be used. -/
def refusal (p : FilePath) (f : Failure) : Failure :=
  .config p.toString s!"Reading \"{p}\" failed: {f.message}"

theorem loadFile_eq : loadFile m tree p = match read m tree p with
    | .ok v => .ok v
    | .error f => if f.isSystem || f.isAboutValue then .error (refusal p f) else .error f := rfl

/-- The file of a project has something else than a table for `tool`. -/
structure Toolless (m : Machine) (tree : FileTree) (p : FilePath) (w : Value) : Prop where
  project : p.name = projectFile
  tool : ∃ es, dataOf m.loads tree p = .ok (.dict es) ∧ Value.find? (.str "tool") es = some w
  shape : Toml.isTable w = false

theorem entryOf_dict (key : String) (es : List (Value × Value)) :
    entryOf key (.dict es) = .ok ((Value.find? (.str key) es).getD (.dict [])) := rfl

theorem entryOf_error {key : String} {v : Value} (h : entryOf key v = .error f) :
    Toml.isTable v = false ∧ f = .noAttribute v.typeName "get" := by
  cases v <;> cases h <;> exact ⟨rfl, rfl⟩

/-- What keeps a configuration from being read from a file: a refusal, something else than a
table for `tool`, or the stack. -/
theorem read_error (h : read m tree p = .error f) :
    (f.isSystem || f.isAboutValue) = true ∨
      (∃ w, Toolless m tree p w ∧ f = .noAttribute w.typeName "get") ∨
      TooDeep m.loads tree p ∧ f = .exhausted := by
  rw [read_eq] at h
  cases hdata : dataOf m.loads tree p with
  | error g =>
    rw [hdata] at h
    cases h
    obtain hsystem | rfl | ⟨-, hvalue, -⟩ | hdeep := dataOf_error hdata
    · exact .inl (by rw [hsystem]; rfl)
    · exact .inl rfl
    · exact .inl (by rw [hvalue, Bool.or_true])
    · exact .inr (.inr hdeep)
  | ok v =>
    rw [hdata] at h
    have hschema {v : Value}
        (h : (Schema.fromDict catalog (.record configuration.name) true v).mapError .schema =
          .error f) : (f.isSystem || f.isAboutValue) = true := by
      rw [(isAboutValue_of_fromDict h).2, Bool.or_true]
    obtain ⟨es, rfl⟩ := exists_dict_of_dataOf hdata
    unfold toolOf at h
    split at h
    · rename_i hname
      -- the table of the tool is read if `tool` is a table
      replace h : (entryOf toolName ((Value.find? (.str "tool") es).getD (.dict [])) >>= fun v =>
        (Schema.fromDict catalog (.record configuration.name) true v).mapError .schema) =
          .error f := h
      cases hentry : entryOf toolName ((Value.find? (.str "tool") es).getD (.dict [])) with
      | ok w =>
        rw [hentry] at h
        exact .inl (hschema h)
      | error g =>
        rw [hentry] at h
        cases h
        obtain ⟨hshape, rfl⟩ := entryOf_error hentry
        cases hfind : Value.find? (.str "tool") es with
        | none =>
          rw [hfind] at hshape
          cases hshape
        | some w =>
          rw [hfind] at hshape
          exact .inr (.inl ⟨w, ⟨hname, ⟨es, hdata, hfind⟩, hshape⟩, rfl⟩)
    · exact .inl (hschema h)

/-! ### Searching -/

/-- The search cannot tell whether the file of a project has a table for the tool. -/
inductive Unsearchable (m : Machine) (tree : FileTree) (p : FilePath) : Failure → Prop
  | bytes {d : Text.DecodeError} (h : dataOf m.searches tree p = .error (.unreadable d)) :
    Unsearchable m tree p (.unreadable d)
  | digits {n : Nat} (h : dataOf m.searches tree p = .error (.tooManyDigits n)) :
    Unsearchable m tree p (.tooManyDigits n)
  | deep (h : TooDeep m.searches tree p) : Unsearchable m tree p .exhausted
  | tool {es : List (Value × Value)} {w : Value} {t : String} (h : dataOf m.searches tree p = .ok (.dict es))
    (hw : Value.find? (.str "tool") es = some w)
    (ht : mentions toolName w = .error (.notIterable t)) :
    Unsearchable m tree p (.notIterable t)

theorem mentions_error {name : String} {v : Value} (h : mentions name v = .error f) :
    ∃ t, f = .notIterable t := by
  unfold mentions at h
  split at h <;> cases h <;> exact ⟨_, rfl⟩

theorem hasSection_eq : hasSection m tree p = match dataOf m.searches tree p with
    | .error f => if f.isSystem then .ok false else match f with
      | .malformedConfig => .ok false
      | f => .error f
    | .ok v => entryOf "tool" v >>= mentions toolName := rfl

theorem unsearchable_of_hasSection (h : hasSection m tree p = .error f) : Unsearchable m tree p f := by
  rw [hasSection_eq] at h
  cases hdata : dataOf m.searches tree p with
  | error g =>
    rw [hdata] at h
    dsimp only at h
    obtain hsystem | rfl | ⟨hsystem, -, ⟨d, rfl⟩ | ⟨n, rfl⟩⟩ | ⟨hdeep, rfl⟩ := dataOf_error hdata
    · rw [if_pos hsystem] at h
      cases h
    · cases h
    · rw [if_neg (by simp [hsystem])] at h
      cases h
      exact .bytes hdata
    · rw [if_neg (by simp [hsystem])] at h
      cases h
      exact .digits hdata
    · cases h
      exact .deep hdeep
  | ok v =>
    rw [hdata] at h
    obtain ⟨es, rfl⟩ := exists_dict_of_dataOf hdata
    dsimp only [entryOf_dict, bind, Except.bind] at h
    obtain ⟨t, rfl⟩ := mentions_error h
    cases hfind : Value.find? (.str "tool") es with
    | none =>
      rw [hfind] at h
      cases h
    | some w =>
      rw [hfind] at h
      exact .tool hdata hfind h

/-- A folder has no file for the configuration. -/
def isBare (m : Machine) (tree : FileTree) (folder : FilePath) : Bool :=
  !tree.isFile (folder.child ownFile) && (!tree.isFile (folder.child projectFile) ||
    match hasSection m tree (folder.child projectFile) with
    | .ok b => !b
    | .error _ => false)

/-- The file for the configuration in a folder: its own, and otherwise the one of a project that
has a table for the tool. -/
inductive Holds (m : Machine) (tree : FileTree) (folder : FilePath) : FilePath → Prop
  | own (h : tree.isFile (folder.child ownFile) = true) : Holds m tree folder (folder.child ownFile)
  | project (hown : tree.isFile (folder.child ownFile) = false)
    (h : tree.isFile (folder.child projectFile) = true)
    (hsection : hasSection m tree (folder.child projectFile) = .ok true) :
    Holds m tree folder (folder.child projectFile)

/-- A folder at which the search gives up. -/
structure Blocks (m : Machine) (tree : FileTree) (folder : FilePath) (f : Failure) : Prop where
  own : tree.isFile (folder.child ownFile) = false
  project : tree.isFile (folder.child projectFile) = true
  failure : Unsearchable m tree (folder.child projectFile) f

/-- What the search does at one folder. -/
theorem findIn_cons (m : Machine) (tree : FileTree) (folder : FilePath) (folders : List FilePath) :
    isBare m tree folder = true ∧ findIn m tree (folder :: folders) = findIn m tree folders ∨
    (∃ p, Holds m tree folder p ∧ isBare m tree folder = false ∧
      findIn m tree (folder :: folders) = .ok (some p)) ∨
    ∃ f, Blocks m tree folder f ∧ isBare m tree folder = false ∧
      findIn m tree (folder :: folders) = .error f := by
  rw [findIn]
  unfold isBare
  cases hown : tree.isFile (folder.child ownFile) with
  | true => exact .inr (.inl ⟨_, .own hown, rfl, rfl⟩)
  | false =>
    cases hproject : tree.isFile (folder.child projectFile) with
    | false => exact .inl ⟨rfl, rfl⟩
    | true =>
      cases hsection : hasSection m tree (folder.child projectFile) with
      | ok b =>
        cases b with
        | true => exact .inr (.inl ⟨_, .project hown hproject hsection, rfl, rfl⟩)
        | false => exact .inl ⟨rfl, rfl⟩
      | error f =>
        exact .inr (.inr ⟨f, ⟨hown, hproject, unsearchable_of_hasSection hsection⟩, rfl, rfl⟩)

/-- A folder of a list that is the first which is not bare. -/
def FirstOf (m : Machine) (tree : FileTree) (folders : List FilePath) (folder : FilePath) : Prop :=
  ∃ inner outer, folders = inner ++ folder :: outer ∧ ∀ g ∈ inner, isBare m tree g = true

/-- **The search ends at the first folder that is not bare.** -/
theorem findIn_cases (m : Machine) (tree : FileTree) (folders : List FilePath) :
    (∀ g ∈ folders, isBare m tree g = true) ∧ findIn m tree folders = .ok none ∨
    (∃ folder p, FirstOf m tree folders folder ∧ Holds m tree folder p ∧
      findIn m tree folders = .ok (some p)) ∨
    ∃ folder f, FirstOf m tree folders folder ∧ Blocks m tree folder f ∧
      findIn m tree folders = .error f := by
  induction folders with
  | nil => exact .inl ⟨by simp, rfl⟩
  | cons folder folders ih =>
    have hfirst : FirstOf m tree (folder :: folders) folder := ⟨[], folders, rfl, by simp⟩
    obtain ⟨hbare, h⟩ | ⟨p, hp, -, h⟩ | ⟨f, hf, -, h⟩ := findIn_cons m tree folder folders
    · have hnext {g : FilePath} (hg : FirstOf m tree folders g) :
          FirstOf m tree (folder :: folders) g := by
        obtain ⟨inner, outer, rfl, hinner⟩ := hg
        exact ⟨folder :: inner, outer, rfl, List.forall_mem_cons.2 ⟨hbare, hinner⟩⟩
      rw [h]
      obtain ⟨hall, h⟩ | ⟨g, p, hg, hp, h⟩ | ⟨g, f, hg, hf, h⟩ := ih
      · exact .inl ⟨List.forall_mem_cons.2 ⟨hbare, hall⟩, h⟩
      · exact .inr (.inl ⟨g, p, hnext hg, hp, h⟩)
      · exact .inr (.inr ⟨g, f, hnext hg, hf, h⟩)
    · exact .inr (.inl ⟨folder, p, hfirst, hp, h⟩)
    · exact .inr (.inr ⟨folder, f, hfirst, hf, h⟩)

/-! ### Loading -/

/-- The file that is loaded, if there is one: the one that is told, and otherwise the one in the
first folder that has any. -/
inductive Source (m : Machine) (tree : FileTree) (start : FilePath) :
    Option FilePath → Option FilePath → Prop
  | told (p : FilePath) : Source m tree start (some p) (some p)
  | found {folder p : FilePath} (h : FirstOf m tree start.andParents folder)
    (hp : Holds m tree folder p) : Source m tree start none (some p)
  | nowhere (h : ∀ g ∈ start.andParents, isBare m tree g = true) : Source m tree start none none

/-- How loading can end. -/
inductive Ends (m : Machine) (tree : FileTree) (start : FilePath) (path : Option FilePath) :
    Except Failure (Value × Option FilePath) → Prop
  | defaults (h : Source m tree start path none) :
    Ends m tree start path (.ok (defaultsOf configuration, none))
  | read {p : FilePath} {c : Value} (h : Source m tree start path (some p))
    (hc : read m tree p = .ok c) : Ends m tree start path (.ok (c, some p))
  /-- The refusal names the file. -/
  | refused {p : FilePath} {f : Failure} (h : Source m tree start path (some p))
    (hf : Config.read m tree p = .error f) (hreported : (f.isSystem || f.isAboutValue) = true) :
    Ends m tree start path (.error (refusal p f))
  /-- The file of a project has something else than a table for `tool`. -/
  | toolless {p : FilePath} {w : Value} (h : Source m tree start path (some p))
    (hw : Toolless m tree p w) : Ends m tree start path (.error (.noAttribute w.typeName "get"))
  /-- The stack is not deep enough for the file. -/
  | tooDeep {p : FilePath} (h : Source m tree start path (some p)) (hp : TooDeep m.loads tree p) :
    Ends m tree start path (.error .exhausted)
  /-- The search gives up at the file of a project. -/
  | blocked {folder : FilePath} {f : Failure} (hpath : path = none)
    (h : FirstOf m tree start.andParents folder) (hf : Blocks m tree folder f) :
    Ends m tree start path (.error f)

theorem ends_loadFile {start : FilePath} {path : Option FilePath}
    (h : Source m tree start path (some p)) :
    Ends m tree start path ((loadFile m tree p).map fun c => (c, some p)) := by
  rw [loadFile_eq]
  cases hread : read m tree p with
  | ok c => exact .read h hread
  | error f =>
    dsimp only
    cases hreported : f.isSystem || f.isAboutValue with
    | true => exact .refused h hread hreported
    | false =>
      obtain hreport | ⟨w, hw, rfl⟩ | ⟨hdeep, rfl⟩ := read_error hread
      · rw [hreported] at hreport
        cases hreport
      · exact .toolless h hw
      · exact .tooDeep h hdeep

/-- The files that loading looks at: in every folder of the search its own file and the one of a
project. -/
def searched (m : Machine) (tree : FileTree) : List FilePath → List FilePath
  | [] => []
  | folder :: folders => folder.child ownFile :: folder.child projectFile ::
    if isBare m tree folder then searched m tree folders else []

def consulted (m : Machine) (tree : FileTree) (path : Option FilePath) (start : FilePath) : List FilePath :=
  match path with
  | some p => [p]
  | none => searched m tree start.andParents

theorem hasSection_congr (h : tree'.find p = tree.find p) :
    hasSection m tree' p = hasSection m tree p := by
  unfold hasSection
  rw [FileTree.readText_congr h]

theorem loadFile_congr (h : tree'.find p = tree.find p) : loadFile m tree' p = loadFile m tree p := by
  unfold loadFile
  rw [FileTree.readText_congr h]

theorem findIn_congr {folders : List FilePath}
    (h : ∀ q ∈ searched m tree folders, tree'.find q = tree.find q) :
    findIn m tree' folders = findIn m tree folders := by
  induction folders with
  | nil => rfl
  | cons folder folders ih =>
    unfold searched at h
    obtain ⟨hown, h⟩ := List.forall_mem_cons.1 h
    obtain ⟨hproject, h⟩ := List.forall_mem_cons.1 h
    have hrest (hbare : isBare m tree folder = true) :
        findIn m tree' folders = findIn m tree folders :=
      ih fun q hq => h q (by rwa [if_pos hbare])
    rw [findIn, findIn]
    unfold isBare at hrest
    rw [FileTree.isFile_congr hown, FileTree.isFile_congr hproject, hasSection_congr hproject]
    cases hfile : tree.isFile (folder.child ownFile) with
    | true => rfl
    | false =>
      cases hfile' : tree.isFile (folder.child projectFile) with
      | false => exact hrest (by rw [hfile, hfile']; rfl)
      | true =>
        cases hsection : hasSection m tree (folder.child projectFile) with
        | error f => rfl
        | ok b =>
          cases b with
          | true => rfl
          | false => exact hrest (by rw [hfile, hfile', hsection]; rfl)

/-- A file that is found was looked at. -/
theorem mem_searched {folders : List FilePath} (h : findIn m tree folders = .ok (some p)) :
    p ∈ searched m tree folders := by
  induction folders with
  | nil => cases h
  | cons folder folders ih =>
    unfold searched
    obtain ⟨hbare, hnext⟩ | ⟨q, hq, -, hfound⟩ | ⟨f, -, -, hblocked⟩ :=
      findIn_cons m tree folder folders
    · rw [if_pos hbare]
      exact List.mem_cons_of_mem _ (List.mem_cons_of_mem _ (ih (hnext.symm.trans h)))
    · rw [h] at hfound
      cases hfound
      cases hq with
      | own => exact List.mem_cons_self
      | project => exact List.mem_cons_of_mem _ List.mem_cons_self
    · rw [h] at hblocked
      cases hblocked

/-- What lies farther up does not matter. -/
theorem load_congr {start : FilePath} {path : Option FilePath}
    (h : ∀ q ∈ consulted m tree path start, tree'.find q = tree.find q) :
    load tree' path start m = load tree path start m := by
  cases path with
  | some p =>
    show (loadFile m tree' p >>= _) = loadFile m tree p >>= _
    rw [loadFile_congr (h p List.mem_cons_self)]
  | none =>
    have hfind : findIn m tree' start.andParents = findIn m tree start.andParents := findIn_congr h
    show (findIn m tree' start.andParents >>= _) = findIn m tree start.andParents >>= _
    rw [hfind]
    cases hfound : findIn m tree start.andParents with
    | error f => rfl
    | ok file =>
      cases file with
      | none => rfl
      | some p =>
        show (loadFile m tree' p >>= _) = loadFile m tree p >>= _
        rw [loadFile_congr (h p (mem_searched hfound))]

theorem ends_load (start : FilePath) (path : Option FilePath) :
    Ends m tree start path (load tree path start m) := by
  cases path with
  | some p => exact ends_loadFile (.told p)
  | none =>
    show Ends m tree start none (findIn m tree start.andParents >>= _)
    obtain ⟨hall, h⟩ | ⟨folder, p, hfirst, hp, h⟩ | ⟨folder, f, hfirst, hf, h⟩ :=
      findIn_cases m tree start.andParents
    · rw [h]
      exact .defaults (.nowhere hall)
    · rw [h]
      exact ends_loadFile (.found hfirst hp)
    · rw [h]
      exact .blocked rfl hfirst hf

/-- **How loading a configuration ends**, whatever the files hold and however deep the stack is: it
depends on the files it looks at only. -/
theorem load_ends (m : Machine) (tree : FileTree) (start : FilePath) (path : Option FilePath) :
    Ends m tree start path (load tree path start m) ∧
      ∀ tree' : FileTree, (∀ q ∈ consulted m tree path start, tree'.find q = tree.find q) →
        load tree' path start m = load tree path start m :=
  ⟨ends_load start path, fun _ h => load_congr h⟩

/-- The file of a project that is no text. -/
def undecodable : FileTree := { files := [(["pyproject.toml"], [0xff])] }

/-- The same with one more file elsewhere. -/
def undecodableBeside : FileTree :=
  { files := [(["pyproject.toml"], [0xff]), (["other", "lspbridge.toml"], [])] }

theorem load_ends_undecodable :
    (match load undecodable none ⟨"/", []⟩ with
      | .ok _ => ""
      | .error f => f.kind) = "UnicodeDecodeError" ∧
    Ends {} undecodable ⟨"/", []⟩ none (load undecodable none ⟨"/", []⟩) ∧
    load undecodableBeside none ⟨"/", []⟩ = load undecodable none ⟨"/", []⟩ := by
  obtain ⟨hends, hcongr⟩ := load_ends {} undecodable ⟨"/", []⟩ none
  exact ⟨by decide +kernel, hends, hcongr undecodableBeside (by decide +kernel)⟩

end Config

end EditorBridge
