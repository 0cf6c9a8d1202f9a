/-
What a client says to greet its server.

What is said is put into an object of the protocol first, member by member (`Wire.Built`).  Of the
members only the trace is of a kind that may not be known; all others are there in any case, the
initialization options as they are.  So a client can greet its server unless its trace is not
known (`Link.greeting_spec`), and whether the greeting can be written is a matter of the
initialization options alone.
-/
import EditorBridge.Config.Options
import EditorBridge.Link.Client
import EditorBridge.Proofs.Json.Plain
import EditorBridge.Proofs.Uri.Paths
import Mathlib

namespace EditorBridge

/-! ### Data of JSON -/

namespace Json

/-- Whether a value is plain, and not deeper than that. -/
def isPlain : Nat → Value → Bool
  | 0, _ => false
  | _ + 1, .null | _ + 1, .bool _ | _ + 1, .float _ | _ + 1, .str _ => true
  | _ + 1, .int i => Digits.fit i
  | n + 1, .list vs => vs.all (isPlain n)
  | n + 1, .dict es => es.all fun e => (Config.textOf? e.1).isSome && isPlain n e.2
  | _ + 1, _ => false

theorem plain_of_isPlain {n : Nat} {v : Value} (h : isPlain n v = true) : Plain v := by
  induction n generalizing v with
  | zero => simp [isPlain] at h
  | succ n ih =>
    cases v with
    | null => exact .null
    | bool b => exact .bool b
    | int i => exact .int h
    | float x => exact .float x
    | str s => exact .str s
    | list vs =>
      rw [isPlain, List.all_eq_true] at h
      exact .list fun v hv => ih (h v hv)
    | dict es =>
      simp only [isPlain, List.all_eq_true, Bool.and_eq_true] at h
      refine .dict (fun e he => ?_) fun e he => ih (h e he).2
      obtain ⟨s, hs⟩ := Option.isSome_iff_exists.1 (h e he).1
      refine ⟨s, ?_⟩
      unfold Config.textOf? at hs
      split at hs <;> cases hs
      assumption
    | tuple | set | bytes | moment | member | record | thing => simp [isPlain] at h

/-- A table of data of JSON. -/
theorem Plain.table {es : List (String × Value)} (h : ∀ e ∈ es, Plain e.2) :
    Plain (Value.table es) := by
  refine .dict (fun e he => ?_) fun e he => ?_ <;> obtain ⟨a, ha, rfl⟩ := List.mem_map.1 he
  · exact ⟨a.1, rfl⟩
  · exact h a ha

end Json

/-! ### Building from a table -/

namespace Wire

open Value (table)

/-- Whether the first member of an object is the one of a name. -/
theorem map_memberOf?_cons (key : String) (k v : Value) (r : List (Value × Value)) :
    (memberOf? key ((k, v) :: r)).map (·.1) =
      if (Value.str key).same k then some v else (memberOf? key r).map (·.1) := by
  by_cases h : (Value.str key).same k = true
  · have hfirst : memberOf? key ((k, v) :: r) = some ⟨v, _⟩ := if_pos h
    rw [hfirst, if_pos h]
    rfl
  · have hlater : memberOf? key ((k, v) :: r) = (memberOf? key r).map _ := if_neg h
    rw [hlater, if_neg h, Option.map_map]
    rfl

theorem memberOf?_table (key : String) (es : List (String × Value)) :
    (memberOf? key (es.map fun e => (.str e.1, e.2))).map (·.1) = es.lookup key := by
  induction es with
  | nil => rfl
  | cons e es ih =>
    rw [List.map_cons, map_memberOf?_cons, List.lookup_cons, ih]
    by_cases h : key = e.1
    · simp [h, Value.same]
    · rw [beq_false_of_ne h]
      simp [Value.same, beq_false_of_ne h]

@[simp] theorem name_may (name : String) (s : Shape) : (may name s).name = name := rfl

@[simp] theorem name_null (name : String) (s : Shape) : (null name s).name = name := rfl

/-- The members that are built from a table, and how many of those that are there cannot be. -/
inductive Built (es : List (String × Value)) : List Member → List (String × Wire) → Nat → Prop
  | nil : Built es [] [] 0
  | absent {m : Member} {ms : List Member} {ws : List (String × Wire)} {n : Nat}
    (h : es.lookup m.name = none) (hm : m.required = false) (hms : Built es ms ws n) :
    Built es (m :: ms) ws n
  | there {m : Member} {ms : List Member} {ws : List (String × Wire)} {n : Nat} {v : Value}
    {w : Wire} (h : es.lookup m.name = some v) (hv : v.isNull = false)
    (hw : build m.shape v = .ok w) (hms : Built es ms ws n) :
    Built es (m :: ms) ((m.name, w) :: ws) n
  | wrong {m : Member} {ms : List Member} {ws : List (String × Wire)} {n : Nat} {v : Value}
    {e : Error} (h : es.lookup m.name = some v) (hv : v.isNull = false)
    (hw : build m.shape v = .error e) (hms : Built es ms ws n) : Built es (m :: ms) ws (n + 1)

theorem Built.buildMembers {es : List (String × Value)} {ms : List Member}
    {ws : List (String × Wire)} {n : Nat} (h : Built es ms ws n) :
    buildMembers ms (es.map fun e => (.str e.1, e.2)) = (ws, n) := by
  induction h with
  | nil => rw [Wire.buildMembers]
  | @absent m _ _ _ hnone hm _ ih =>
    rw [← memberOf?_table, Option.map_eq_none_iff] at hnone
    rw [Wire.buildMembers, ih]
    simp [hnone, hm]
  | @there m _ _ _ v w hsome hv hw _ ih =>
    rw [← memberOf?_table] at hsome
    obtain ⟨x, hx, rfl⟩ := Option.map_eq_some_iff.1 hsome
    rw [Wire.buildMembers, ih]
    simp [hx, hv, hw]
  | @wrong m _ _ _ v e hsome hv hw _ ih =>
    rw [← memberOf?_table] at hsome
    obtain ⟨x, hx, rfl⟩ := Option.map_eq_some_iff.1 hsome
    rw [Wire.buildMembers, ih]
    simp [hx, hv, hw]

/-- **A structure is built from a table** if all its members are, and the numbers are within their
limits. -/
theorem Built.build {name : String} {s : Struct} (hs : struct? name = some s)
    {es : List (String × Value)} {ws : List (String × Wire)} {n : Nat} (h : Built es s.members ws n)
    (hfits : ∀ m ∈ s.members, Fits ws m) :
    build (.struct name) (table es) =
      if n = 0 then .ok (assembled s ws) else .error (.members s.name n) := by
  have hassemble : assemble s ws = .ok (assembled s ws) := assemble_ok_iff.2 ⟨hfits, rfl⟩
  rw [table, Wire.build, buildStruct]
  split
  · rename_i hnone
    rw [hs] at hnone
    cases hnone
  · rename_i s' hs'
    rw [hs] at hs'
    cases hs'
    rw [h.buildMembers]
    dsimp only
    by_cases hn : n = 0
    · rw [if_neg (not_not_intro hn), hassemble, if_pos hn]
    · rw [if_pos hn, if_neg hn]

/-- What is neither a table nor a list is built as a scalar. -/
theorem build_eq_ofScalar {t : Shape} {v : Value} (ht : t ≠ .raw) (hdict : ∀ es, v ≠ .dict es)
    (hlist : ∀ vs, v ≠ .list vs) : build t v = ofScalar t v := by
  unfold build
  split
  · exact absurd rfl ht
  all_goals first | rfl | exact absurd rfl (hdict _) | exact absurd rfl (hlist _)

theorem build_raw (v : Value) : build .raw v = .ok (.raw v) := by rw [build]

theorem build_text (s : String) : build .text (.str s) = .ok (.raw (.str s)) :=
  build_eq_ofScalar (by simp) (by simp) (by simp)

theorem build_int32 (n : Int) : build .int32 (.int n) = .ok (.raw (.int n)) :=
  build_eq_ofScalar (by simp) (by simp) (by simp)

/-- One of some texts, or nothing. -/
theorem build_oneOf (texts : List String) (s : String) : build (.oneOf (texts.map .str)) (.str s) =
    if s ∈ texts then .ok (.raw (.str s)) else .error .scalar := by
  rw [build_eq_ofScalar (by simp) (by simp) (by simp), ofScalar]
  split
  · rename_i w hw
    obtain ⟨t, ht, rfl⟩ := List.mem_map.1 (List.mem_of_find?_eq_some hw)
    have hsame := List.find?_some hw
    rw [Value.same, beq_iff_eq] at hsame
    rw [← hsame, if_pos ht]
  · rename_i hnone
    rw [if_neg fun hs => ?_]
    have hdiffers := List.find?_eq_none.1 hnone _ (List.mem_map_of_mem hs)
    simp [Value.same] at hdiffers

end Wire

/-! ### The greeting -/

namespace Link

open Value (table)
open Wire (Built build_raw build_text build_int32 build_oneOf)

/-- The settings of the trace that the protocol knows. -/
def traceLevels : List String := ["off", "messages", "verbose"]

/-- A member that is said unless it is null. -/
def unlessNull (name : String) (v : Value) : List (String × Value) :=
  if v.isNull then [] else [(name, v)]

/-- The capabilities are an object of the protocol. -/
theorem build_capabilities : ∃ w, Wire.build (.struct "ClientCapabilities") capabilities = .ok w ∧
    Json.Plain w.toValue := by
  have h : (Wire.build (.struct "ClientCapabilities") capabilities).toOption.any
      (fun w => Json.isPlain 6 w.toValue) = true := by decide +kernel
  obtain ⟨w, hw, hplain⟩ := Option.any_eq_true _ _ |>.1 h
  refine ⟨w, ?_, Json.plain_of_isPlain hplain⟩
  cases hb : Wire.build (.struct "ClientCapabilities") capabilities with
  | error e =>
    rw [hb] at hw
    cases hw
  | ok w' =>
    rw [hb] at hw
    cases hw
    rfl

theorem build_clientInfo (name version : String) : Wire.build (.struct "ClientInfo")
    (table [("name", .str name), ("version", .str version)]) = .ok (.object "ClientInfo" [
      ("name", .raw (.str name)), ("version", .raw (.str version))]) := by
  have hs : Wire.struct? "ClientInfo" =
    some ⟨"ClientInfo", [Wire.need "name" .text, Wire.may "version" .text]⟩ := rfl
  have hbuilt : Built [("name", .str name), ("version", .str version)]
      [Wire.need "name" .text, Wire.may "version" .text]
      [("name", .raw (.str name)), ("version", .raw (.str version))] 0 :=
    .there rfl rfl (build_text name) (.there rfl rfl (build_text version) .nil)
  exact hbuilt.build hs (by simp [Wire.Fits, Wire.limits?, Wire.need, Wire.may])

theorem build_folders (uri name : String) : Wire.build (.list (.struct "WorkspaceFolder"))
    (.list [table [("uri", .str uri), ("name", .str name)]]) = .ok (.list [
      .object "WorkspaceFolder" [("uri", .raw (.str uri)), ("name", .raw (.str name))]]) := by
  have hs : Wire.struct? "WorkspaceFolder" =
    some ⟨"WorkspaceFolder", [Wire.need "uri" .text, Wire.need "name" .text]⟩ := rfl
  have hbuilt : Built [("uri", .str uri), ("name", .str name)]
      [Wire.need "uri" .text, Wire.need "name" .text]
      [("uri", .raw (.str uri)), ("name", .raw (.str name))] 0 :=
    .there rfl rfl (build_text uri) (.there rfl rfl (build_text name) .nil)
  have hfolder := hbuilt.build hs (by simp [Wire.Fits, Wire.limits?, Wire.need])
  rw [if_pos rfl] at hfolder
  simp only [Wire.build, Wire.buildItems, hfolder, if_pos]
  rfl

/-- What is said to greet a server, before it is an object of the protocol. -/
def greetingMembers (uri folder name : String) (initialization : Value) (trace : Option String) :
    List (String × Value) :=
  [("processId", .int processId),
    ("clientInfo", table [("name", .str name), ("version", .str programVersion)]),
    ("rootUri", .str uri),
    ("capabilities", capabilities),
    ("workspaceFolders", .list [table [("uri", .str uri), ("name", .str folder)]])] ++
    unlessNull "initializationOptions" initialization ++ unlessNull "trace" (Config.ofText? trace)

/-- The structure of what is said. -/
def initializeParams : Wire.Struct := (Wire.struct? "InitializeParams").getD default

/-- Whether a trace is known to the protocol, if there is one. -/
def traceKnown (trace : Option String) : Bool := trace.all traceLevels.contains

/-- What is built of a trace: nothing if the protocol does not know it. -/
def builtTrace (trace : Option String) : List (String × Wire) :=
  (trace.filter traceLevels.contains).toList.map fun s => ("trace", Wire.raw (.str s))

/-- What is built of initialization options, unless they are null. -/
def builtOptions (initialization : Value) : List (String × Wire) :=
  (unlessNull "initializationOptions" initialization).map fun e => (e.1, Wire.raw e.2)

theorem lookup_unlessNull (name key : String) (v : Value) :
    (unlessNull name v).lookup key = if key = name ∧ v.isNull = false then some v else none := by
  unfold unlessNull
  cases v.isNull <;> by_cases h : key = name <;> simp [h, List.lookup_cons]
  simp [beq_false_of_ne h]

theorem lookup_greetingMembers (uri folder name key : String) (initialization : Value)
    (trace : Option String) (hkey : key ∉ ["processId", "clientInfo", "rootUri", "capabilities",
      "workspaceFolders"]) : (greetingMembers uri folder name initialization trace).lookup key =
    ((unlessNull "initializationOptions" initialization).lookup key).or
      ((unlessNull "trace" (Config.ofText? trace)).lookup key) := by
  simp only [List.mem_cons, List.not_mem_nil, or_false, not_or] at hkey
  obtain ⟨h₁, h₂, h₃, h₄, h₅⟩ := hkey
  rw [greetingMembers, List.lookup_append, List.lookup_append]
  simp only [List.lookup_cons, List.lookup_nil, beq_false_of_ne h₁, beq_false_of_ne h₂,
    beq_false_of_ne h₃, beq_false_of_ne h₄, beq_false_of_ne h₅, Option.none_or]

/-- The trace is built if the protocol knows it. -/
theorem built_trace {es : List (String × Value)} {trace : Option String} {ms : List Wire.Member}
    {ws : List (String × Wire)} (hlookup : es.lookup "trace" = trace.map .str)
    (hms : Built es ms ws 0) :
    Built es (Wire.may "trace" (.oneOf (traceLevels.map .str)) :: ms) (builtTrace trace ++ ws)
      (if traceKnown trace then 0 else 1) := by
  unfold builtTrace
  cases trace with
  | none => exact .absent hlookup rfl hms
  | some s =>
    have hbuild := build_oneOf traceLevels s
    by_cases hs : s ∈ traceLevels
    · rw [if_pos hs] at hbuild
      have hthere := Built.there (m := Wire.may "trace" _) hlookup rfl hbuild hms
      rw [Wire.name_may] at hthere
      simpa [Option.filter, traceKnown, hs] using hthere
    · rw [if_neg hs] at hbuild
      simpa [Option.filter, traceKnown, hs] using Built.wrong hlookup rfl hbuild hms

/-- Initialization options are built as they are. -/
theorem built_initialization {es : List (String × Value)} {initialization : Value}
    {ms : List Wire.Member} {ws : List (String × Wire)} {n : Nat}
    (hlookup : es.lookup "initializationOptions" =
      if initialization.isNull then none else some initialization) (hms : Built es ms ws n) :
    Built es (Wire.may "initializationOptions" .raw :: ms) (builtOptions initialization ++ ws)
      n := by
  unfold builtOptions unlessNull
  cases hnull : initialization.isNull with
  | true =>
    rw [hnull, if_pos rfl] at hlookup
    exact .absent hlookup rfl hms
  | false =>
    rw [hnull, if_neg Bool.false_ne_true] at hlookup
    exact .there hlookup hnull (build_raw _) hms

/-- **The members of the object that greets a server**: only the trace may fail. -/
theorem built_greetingMembers {caps : Wire}
    (hcaps : Wire.build (.struct "ClientCapabilities") capabilities = .ok caps)
    (uri folder name : String) (initialization : Value) (trace : Option String) :
    Built (greetingMembers uri folder name initialization trace) initializeParams.members
      (("capabilities", caps) :: ("processId", .raw (.int processId)) ::
        ("clientInfo", .object "ClientInfo" [("name", .raw (.str name)),
          ("version", .raw (.str programVersion))]) :: ("rootUri", .raw (.str uri)) ::
        (builtOptions initialization ++ (builtTrace trace ++
          [("workspaceFolders", Wire.list [.object "WorkspaceFolder"
            [("uri", .raw (.str uri)), ("name", .raw (.str folder))]])])))
      (if traceKnown trace then 0 else 1) := by
  have hmissing : ∀ key ∈ ["locale", "rootPath", "workDoneToken"],
      (greetingMembers uri folder name initialization trace).lookup key = none := by
    intro key hkey
    have hother : key ≠ "initializationOptions" ∧ key ≠ "trace" := by
      revert key
      decide
    rw [lookup_greetingMembers _ _ _ _ _ _ (by revert key; decide), lookup_unlessNull,
      lookup_unlessNull, if_neg fun h => hother.1 h.1, if_neg fun h => hother.2 h.1,
      Option.none_or]
  have htrace : (greetingMembers uri folder name initialization trace).lookup "trace" =
      trace.map .str := by
    rw [lookup_greetingMembers _ _ _ _ _ _ (by decide), lookup_unlessNull, lookup_unlessNull]
    cases trace <;> rfl
  have hinitialization : (greetingMembers uri folder name initialization trace).lookup
      "initializationOptions" = if initialization.isNull then none else some initialization := by
    rw [lookup_greetingMembers _ _ _ _ _ _ (by decide), lookup_unlessNull, lookup_unlessNull]
    cases initialization.isNull <;> simp
  refine .there rfl rfl hcaps (.there rfl rfl (build_int32 _)
    (.there rfl rfl (build_clientInfo _ _) (.absent (hmissing _ (by simp)) rfl
    (.absent (hmissing _ (by simp)) rfl (.there rfl rfl (build_text _) ?_)))))
  exact built_initialization hinitialization (built_trace htrace
    (.absent (hmissing _ (by simp)) rfl (.there rfl rfl (build_folders _ _) .nil)))

/-- The one number that is said is within its limits. -/
theorem fits_initializeParams {ws : List (String × Wire)}
    (h : ws.lookup "processId" = some (.raw (.int processId))) :
    ∀ m ∈ initializeParams.members, Wire.Fits ws m := by
  have hlimits : ∀ m ∈ initializeParams.members, Wire.limits? m.shape = none ∨
      m.name = "processId" ∧ Wire.limits? m.shape = some (-2147483648, 2147483647) := by decide
  intro m hm low high n hl hn
  obtain hnone | ⟨hname, hsome⟩ := hlimits m hm
  · rw [hnone] at hl
    cases hl
  · rw [hsome] at hl
    cases hl
    rw [hname, h] at hn
    cases hn
    decide

theorem isNothing_object (name : String) (ms : List (String × Wire)) :
    (Wire.object name ms).isNothing = false := rfl

theorem isNothing_raw (v : Value) : (Wire.raw v).isNothing = v.isNull := by
  cases v <;> rfl

/-- **The object that greets a server** holds what is said; there is none if the trace is not
known. -/
theorem build_greetingMembers (uri folder name : String) (initialization : Value)
    (trace : Option String) :
    ∃ ws : List (String × Value), (∀ e ∈ ws, Json.Plain e.2) ∧
    (Wire.build (.struct "InitializeParams")
        (table (greetingMembers uri folder name initialization trace))).map Wire.toValue =
      if traceKnown trace then .ok (table (ws ++
        (unlessNull "initializationOptions" initialization ++
          unlessNull "trace" (Config.ofText? trace))))
      else .error (.members "InitializeParams" 1) := by
  obtain ⟨caps, hcaps, hplain⟩ := build_capabilities
  have hs : Wire.struct? "InitializeParams" = some initializeParams := rfl
  refine ⟨[("capabilities", caps.toValue), ("processId", .int processId), ("rootPath", .null),
    ("rootUri", .str uri),
    ("workspaceFolders", .list [table [("uri", .str uri), ("name", .str folder)]]),
    ("clientInfo", table [("name", .str name), ("version", .str programVersion)])], ?_, ?_⟩
  · have hfit : Digits.fit processId = true := Digits.fit_of_abs_lt (by decide)
    simp [hplain, Json.Plain.int hfit, Json.Plain.null, Json.Plain.str, Json.Plain.table,
      Json.Plain.list]
  rw [(built_greetingMembers hcaps uri folder name initialization trace).build hs
    (fits_initializeParams rfl)]
  cases hknown : traceKnown trace with
  | false => rfl
  | true =>
    have hwritten : initializeParams.written = [
      Wire.need "capabilities" (.struct "ClientCapabilities"), Wire.null "processId" .int32,
      Wire.null "rootPath" .text, Wire.null "rootUri" .text,
      Wire.null "workspaceFolders" (.list (.struct "WorkspaceFolder")),
      Wire.may "clientInfo" (.struct "ClientInfo"), Wire.may "locale" .text,
      Wire.may "initializationOptions" .raw, Wire.may "trace" (.oneOf (traceLevels.map .str)),
      Wire.may "workDoneToken" .raw] := rfl
    have htrace : builtTrace trace = trace.toList.map fun s => ("trace", Wire.raw (.str s)) := by
      have hfilter : trace.filter traceLevels.contains = trace := by
        cases trace with
        | none => rfl
        | some s => simpa [traceKnown, Option.filter] using hknown
      rw [builtTrace, hfilter]
    rw [if_pos rfl, if_pos rfl, htrace, builtOptions, Wire.assembled, hwritten]
    have hstr (s : String) : (Value.str s).isNull = false := rfl
    have hnull : Value.null.isNull = true := rfl
    simp only [unlessNull]
    cases hi : initialization.isNull <;> cases trace <;>
      simp [List.lookup_cons, isNothing_raw, isNothing_object, hi, Wire.need, Wire.may, Wire.null,
        Config.ofText?, hstr, hnull] <;> rfl

/-- **What a client says to greet a server**: its options are in it, but for what is null.  It says
nothing at all if the trace is not known. -/
theorem greeting_spec {c : Client} {name : String} {trace : Option String}
    (hfolder : c.folder.toList.head? = some '/') (hname : c.options.name = .str name)
    (htrace : c.options.trace = Config.ofText? trace) :
    ∃ ws : List (String × Value), (∀ e ∈ ws, Json.Plain e.2) ∧
      greeting c = if traceKnown trace then .ok (table (ws ++
        (unlessNull "initializationOptions" c.options.initialization ++
          unlessNull "trace" c.options.trace)))
      else .error (.wire (.members "InitializeParams" 1)) := by
  set root := FilePath.ofString ((firstSaid [c.options.root, c.executable.cwd]).getD c.folder)
    with hroot
  have habsolute : ((FilePath.ofString c.folder).join root).Absolute :=
    (FilePath.absolute_ofString hfolder).join_ofString
  obtain ⟨u, hu, -⟩ := Uri.toPath_eq_lowerDrive habsolute
  obtain ⟨ws, hws, hbuild⟩ :=
    build_greetingMembers u.toString root.name name c.options.initialization trace
  refine ⟨ws, hws, ?_⟩
  have hgreeting : greeting c = ((Wire.build (.struct "InitializeParams")
      (table (greetingMembers u.toString root.name name c.options.initialization trace))).mapError
        Failure.wire).map Wire.toValue := by
    unfold greeting
    dsimp only
    rw [← hroot, hu, hname, htrace]
    show ((Wire.build (.struct "InitializeParams") (table (greetingMembers u.toString root.name name
      c.options.initialization trace))).mapError Failure.wire >>= fun w => .ok w.toValue) = _
    cases Wire.build _ _ <;> rfl
  rw [hgreeting]
  cases hb : Wire.build (.struct "InitializeParams")
      (table (greetingMembers u.toString root.name name c.options.initialization trace)) with
  | error e =>
    rw [hb] at hbuild
    split at hbuild
    · cases hbuild
    · rename_i hknown
      cases hbuild
      rw [if_neg hknown]
      rfl
  | ok w =>
    rw [hb] at hbuild
    split at hbuild
    · rename_i hknown
      rw [if_pos hknown, htrace]
      exact congrArg Except.ok (Except.ok.inj hbuild)
    · cases hbuild

end Link

end EditorBridge
