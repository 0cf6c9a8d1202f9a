/-
Which values are scripts.

A script lists steps (`Lists`), and each of them is a table with one key, the kind of the step,
whose arguments the class of that kind accepts (`IsStep`).  That is the grammar, said without the
reader.
The reader gives the steps of a value exactly if the grammar does, one for every item and in order;
otherwise it refuses the value, or the first item that is no step (`ofData_spec`).

Three things are let through or refused beside that.  A table that has nothing for its steps, or
something that does not count as true, lists no steps at all.  A pause may be too long for a
floating point number, and what is no step may have an integer in it that cannot be shown in the
error about it; these are failures of their own kinds that do not name the step.

What one step can be is settled by the decoder, which decides what its class accepts; what a script
can be follows from the steps by induction on the list.
-/
import EditorBridge.Proofs.Params
import EditorBridge.Proofs.Schema.Accepting
import EditorBridge.Proofs.Schema.Again
import EditorBridge.Script.Reader

namespace EditorBridge.Script

open Schema

/-! ### The grammar -/

/-- The steps that a value lists.  What a table has for its steps may be anything that does not
count as true, and then it lists nothing. -/
inductive Lists : Value → List Value → Prop
  | nothing : Lists .null []
  | list (vs : List Value) : Lists (.list vs) vs
  | steps {es : List (Value × Value)} {vs : List Value}
    (h : Value.find? (.str "steps") es = some (.list vs)) : Lists (.dict es) vs
  | untrue {es : List (Value × Value)}
    (h : ((Value.find? (.str "steps") es).getD .null).truthy = false) : Lists (.dict es) []

/-- The arguments of a step as a table: nothing stands for an empty one, and a number for the
seconds of a pause. -/
inductive Arguments : String → Value → List (Value × Value) → Prop
  | nothing (kind : String) : Arguments kind .null []
  | table (kind : String) (es : List (Value × Value)) : Arguments kind (.dict es) es
  | int (n : Int) : Arguments "wait" (.int n) [(.str "seconds", .int n)]
  | float (x : Binary64) : Arguments "wait" (.float x) [(.str "seconds", .float x)]

/-- A table names a document: by its uri or by a path, as a text. -/
def NamesDocument (es : List (Value × Value)) : Prop :=
  ∃ f ∈ documentFields, ∃ s, documentStep.told? es f = some (.str s)

/-- A step of a kind, with the class of the kind and the table of its arguments. -/
inductive IsStep : Value → String → RecordClass → List (Value × Value) → Prop
  | intro {kind : String} {cls : RecordClass} {v : Value} {es : List (Value × Value)}
    (hcls : stepClasses.lookup kind = some cls) (hargs : Arguments kind v es)
    (haccepts : Accepts catalog true (.record cls.name) (.dict es))
    (hdoc : kind ≠ "wait" → NamesDocument es) : IsStep (.dict [(.str kind, v)]) kind cls es

/-- A value is a step of some kind. -/
def Grammatical (v : Value) : Prop := ∃ kind cls es, IsStep v kind cls es

/-- A pause that is too long for a floating point number. -/
def Endless (v : Value) : Prop := ∃ w, v = .dict [(.str "wait", w)] ∧ Exceeds w

/-- The message of an error begins with the index of a step, and that ends where no digit
follows. -/
def Error.Names (e : Error) (i : Nat) : Prop :=
  ∃ rest, e.message = "Step " ++ toString i ++ rest ∧
    (rest.toList.head?.any fun c => !c.isDigit) = true

namespace Error.Names

/-- A message that is put together from texts names what stands in the first of them. -/
theorem of_texts {e : Error} {i : Nat} {c : String} (texts : List String)
    (h : e.message = texts.foldl (· ++ ·) ("Step " ++ toString i ++ c))
    (hc : (c.toList.head?.any fun c => !c.isDigit) = true) : e.Names i := by
  have hfold (ts : List String) (s : String) : ts.foldl (· ++ ·) s = s ++ ts.foldl (· ++ ·) "" := by
    induction ts generalizing s with
    | nil => simp
    | cons t ts ih =>
      rw [List.foldl_cons, List.foldl_cons, ih (s ++ t), ih ("" ++ t)]
      simp only [String.append_assoc, String.empty_append]
  refine ⟨c ++ texts.foldl (· ++ ·) "", ?_, ?_⟩
  · rw [h, hfold, String.append_assoc]
  · rw [String.toList_append]
    cases hlist : c.toList with
    | nil =>
      rw [hlist] at hc
      cases hc
    | cons a as =>
      rw [hlist] at hc
      exact hc

theorem notOneKey (i : Nat) (s : String) : (Error.notOneKey i s).Names i :=
  of_texts [s, "."] rfl rfl

theorem unknownStep (i : Nat) (s : String) : (Error.unknownStep i s).Names i :=
  of_texts [s, ", expected one of ", String.intercalate ", " stepNames, "."] rfl rfl

theorem arguments (i : Nat) (kind : String) (e : Schema.Error) :
    (Error.arguments i kind e).Names i :=
  of_texts [kind, "): ", e.message] rfl rfl

theorem noDocument (i : Nat) (kind : String) : (Error.noDocument i kind).Names i :=
  of_texts [kind, "): either \x60uri\x60 or \x60path\x60 is required."] rfl rfl

end Error.Names

/-! ### The classes of steps -/

theorem noChecks : NoChecks catalog lookTwice := .inr (by decide)

/-- A pause is of a class of its own; all other steps begin with what names a document. -/
theorem stepClasses_cases {kind : String} {cls : RecordClass}
    (h : stepClasses.lookup kind = some cls) :
    catalog.find? cls.name = some cls ∧
      (kind = "wait" ∧ cls = waitStep ∨
        kind ≠ "wait" ∧ cls.name ≠ "WaitStep" ∧ ∃ name fields, cls = stepClass name fields) := by
  obtain ⟨before, after, hmem, -⟩ := List.lookup_eq_some_iff.1 h
  have hmem : (kind, cls) ∈ stepClasses := by simp [hmem]
  simp only [stepClasses, stepNames, List.zip_cons_cons, List.zip_nil_right, List.mem_cons,
    Prod.mk.injEq, List.not_mem_nil, or_false] at hmem
  obtain ⟨rfl, rfl⟩ | ⟨rfl, rfl⟩ | ⟨rfl, rfl⟩ | ⟨rfl, rfl⟩ | ⟨rfl, rfl⟩ | ⟨rfl, rfl⟩ | ⟨rfl, rfl⟩ :=
    hmem
  · exact ⟨rfl, .inr ⟨by decide, by decide, _, _, rfl⟩⟩
  · exact ⟨rfl, .inr ⟨by decide, by decide, _, _, rfl⟩⟩
  · exact ⟨rfl, .inr ⟨by decide, by decide, _, _, rfl⟩⟩
  · exact ⟨rfl, .inr ⟨by decide, by decide, _, _, rfl⟩⟩
  · exact ⟨rfl, .inr ⟨by decide, by decide, _, _, rfl⟩⟩
  · exact ⟨rfl, .inr ⟨by decide, by decide, _, _, rfl⟩⟩
  · exact ⟨rfl, .inl ⟨rfl, rfl⟩⟩

/-- Whatever digits the arguments of a step have, they are read. -/
theorem regular_catalog :
    ∀ cls ∈ catalog.classes, ∀ f ∈ cls.fields, f.shape.regular true = true := by decide

/-- Only a pause can be too long. -/
theorem exact_catalog : catalog.Exact fun c => c != "WaitStep" := by
  have hall : ∀ cls ∈ catalog.classes, cls.name ≠ "WaitStep" →
      ∀ f ∈ cls.fields, (f.shape.exact fun c => c != "WaitStep") = true := by decide
  intro c cls hc hcls f hf
  have hname : cls.name = c := by simpa using List.find?_some hcls
  exact hall cls (List.mem_of_find?_eq_some hcls) (by simpa [hname] using hc) f hf

/-! ### Arguments -/

theorem argumentsOf_eq {kind : String} {v : Value} {es : List (Value × Value)}
    (h : Arguments kind v es) : argumentsOf kind v = .dict es := by
  cases h <;> rfl

/-- A truth value is no number of seconds. -/
theorem not_accepts_bool (b : Bool) : ¬Accepts catalog true (.record waitStep.name)
    (Value.table [("seconds", .bool b)]) := by
  intro h
  have hfind : catalog.find? waitStep.name = some waitStep := rfl
  obtain ⟨-, hfields⟩ := (Accepts.record_iff hfind).1 h
  have hseconds := hfields _ List.mem_cons_self
  rw [Accepts.Field.told_iff (v := .bool b) (by cbv)] at hseconds
  cases hseconds with
  | scalar h => cases h

/-- What a class accepts for the arguments of a step is a table of arguments. -/
theorem exists_arguments {kind : String} {cls : RecordClass} {v : Value}
    (hcls : stepClasses.lookup kind = some cls)
    (h : Accepts catalog true (.record cls.name) (argumentsOf kind v)) :
    ∃ es, Arguments kind v es ∧ Accepts catalog true (.record cls.name) (.dict es) := by
  obtain ⟨es, heq⟩ := h.exists_of_record
  rw [heq] at h
  refine ⟨es, ?_, h⟩
  unfold argumentsOf at heq
  split at heq
  · cases heq
    exact .nothing kind
  · split at heq
    · rename_i hkind
      cases heq
      rw [hkind]
      exact .int _
    · cases heq
  · split at heq
    · rename_i hkind
      cases heq
      rw [hkind]
      exact .float _
    · cases heq
  · rename_i b
    split at heq
    · rename_i hkind
      cases heq
      obtain ⟨-, ⟨-, rfl⟩ | ⟨hne, -, -⟩⟩ := stepClasses_cases hcls
      · exact absurd h (not_accepts_bool b)
      · exact absurd hkind hne
    · cases heq
  · subst heq
    exact .table kind es

/-! ### What names a document -/

/-- A text that may be missing is read as it is. -/
theorem eq_of_reads_optional {v x : Value} (h : Reads catalog (.optional .str) v x) :
    x = v ∧ (v = .null ∨ ∃ s, v = .str s) := by
  have hshape : Shape.optional .str = .union [.str, .null] := by cbv
  rw [hshape] at h
  cases h with
  | scalar h => simp [scalar?] at h
  | union ht h =>
    simp only [List.mem_cons, List.not_mem_nil, or_false] at ht
    obtain rfl | rfl := ht
    · cases h with
      | scalar h =>
        obtain ⟨s, rfl⟩ : ∃ s, v = .str s := by
          cases v with
          | str s => exact ⟨s, rfl⟩
          | _ => simp [scalar?] at h
        cases h
        exact ⟨rfl, .inr ⟨s, rfl⟩⟩
    · cases h with
      | scalar h =>
        obtain rfl : v = .null := by cases v <;> simp_all [scalar?]
        cases h
        exact ⟨rfl, .inl rfl⟩

/-- **A step that was read names a document if the table of its arguments does.** -/
theorem namesNone_eq_false_iff {name : String} {fields : List Field} {es : List (Value × Value)}
    {c : String} {x : Value} (hc : catalog.find? c = some (stepClass name fields))
    (h : Reads catalog (.record c) (.dict es) x) : namesNone x = false ↔ NamesDocument es := by
  cases h with
  | scalar h => simp [scalar?] at h
  | @record _ cls _ xs hc' hl hn h hd =>
    cases hc.symm.trans hc'
    have hfield {f : Field} {e : String × Value} (hf : f ∈ documentFields)
        (hmem : (f, e) ∈ (stepClass name fields).fields.zip xs) :
        e.2.isNull = false ↔ ∃ s, documentStep.told? es f = some (.str s) := by
      have hf : f.shape = .optional .str ∧ f.default = some .null := by
        simp only [documentFields, List.mem_cons, List.not_mem_nil, or_false] at hf
        obtain rfl | rfl := hf <;> exact ⟨rfl, rfl⟩
      cases htold : documentStep.told? es f with
      | none =>
        have hnull := hd hmem htold
        rw [hf.2] at hnull
        simp [← Option.some.inj hnull, Value.isNull]
      | some v =>
        have hread := h hmem htold
        rw [hf.1] at hread
        obtain ⟨heq, hv⟩ := eq_of_reads_optional hread
        rw [heq]
        obtain rfl | ⟨s, rfl⟩ := hv <;> simp [Value.isNull]
    obtain ⟨a, b, rest, rfl⟩ : ∃ a b rest, xs = a :: b :: rest := by
      rcases xs with - | ⟨a, - | ⟨b, rest⟩⟩
      · cases hl
      · cases hl
      · exact ⟨a, b, rest, rfl⟩
    have ha : (_, a) ∈ (stepClass name fields).fields.zip (a :: b :: rest) := List.mem_cons_self
    have hb : (_, b) ∈ (stepClass name fields).fields.zip (a :: b :: rest) :=
      List.mem_cons_of_mem _ List.mem_cons_self
    have hnames : namesNone (.record c (a :: b :: rest)) = (a.2.isNull && b.2.isNull) := by
      obtain ⟨k, x⟩ := a
      obtain ⟨l, y⟩ := b
      obtain rfl : k = "uri" := hn ha
      obtain rfl : l = "path" := hn hb
      have hpath : ("path" == "uri") = false := by decide
      simp [namesNone, List.lookup_cons, hpath]
    rw [hnames, Bool.and_eq_false_iff, hfield List.mem_cons_self ha,
      hfield (List.mem_cons_of_mem _ List.mem_cons_self) hb]
    unfold NamesDocument
    simp only [documentFields, List.mem_cons, List.not_mem_nil, or_false, exists_eq_or_imp,
      exists_eq_left]

/-- A pause has no field for a document. -/
theorem namesNone_wait {es : List (Value × Value)} {x : Value}
    (h : Reads catalog (.record waitStep.name) (.dict es) x) : namesNone x = false := by
  cases h with
  | scalar h => simp [scalar?] at h
  | @record _ cls _ xs hc hl hn =>
    cases (show catalog.find? waitStep.name = some waitStep from rfl).symm.trans hc
    obtain ⟨a, rfl⟩ := List.length_eq_one_iff.1 hl.symm
    obtain ⟨k, x⟩ := a
    obtain rfl : k = "seconds" := hn List.mem_cons_self
    have huri : ("uri" == "seconds") = false := by decide
    simp [namesNone, List.lookup_cons, huri]

/-! ### One step -/

/-- A step is read at a place: it has the kind and the arguments that the grammar finds, with
defaults for the keys that are missing. -/
def StepRead (i : Nat) (v : Value) (s : ScriptStep) : Prop :=
  ∃ kind cls es, IsStep v kind cls es ∧ s.place = i ∧ s.name = kind ∧
    Reads catalog (.record cls.name) (.dict es) s.data

/-- A value is refused as a step at a place: it is none, or it is a pause that is too long.  What is
none is refused by an error that names the place, or without a name if it cannot be shown. -/
def StepRefused (i : Nat) (v : Value) (f : Failure) : Prop :=
  (¬Grammatical v ∧ ((∃ e : Error, f = .script e ∧ e.Names i) ∨ f = .unshown ∧ v.shows = false)) ∨
    f = .schema .tooLarge ∧ Endless v

/-- What is no step is refused by showing it, or a part of it. -/
theorem StepRefused.refusal {i : Nat} {v w : Value} {e : String → Error} (hv : ¬Grammatical v)
    (he : ∀ s, (e s).Names i) (hw : v.shows = true → w.shows = true) :
    StepRefused i v (refusal w e) := by
  refine .inl ⟨hv, ?_⟩
  unfold Script.refusal
  split
  · exact .inl ⟨_, rfl, he _⟩
  · exact .inr ⟨rfl, Bool.eq_false_iff.2 fun h => ‹¬w.shows = true› (hw h)⟩

/-- The arguments of a step are one table. -/
theorem IsStep.accepts {kind kind' : String} {cls cls' : RecordClass} {v : Value}
    {es : List (Value × Value)} (h : IsStep (.dict [(.str kind, v)]) kind' cls' es)
    (hcls : stepClasses.lookup kind = some cls) :
    argumentsOf kind v = .dict es ∧ Accepts catalog true (.record cls.name) (.dict es) ∧
      (kind ≠ "wait" → NamesDocument es) := by
  cases h with
  | intro hcls' hargs haccepts hdoc =>
    cases hcls.symm.trans hcls'
    exact ⟨argumentsOf_eq hargs, haccepts, hdoc⟩

/-- What is too large in the table of the arguments is so in the arguments. -/
theorem exceeds_of_argumentsOf {kind : String} {v : Value} (h : Exceeds (argumentsOf kind v)) :
    Exceeds v := by
  have hseconds {w : Value} (h : Exceeds (Value.table [("seconds", w)])) : Exceeds w := by
    obtain ⟨n, hn, hlarge⟩ := h
    cases hn with
    | item hv => cases hv
    | entry he hn =>
      rw [List.mem_singleton.1 he] at hn
      exact ⟨n, hn, hlarge⟩
  unfold argumentsOf at h
  split at h
  · obtain ⟨n, hn, -⟩ := h
    cases hn with
    | item hv => cases hv
    | entry he => cases he
  · split at h
    · exact hseconds h
    · exact h
  · split at h
    · exact hseconds h
    · exact h
  · split at h
    · exact hseconds h
    · exact h
  · exact h

/-- A step of a kind that there is, is read exactly if it is one. -/
theorem readStep_known {i : Nat} {kind : String} {cls : RecordClass} {args : Value}
    (hcls : stepClasses.lookup kind = some cls) :
    match readStep i (.dict [(.str kind, args)]) with
    | .ok s => StepRead i (.dict [(.str kind, args)]) s
    | .error f => StepRefused i (.dict [(.str kind, args)]) f := by
  obtain ⟨hfind, hclass⟩ := stepClasses_cases hcls
  have hdecides : Decides (Accepts catalog true (.record cls.name) (argumentsOf kind args))
      (fromDict catalog (.record cls.name) true (argumentsOf kind args)) := decode_decides noChecks
  unfold readStep
  dsimp only
  rw [hcls]
  dsimp only [Option.map_some]
  cases hx : fromDict catalog (.record cls.name) true (argumentsOf kind args) with
  | error e =>
    rw [hx] at hdecides
    cases e with
    | wrong q problem =>
      refine .inl ⟨?_, .inl ⟨_, rfl, .arguments i kind _⟩⟩
      rintro ⟨kind', cls', es, hstep⟩
      obtain ⟨heq, haccepts, -⟩ := hstep.accepts hcls
      rw [heq] at hdecides
      exact hdecides haccepts
    | unshown =>
      refine .inl ⟨?_, .inl ⟨_, rfl, .arguments i kind _⟩⟩
      rintro ⟨kind', cls', es, hstep⟩
      obtain ⟨heq, haccepts, -⟩ := hstep.accepts hcls
      rw [heq] at hx
      exact decode_ne_unshown noChecks regular_catalog rfl haccepts hx
    | tooLarge =>
      refine .inr ⟨rfl, args, ?_, exceeds_of_argumentsOf (decode_tooLarge noChecks hx)⟩
      obtain ⟨rfl, -⟩ | ⟨-, hname, -⟩ := hclass
      · rfl
      · exact absurd hx (decode_tame exact_catalog (by simpa [Shape.exact] using hname))
    | invalid | unexpectedArgument | missingArguments => exact hdecides.elim
  | ok x =>
    rw [hx] at hdecides
    obtain ⟨es, hargs, haccepts⟩ := exists_arguments hcls hdecides
    have hread : Reads catalog (.record cls.name) (.dict es) x := by
      rw [argumentsOf_eq hargs] at hx
      exact .of_decode hx
    dsimp only
    obtain ⟨rfl, rfl⟩ | ⟨hne, -, name, fields, rfl⟩ := hclass
    · rw [if_neg (by simp [namesNone_wait hread])]
      exact ⟨_, _, es, .intro hcls hargs haccepts fun h => absurd rfl h, rfl, rfl, hread⟩
    · have hnames := namesNone_eq_false_iff hfind hread
      cases hnone : namesNone x with
      | false =>
        rw [if_neg (by simp)]
        exact ⟨_, _, es, .intro hcls hargs haccepts fun _ => hnames.1 hnone, rfl, rfl, hread⟩
      | true =>
        rw [if_pos rfl]
        refine .inl ⟨?_, .inl ⟨_, rfl, .noDocument i kind⟩⟩
        rintro ⟨kind', cls', es', hstep⟩
        obtain ⟨heq, -, hdoc⟩ := hstep.accepts hcls
        cases (argumentsOf_eq hargs).symm.trans heq
        rw [hnames.2 (hdoc hne)] at hnone
        cases hnone

/-- **A step is read exactly if it is one.** -/
theorem readStep_spec (i : Nat) (v : Value) :
    match readStep i v with
    | .ok s => StepRead i v s
    | .error f => StepRefused i v f := by
  by_cases hv : ∃ kind args, v = .dict [(.str kind, args)] ∧ (stepClasses.lookup kind).isSome = true
  · obtain ⟨kind, args, rfl, hkind⟩ := hv
    obtain ⟨cls, hcls⟩ := Option.isSome_iff_exists.1 hkind
    exact readStep_known hcls
  · have hnot : ¬Grammatical v := by
      rintro ⟨kind, cls, es, hstep⟩
      cases hstep with
      | intro hcls => exact hv ⟨_, _, rfl, by rw [hcls]; rfl⟩
    by_cases hone : ∃ key args, v = .dict [(key, args)]
    · obtain ⟨key, args, rfl⟩ := hone
      have hread : readStep i (.dict [(key, args)]) = .error (refusal key (.unknownStep i)) := by
        unfold readStep
        cases key with
        | str kind =>
          cases hcls : stepClasses.lookup kind with
          | none => simp [hcls]
          | some cls => exact absurd ⟨kind, args, rfl, by rw [hcls]; rfl⟩ hv
        | _ => rfl
      rw [hread]
      exact .refusal hnot (.unknownStep i) fun h => (shows_of_entry List.mem_cons_self h).1
    · have hread : readStep i v = .error (refusal v (.notOneKey i)) := by
        unfold readStep
        split
        · exact absurd ⟨_, _, rfl⟩ hone
        · rfl
      rw [hread]
      exact .refusal hnot (.notOneKey i) id

/-! ### A script -/

/-- Steps are read one after the other, up to the first that is refused. -/
theorem mapM_readStep (items : List (Value × Nat)) :
    match items.mapM fun a => readStep a.2 a.1 with
    | .ok steps => List.Forall₂ (fun a s => StepRead a.2 a.1 s) items steps
    | .error f => ∃ before v i after, items = before ++ (v, i) :: after ∧
      (∀ a ∈ before, Grammatical a.1) ∧ StepRefused i v f := by
  induction items with
  | nil =>
    rw [List.mapM_nil]
    exact .nil
  | cons a items ih =>
    have hstep := readStep_spec a.2 a.1
    rw [List.mapM_cons]
    cases hs : readStep a.2 a.1 with
    | error f =>
      rw [hs] at hstep
      exact ⟨[], a.1, a.2, items, rfl, List.forall_mem_nil _, hstep⟩
    | ok s =>
      rw [hs] at hstep
      cases hrest : items.mapM fun a => readStep a.2 a.1 with
      | error f =>
        rw [hrest] at ih
        obtain ⟨before, v, i, after, rfl, hbefore, hrefused⟩ := ih
        have hfirst : Grammatical a.1 := by
          obtain ⟨kind, cls, es, h, -⟩ := hstep
          exact ⟨kind, cls, es, h⟩
        exact ⟨a :: before, v, i, after, rfl, List.forall_mem_cons.2 ⟨hfirst, hbefore⟩, hrefused⟩
      | ok steps =>
        rw [hrest] at ih
        exact .cons hstep ih

theorem ofData_of_lists {v : Value} {vs : List Value} (h : Lists v vs) :
    ofData v = vs.zipIdx.mapM fun a => readStep a.2 a.1 := by
  cases h with
  | nothing => rfl
  | list => rfl
  | untrue h => simp [ofData, h]
  | steps h =>
    cases vs with
    | nil => simp [ofData, h, Value.truthy]
    | cons w ws => simp [ofData, h, Value.truthy]

theorem ofData_of_not_lists {v : Value} (h : ¬∃ vs, Lists v vs) :
    ofData v = .error (.script .notAList) := by
  cases v with
  | null => exact absurd ⟨_, .nothing⟩ h
  | list vs => exact absurd ⟨_, .list vs⟩ h
  | dict es =>
    have htrue : ((Value.find? (.str "steps") es).getD .null).truthy = true := by
      by_contra hfalse
      exact h ⟨[], .untrue (by simpa using hfalse)⟩
    unfold ofData
    dsimp only
    rw [if_pos htrue]
    cases hsteps : Value.find? (.str "steps") es with
    | none =>
      rw [hsteps] at htrue
      cases htrue
    | some w =>
      cases w with
      | list vs => exact absurd ⟨vs, .steps hsteps⟩ h
      | _ => rfl
  | _ => rfl

/-- What stands behind some items with their indices has the number of those for its index. -/
theorem eq_of_zipIdx {vs : List Value} {before after : List (Value × Nat)} {w : Value} {i : Nat}
    (h : vs.zipIdx = before ++ (w, i) :: after) :
    vs = before.map (·.1) ++ w :: after.map (·.1) ∧ i = before.length := by
  have hvs : vs = (vs.zipIdx).map (·.1) := (List.zipIdx_map_fst 0 vs).symm
  have hi : vs.zipIdx[before.length]? = some (w, i) := by simp [h]
  rw [List.getElem?_zipIdx] at hi
  obtain ⟨u, -, heq⟩ := Option.map_eq_some_iff.1 hi
  refine ⟨?_, by simpa using (congrArg Prod.snd heq).symm⟩
  rw [hvs, h]
  simp

/-- **A script is read exactly if it lists steps only**, and then every step is read, in order.
Otherwise the value lists nothing that could be read, or the first item that is refused is named by
its index; a pause that is too long is refused without a name, and so is what cannot be shown. -/
theorem ofData_spec (v : Value) :
    match ofData v with
    | .ok steps => ∃ vs, Lists v vs ∧
      List.Forall₂ (fun a s => StepRead a.2 a.1 s) vs.zipIdx steps
    | .error f => (f = .script .notAList ∧ ¬∃ vs, Lists v vs) ∨
      ∃ before w after, Lists v (before ++ w :: after) ∧ (∀ u ∈ before, Grammatical u) ∧
        StepRefused before.length w f := by
  by_cases h : ∃ vs, Lists v vs
  · obtain ⟨vs, hvs⟩ := h
    have hsteps := mapM_readStep vs.zipIdx
    rw [ofData_of_lists hvs]
    cases hread : vs.zipIdx.mapM fun a => readStep a.2 a.1 with
    | ok steps =>
      rw [hread] at hsteps
      exact ⟨vs, hvs, hsteps⟩
    | error f =>
      rw [hread] at hsteps
      obtain ⟨before, w, i, after, hitems, hbefore, hrefused⟩ := hsteps
      obtain ⟨rfl, rfl⟩ := eq_of_zipIdx hitems
      refine .inr ⟨before.map (·.1), w, after.map (·.1), hvs, List.forall_mem_map.2 hbefore, ?_⟩
      rwa [List.length_map]
  · rw [ofData_of_not_lists h]
    exact .inl ⟨rfl, h⟩

/-- A script with its list under a misspelt key. -/
def misspelt : Value := Value.table [("step", .list [Value.table [("wait", .int 1)]])]

/-- **A table without a list of steps may pass for an empty script**, where the same value by itself
is refused; and a pause that is too long and an item that cannot be shown are refused without saying
which. -/
theorem not_ofData_listed :
    (ofData misspelt = .ok [] ∧ misspelt.get? "steps" = none) ∧
    (ofData (Value.table [("steps", .bool false)]) = .ok [] ∧
      ofData (.bool false) = .error (.script .notAList)) ∧
    ofData (.list [Value.table [("wait", .int Catalog.beyond)]]) = .error (.schema .tooLarge) ∧
    ofData (.list [.int (10 ^ Digits.limit : Nat)]) = .error .unshown := by
  refine ⟨⟨by cbv, by cbv⟩, ⟨by cbv, rfl⟩, ?_, ?_⟩
  · have hfind : catalog.find? "WaitStep" = some waitStep := rfl
    have hdecode : fromDict catalog (.record "WaitStep") true
        (.dict [(.str "seconds", .int Catalog.beyond)]) = .error .tooLarge := by
      rw [fromDict, decode, hfind]
      simp [waitStep, RecordClass.keyOf, hyphenate, valueAt?, Value.same, decodeFields,
        Catalog.decode_float_of_none Catalog.ofInt?_beyond, bind, Except.bind]
    have hstep : readStep 0 (Value.table [("wait", .int Catalog.beyond)]) =
        .error (.schema .tooLarge) := by
      have hcls : stepClasses.lookup "wait" = some waitStep := rfl
      have hname : waitStep.name = "WaitStep" := rfl
      simp only [readStep, Value.table, List.map_cons, List.map_nil, hcls, Option.map_some, hname,
        argumentsOf_eq (.int Catalog.beyond), hdecode]
    rw [ofData_of_lists (.list _)]
    simp [hstep]
  · have hlong : (Value.int (10 ^ Digits.limit : Nat)).shows = false := by
      rw [Value.shows, Bool.eq_false_iff, ne_eq, Digits.fit_iff]
      exact Nat.lt_irrefl _
    have hstep (n : Int) : readStep 0 (.int n) = .error (refusal (.int n) (.notOneKey 0)) := rfl
    rw [ofData_of_lists (.list _), List.zipIdx_singleton, List.mapM_cons, hstep, refusal, hlong]
    rfl

end EditorBridge.Script
