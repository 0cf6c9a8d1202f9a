/-
What the decoder refuses with.

An error of the decoder comes from a scalar, from the check of a new instance, or from a part
that is plainly wrong; all others only pass through.  So to know which errors come out it is
enough to look at scalars and at new instances, provided that what is assumed of a shape and a
value holds of their parts, too (`decode_only`).

`Part` says what the decoder goes on to from a shape and a value.  Each function of the decoder
is taken once for whatever errors are asked about, and the case analysis of the decoder is done
once (`decode_only_step`); the recursion is on the parts.

An integer with too many digits cannot be shown, and a message or a path that would show it is
not written.  That happens only if there is such an integer in the data or in a literal of the
shape (`decode_unshown`).

The first use of it is that only floating point numbers can be too large.  An integer is turned
into a floating point number where a shape asks for one, and that fails beyond the largest.  Shapes
without floating point numbers (`Shape.exact`) are never refused for a number (`decode_tame`), not
even when instances of checked classes are looked at again.
-/
import EditorBridge.Proofs.Schema.RoundTrip

namespace EditorBridge.Schema

variable {cat : Catalog} {known : String → Bool} {rounds : Nat} {strict : Bool} {p : Path}
  {E : Error → Prop}

/-- If an error comes out, it is one of some kind. -/
def Only {α : Type} (E : Error → Prop) (x : Except Error α) : Prop := ∀ e, x = .error e → E e

namespace Only

variable {α β : Type}

theorem ok (a : α) : Only E (.ok a) := nofun

theorem error {e : Error} (h : E e) : Only E (.error e : Except Error α) := by
  rintro _ ⟨⟩
  exact h

theorem bind {x : Except Error α} {f : α → Except Error β} (hx : Only E x)
    (hf : ∀ a, x = .ok a → Only E (f a)) : Only E (x >>= f) := by
  cases x with
  | error e => exact .error (hx e rfl)
  | ok a => exact hf a rfl

theorem refuse {problem : Problem} (h : E (.wrong p problem))
    (hunshown : problem.shows = false → E .unshown) :
    Only E (Schema.refuse p problem : Except Error α) := by
  unfold Schema.refuse
  split
  · exact .error h
  · exact .error (hunshown (by simp_all))

end Only

/-! ### What can be shown -/

mutual

/-- Whether the options and the members of enumerations in a shape can be shown. -/
def Shape.shows : Shape → Bool
  | .list t | .sequence t | .tupleOf t | .dict _ t | .mapping _ t => t.shows
  | .tuple ts | .union ts => Shape.allShow ts
  | .literal options => options.all Value.shows
  | .enumeration e => e.members.all (·.2.shows)
  | _ => true

def Shape.allShow : List Shape → Bool
  | [] => true
  | t :: ts => t.shows && Shape.allShow ts

end

theorem Shape.allShow_iff {ts : List Shape} :
    Shape.allShow ts = true ↔ ∀ t ∈ ts, t.shows = true := by
  induction ts with
  | nil => simp [Shape.allShow]
  | cons t ts ih => simp [Shape.allShow, ih]

/-- Something in a shape or in data cannot be shown: an integer with too many digits. -/
def Veiled (t : Shape) (v : Value) : Prop := t.shows = false ∨ v.shows = false

theorem not_veiled {t : Shape} {v : Value} : ¬Veiled t v ↔ t.shows = true ∧ v.shows = true := by
  simp [Veiled]

/-- Whether the keys of a table may be shown when it is read into a shape. -/
def Shape.tells : Shape → Bool
  | .record _ | .dict .. | .mapping .. | .bareDict => true
  | _ => false

/-- What would be shown when a value is read cannot be: an option that it may be, the value
instead of an option, or a key. -/
inductive Unsaid : Shape → Value → Prop
  | option {options : List Value} {v : Value} (h : Veiled (.literal options) v) :
    Unsaid (.literal options) v
  | key {t : Shape} {es : List (Value × Value)} {e : Value × Value} (ht : t.tells = true)
    (he : e ∈ es) (hk : e.1.shows = false) : Unsaid t (.dict es)

/-- All that the classes of a catalog ask for or have by default can be shown. -/
def Catalog.Shows (cat : Catalog) : Prop :=
  ∀ c cls, cat.find? c = some cls → ∀ f ∈ cls.fields,
    f.shape.shows = true ∧ ∀ d, f.default = some d → d.shows = true

theorem shows_of_items {v w : Value} {vs : List Value} (hv : items? v = some vs) (hw : w ∈ vs)
    (h : v.shows = true) : w.shows = true := by
  have hvs : Value.showsItems vs = true := by
    unfold items? at hv
    split at hv <;> cases hv <;> exact h
  exact Value.showsItems_iff.1 hvs w hw

theorem shows_of_entry {es : List (Value × Value)} {e : Value × Value} (he : e ∈ es)
    (h : (Value.dict es).shows = true) : e.1.shows = true ∧ e.2.shows = true :=
  Value.showsEntries_iff.1 h e he

theorem Unsaid.veiled {t : Shape} {v : Value} (h : Unsaid t v) : Veiled t v := by
  cases h with
  | option h => exact h
  | key _ he hk =>
    refine .inr (Bool.eq_false_iff.2 fun hshows => ?_)
    rw [(shows_of_entry he hshows).1] at hk
    cases hk

/-! ### Parts -/

/-- To read the first value into the first shape the decoder reads the second into the second. -/
inductive Part (cat : Catalog) : Shape → Value → Shape → Value → Prop
  | alternative {ts : List Shape} {t : Shape} {v : Value} (ht : t ∈ ts) :
    Part cat (.union ts) v t v
  | listItem {t : Shape} {v w : Value} {vs : List Value} (hv : items? v = some vs) (hw : w ∈ vs) :
    Part cat (.list t) v t w
  | sequenceItem {t : Shape} {v w : Value} {vs : List Value} (hv : items? v = some vs)
    (hw : w ∈ vs) : Part cat (.sequence t) v t w
  | tupleOfItem {t : Shape} {v w : Value} {vs : List Value} (hv : items? v = some vs)
    (hw : w ∈ vs) : Part cat (.tupleOf t) v t w
  | tupleItem {ts : List Shape} {t : Shape} {v w : Value} {vs : List Value}
    (hv : items? v = some vs) (hmem : (t, w) ∈ ts.zip vs) : Part cat (.tuple ts) v t w
  | dictEntry {k t : Shape} {es : List (Value × Value)} {e : Value × Value} (he : e ∈ es) :
    Part cat (.dict k t) (.dict es) t e.2
  | mappingEntry {k t : Shape} {es : List (Value × Value)} {e : Value × Value} (he : e ∈ es) :
    Part cat (.mapping k t) (.dict es) t e.2
  | field {c : String} {cls : RecordClass} {es : List (Value × Value)} {f : Field} {v : Value}
    (hc : cat.find? c = some cls) (hf : f ∈ cls.fields) (hv : cls.told? es f = some v) :
    Part cat (.record c) (.dict es) f.shape v

/-- A part is a smaller value, or the same one for a smaller shape. -/
theorem Part.sizeOf_lt {t t' : Shape} {v v' : Value} (h : Part cat t v t' v') :
    sizeOf v' < sizeOf v ∨ v' = v ∧ sizeOf t' < sizeOf t := by
  have hitem {v w : Value} {vs : List Value} (hv : items? v = some vs) (hw : w ∈ vs) :
      sizeOf w < sizeOf v :=
    Nat.lt_trans (List.sizeOf_lt_of_mem hw) (sizeOf_items hv)
  have hentry {es : List (Value × Value)} {e : Value × Value} (he : e ∈ es) :
      sizeOf e.2 < sizeOf (Value.dict es) := by
    have hlt := List.sizeOf_lt_of_mem he
    obtain ⟨k, w⟩ := e
    simp only [Prod.mk.sizeOf_spec, Value.dict.sizeOf_spec] at hlt ⊢
    omega
  cases h with
  | @alternative ts t v ht =>
    refine .inr ⟨rfl, ?_⟩
    have hlt := List.sizeOf_lt_of_mem ht
    simp only [Shape.union.sizeOf_spec]
    omega
  | listItem hv hw | sequenceItem hv hw | tupleOfItem hv hw => exact .inl (hitem hv hw)
  | tupleItem hv hmem => exact .inl (hitem hv (List.of_mem_zip hmem).2)
  | dictEntry he | mappingEntry he => exact .inl (hentry he)
  | field _ _ hv =>
    have hlt := RecordClass.sizeOf_told hv
    simp only [Value.dict.sizeOf_spec]
    exact .inl (by omega)

/-- What can be shown has parts that can be shown. -/
theorem Part.shows (hcat : cat.Shows) {t t' : Shape} {v v' : Value} (h : Part cat t v t' v')
    (ht : t.shows = true) (hv : v.shows = true) : t'.shows = true ∧ v'.shows = true := by
  cases h with
  | alternative hmem => exact ⟨Shape.allShow_iff.1 ht _ hmem, hv⟩
  | listItem hvs hw | sequenceItem hvs hw | tupleOfItem hvs hw => exact ⟨ht, shows_of_items hvs hw hv⟩
  | tupleItem hvs hmem =>
    exact ⟨Shape.allShow_iff.1 ht _ (List.of_mem_zip hmem).1,
      shows_of_items hvs (List.of_mem_zip hmem).2 hv⟩
  | dictEntry he | mappingEntry he => exact ⟨ht, (shows_of_entry he hv).2⟩
  | field hc hf hw =>
    obtain ⟨k, hk⟩ := RecordClass.exists_mem_of_told hw
    exact ⟨(hcat _ _ hc _ hf).1, (shows_of_entry hk hv).2⟩

/-! ### The helpers of the decoder -/

theorem decodeItems_only {t : Shape} {vs : List Value} {i : Nat}
    (h : ∀ v ∈ vs, ∀ p, Only E (decode cat rounds strict p t v)) :
    Only E (decodeItems cat rounds strict p t i vs) := by
  induction vs generalizing i with
  | nil =>
    rw [decodeItems]
    exact .ok _
  | cons v vs ih =>
    obtain ⟨hv, hvs⟩ := List.forall_mem_cons.1 h
    rw [decodeItems]
    exact (hv _).bind fun _ _ => (ih hvs).bind fun _ _ => .ok _

theorem decodeEntries_only {t : Shape} {es : List (Value × Value)}
    (hkeys : ∀ e ∈ es, e.1.plainShows = false → E .unshown)
    (h : ∀ e ∈ es, ∀ p, Only E (decode cat rounds strict p t e.2)) :
    Only E (decodeEntries cat rounds strict p t es) := by
  induction es with
  | nil =>
    rw [decodeEntries]
    exact .ok _
  | cons e es ih =>
    obtain ⟨hkey, hkeys⟩ := List.forall_mem_cons.1 hkeys
    obtain ⟨he, hes⟩ := List.forall_mem_cons.1 h
    rw [decodeEntries]
    split
    · exact (he _).bind fun _ _ => (ih hkeys hes).bind fun _ _ => .ok _
    · exact .error (hkey (by simp_all))

theorem decodeEach_only {ts : List Shape} {vs : List Value} {i : Nat}
    (h : ∀ {t v}, (t, v) ∈ ts.zip vs → ∀ p, Only E (decode cat rounds strict p t v)) :
    Only E (decodeEach cat rounds strict p i ts vs) := by
  induction ts generalizing i vs with
  | nil =>
    rw [decodeEach]
    · exact .ok _
    · simp
  | cons t ts ih =>
    cases vs with
    | nil =>
      rw [decodeEach]
      · exact .ok _
      · simp
    | cons v vs =>
      rw [decodeEach]
      refine (h (by simp) _).bind fun _ _ => (ih fun hmem => ?_).bind fun _ _ => .ok _
      exact h (by simp [hmem])

/-- Items read each into its own shape are as many as there are shapes. -/
theorem decodeAllOf_only {ts : List Shape} {vs : List Value}
    (hcount : ts.length ≠ vs.length → E (.wrong p (.wrongCount ts.length vs.length)))
    (h : ∀ {t v}, (t, v) ∈ ts.zip vs → ∀ p, Only E (decode cat rounds strict p t v)) :
    Only E (decodeAllOf cat rounds strict p ts vs) := by
  rw [decodeAllOf]
  split
  · exact .ok _
  · split
    · exact .error (hcount ‹_›)
    · exact (decodeEach_only h).bind fun _ _ => .ok _

theorem decodeFirst_only {ts : List Shape} {v : Value}
    (h : ∀ t ∈ ts, Only E (decode cat rounds strict p t v)) :
    Only E (decodeFirst cat rounds strict p ts v) := by
  induction ts with
  | nil =>
    rw [decodeFirst]
    exact .ok _
  | cons t ts ih =>
    obtain ⟨ht, hts⟩ := List.forall_mem_cons.1 h
    rw [decodeFirst]
    split
    · exact .ok _
    · exact ih hts
    · exact ih hts
    · exact ih hts
    · exact .error (ht _ ‹_›)

/-- A field is told by the table, or it has its default, or it is missing. -/
theorem decodeFields_only {cls : RecordClass} {fs : List Field} {es : List (Value × Value)}
    (hmissing : ∀ f ∈ fs, cls.told? es f = none → f.default = none →
      E (.wrong p (.missingKey (cls.keyOf f))))
    (h : ∀ f ∈ fs, ∀ v, cls.told? es f = some v → ∀ p, Only E (decode cat rounds strict p f.shape v)) :
    Only E (decodeFields cat rounds strict p cls fs es) := by
  induction fs with
  | nil =>
    rw [decodeFields]
    exact .ok _
  | cons f fs ih =>
    obtain ⟨hf, hfs⟩ := List.forall_mem_cons.1 h
    obtain ⟨hnone, hnones⟩ := List.forall_mem_cons.1 hmissing
    have htold := cls.told?_eq es f
    rw [decodeFields]
    split
    · rename_i v hv heq
      refine (hf v ?_ _).bind fun _ _ => (ih hnones hfs).bind fun _ _ => .ok _
      rw [htold, heq]
      rfl
    · rename_i heq
      split
      · exact (Only.ok _).bind fun _ _ => (ih hnones hfs).bind fun _ _ => .ok _
      · refine Only.error (hnone ?_ ‹_›)
        rw [htold, heq]
        rfl

/-- The check of an instance lets errors through that are not about a wrong part, and keeps the
others. -/
theorem wrongFields_only {cls : RecordClass} {fields : List (String × Value)}
    (h : ∀ e ∈ fields, ∀ f, cls.field? e.1 = some f →
      Only E (decode cat rounds false [.str e.1] f.shape (toData cat {} e.2))) :
    Only E (wrongFields cat rounds cls fields) := by
  induction fields with
  | nil =>
    rw [wrongFields]
    exact .ok _
  | cons e fields ih =>
    obtain ⟨he, hes⟩ := List.forall_mem_cons.1 h
    rw [wrongFields]
    split
    · exact ih hes
    · have hfield := he _ ‹_›
      split
      · exact ih hes
      · exact (ih hes).bind fun _ _ => .ok _
      · exact .error (hfield _ ‹_›)

/-- What comes out of a table that is read into a class. -/
theorem decode_record_only {c : String} {cls : RecordClass} {es : List (Value × Value)}
    (hc : cat.find? c = some cls)
    (hunknown : strict = true → ∀ keys, E (.wrong p (.unknownKeys keys)))
    (hunshown : strict = true → ∀ e ∈ es, e.1.shows = false → E .unshown)
    (hfields : Only E (decodeFields cat rounds strict p cls cls.fields es))
    (hcheck : ∀ n fields, rounds = n + 1 → cls.checked = true →
      List.Forall₂ (FieldReads cat rounds strict cls es) cls.fields fields →
      Only E (wrongFields cat n cls fields) ∧
        ∀ ps, wrongFields cat n cls fields = .ok ps → ps ≠ [] → E (.invalid c ps)) :
    Only E (decode cat rounds strict p (.record c) (.dict es)) := by
  rw [decode, hc]
  dsimp only
  split
  · rename_i h
    rw [Bool.and_eq_true] at h
    refine .refuse (hunknown h.1 _) fun hshows => ?_
    rw [Problem.shows, List.all_eq_false] at hshows
    obtain ⟨k, hk, hnot⟩ := hshows
    obtain ⟨e, he, rfl⟩ := List.mem_map.1 (List.mem_of_mem_filter hk)
    exact hunshown h.1 e he (by simpa using hnot)
  · refine hfields.bind fun fields hok => ?_
    split
    · exact .ok _
    · split
      · obtain ⟨hwrong, hinvalid⟩ := hcheck _ fields rfl ‹_› (decodeFields_ok hok)
        refine hwrong.bind fun ps hps => ?_
        split
        · exact .ok _
        · exact .error (hinvalid _ hps (by simp_all))
      · exact .ok _

/-! ### The decoder -/

/-- A scalar is read, unless it is an integer that has to become a floating point number. -/
theorem scalar?_cases {t : Shape} {v : Value} {r : Except Error Value} (h : scalar? t v = some r) :
    (∃ x, r = .ok x) ∨ t = .float ∧ ∃ n, r = scalar?.asFloat n ∧
      (v = .int n ∨ ∃ e m, v = .member e m true (.int n)) := by
  unfold scalar? at h
  split at h
  · exact .inl ⟨_, by simpa using h.symm⟩
  · exact .inl ⟨_, by simpa using h.symm⟩
  · exact .inl ⟨_, by simpa using h.symm⟩
  · exact .inl ⟨_, by simpa using h.symm⟩
  · exact .inl ⟨_, by simpa using h.symm⟩
  · exact .inl ⟨_, by simpa using h.symm⟩
  · exact .inr ⟨rfl, _, by simpa using h.symm, .inl rfl⟩
  · exact .inr ⟨rfl, _, by simpa using h.symm, .inr ⟨_, _, rfl⟩⟩
  · exact .inl ⟨_, by simpa using h.symm⟩
  · obtain ⟨y, -, rfl⟩ := Option.map_eq_some_iff.1 h
    exact .inl ⟨y, rfl⟩
  · split at h <;> cases h
    exact .inl ⟨_, rfl⟩
  · cases h

/-- The errors of a value are those of its parts, of scalars and of new instances, and wrong
parts. -/
theorem decode_only_step {t : Shape} {v : Value} (hwrong : ∀ q problem, E (.wrong q problem))
    (hunshown : Unsaid t v → E .unshown)
    (hparts : ∀ {t' v'}, Part cat t v t' v' → ∀ p, Only E (decode cat rounds strict p t' v'))
    (hscalar : ∀ r, scalar? t v = some r → Only E r)
    (hcheck : ∀ n c cls es fields, t = .record c → v = .dict es → rounds = n + 1 →
      cat.find? c = some cls → cls.checked = true →
      List.Forall₂ (FieldReads cat rounds strict cls es) cls.fields fields →
      Only E (wrongFields cat n cls fields) ∧
        ∀ ps, wrongFields cat n cls fields = .ok ps → ps ≠ [] → E (.invalid c ps)) :
    Only E (decode cat rounds strict p t v) := by
  have hkey {v : Value} (h : v.plainShows = false) : v.shows = false := by
    by_contra hshows
    rw [Value.plainShows_of_shows (by simpa using hshows)] at h
    cases h
  unfold decode
  split
  · -- a choice
    refine (decodeFirst_only fun t' ht => hparts (.alternative ht) _).bind fun r _ => ?_
    split
    · exact .ok _
    · exact .error (hwrong _ _)
  · split
    · exact .ok _
    · refine .refuse (hwrong _ _) fun hshows => hunshown (.option ?_)
      rwa [Problem.shows, Bool.and_eq_false_iff] at hshows
  · -- a record
    rename_i c es
    cases hc : cat.find? c with
    | none => exact .error (hwrong _ _)
    | some cls =>
      have hrecord : Only E (decode cat rounds strict p (.record c) (.dict es)) :=
        decode_record_only hc (fun _ _ => hwrong _ _) (fun _ e he h => hunshown (.key rfl he h))
          (decodeFields_only (fun _ _ _ _ => hwrong _ _) fun f hf w hw => hparts (.field hc hf hw))
          fun n fields hn hchecked hfields => hcheck n c cls es fields rfl rfl hn hc hchecked hfields
      rw [decode, hc] at hrecord
      exact hrecord
  · exact .error (hwrong _ _)
  · exact (decodeEntries_only (fun e he h => hunshown (.key rfl he (hkey h)))
      fun e he => hparts (.dictEntry he)).bind fun _ _ => .ok _
  · exact (decodeEntries_only (fun e he h => hunshown (.key rfl he (hkey h)))
      fun e he => hparts (.mappingEntry he)).bind fun _ _ => .ok _
  · split
    · exact .ok _
    · rename_i hkeys
      rw [Bool.not_eq_true, List.all_eq_false] at hkeys
      obtain ⟨e, he, h⟩ := hkeys
      exact .error (hunshown (.key rfl he (hkey (by simpa using h))))
  · exact (decodeItems_only fun w hw => hparts (.listItem rfl hw)).bind fun _ _ => .ok _
  · exact (decodeItems_only fun w hw => hparts (.listItem rfl hw)).bind fun _ _ => .ok _
  · exact (decodeItems_only fun w hw => hparts (.sequenceItem rfl hw)).bind fun _ _ => .ok _
  · exact (decodeItems_only fun w hw => hparts (.sequenceItem rfl hw)).bind fun _ _ => .ok _
  · exact (decodeItems_only fun w hw => hparts (.tupleOfItem rfl hw)).bind fun _ _ => .ok _
  · exact (decodeItems_only fun w hw => hparts (.tupleOfItem rfl hw)).bind fun _ _ => .ok _
  · exact .ok _
  · exact .ok _
  · exact .ok _
  · exact .ok _
  · exact decodeAllOf_only (fun _ => hwrong _ _) fun hmem => hparts (.tupleItem rfl hmem)
  · exact decodeAllOf_only (fun _ => hwrong _ _) fun hmem => hparts (.tupleItem rfl hmem)
  · -- scalars
    split
    · exact hscalar _ ‹_›
    · exact .error (hwrong _ _)

/-- **Which errors come out** is settled by the scalars and by new instances, under anything that is
handed on to parts. -/
theorem decode_only (Good : Shape → Value → Prop) (hwrong : ∀ q problem, E (.wrong q problem))
    (hunshown : ∀ {t v}, Good t v → Unsaid t v → E .unshown)
    (hparts : ∀ {t v t' v'}, Part cat t v t' v' → Good t v → Good t' v')
    (hscalar : ∀ {t v r}, Good t v → scalar? t v = some r → Only E r)
    (hcheck : ∀ {n c cls es fields}, Good (.record c) (.dict es) → rounds = n + 1 →
      cat.find? c = some cls → cls.checked = true →
      List.Forall₂ (FieldReads cat rounds strict cls es) cls.fields fields →
      Only E (wrongFields cat n cls fields) ∧
        ∀ ps, wrongFields cat n cls fields = .ok ps → ps ≠ [] → E (.invalid c ps))
    {p : Path} {t : Shape} {v : Value} (h : Good t v) :
    Only E (decode cat rounds strict p t v) := by
  refine decode_only_step hwrong (hunshown h) (fun {t' v'} hpart p' => ?_)
    (fun r hr => hscalar h hr) ?_
  · have := hpart.sizeOf_lt
    exact decode_only Good hwrong hunshown hparts hscalar hcheck (hparts hpart h)
  · rintro n c cls es fields rfl rfl hn hc hchecked hfields
    exact hcheck h hn hc hchecked hfields
termination_by (sizeOf v, sizeOf t)
decreasing_by
  obtain hlt | ⟨rfl, hlt⟩ := this
  · exact .left _ _ hlt
  · exact .right _ hlt

/-! ### Numbers that are too large -/

mutual

/-- Whether nothing of a shape is turned into a floating point number, if that holds of the
records in it. -/
def Shape.exact (known : String → Bool) : Shape → Bool
  | .float => false
  | .list t | .sequence t | .tupleOf t | .dict _ t | .mapping _ t => t.exact known
  | .tuple ts | .union ts => Shape.allExact known ts
  | .record c => known c
  | _ => true

def Shape.allExact (known : String → Bool) : List Shape → Bool
  | [] => true
  | t :: ts => t.exact known && Shape.allExact known ts

end

theorem Shape.allExact_iff {ts : List Shape} :
    Shape.allExact known ts = true ↔ ∀ t ∈ ts, t.exact known = true := by
  induction ts with
  | nil => simp [Shape.allExact]
  | cons t ts ih => simp [Shape.allExact, ih]

/-- Whether the known classes of a catalog hold no floating point numbers. -/
def Catalog.Exact (cat : Catalog) (known : String → Bool) : Prop :=
  ∀ c cls, known c = true → cat.find? c = some cls → ∀ f ∈ cls.fields, f.shape.exact known = true

/-- No number was too large. -/
def Tame {α : Type} (x : Except Error α) : Prop := x ≠ .error .tooLarge

theorem scalar?_tame {t : Shape} {v : Value} {r : Except Error Value}
    (ht : t.exact known = true) (h : scalar? t v = some r) : Tame r := by
  obtain ⟨x, rfl⟩ | ⟨rfl, -⟩ := scalar?_cases h
  · exact nofun
  · simp [Shape.exact] at ht

/-- The parts of a shape without floating point numbers are such shapes. -/
theorem Part.exact (hcat : cat.Exact known) {t t' : Shape} {v v' : Value}
    (h : Part cat t v t' v') (ht : t.exact known = true) : t'.exact known = true := by
  cases h with
  | alternative hmem =>
    rw [Shape.exact, Shape.allExact_iff] at ht
    exact ht _ hmem
  | tupleItem _ hmem =>
    rw [Shape.exact, Shape.allExact_iff] at ht
    exact ht _ (List.of_mem_zip hmem).1
  | field hc hf => exact hcat _ _ (by rwa [Shape.exact] at ht) hc _ hf
  | listItem | sequenceItem | tupleOfItem | dictEntry | mappingEntry => rwa [Shape.exact] at ht

/-- **A shape without floating point numbers is never refused for a number that is too large.** -/
theorem decode_tame (hcat : cat.Exact known) {t : Shape} {v : Value} (ht : t.exact known = true) :
    Tame (decode cat rounds strict p t v) := by
  have honly : Only (fun e => e ≠ .tooLarge) (decode cat rounds strict p t v) := by
    induction rounds using Nat.strongRecOn generalizing strict p t v with
    | ind rounds ih =>
      refine decode_only (E := fun e => e ≠ .tooLarge) (fun t _ => t.exact known = true)
        (fun _ _ => nofun) (fun _ _ => nofun) (fun hpart => hpart.exact hcat) ?_ ?_ ht
      · intro t v r h hr e he htoo
        exact scalar?_tame h hr (he.trans (congrArg _ htoo))
      · rintro n c cls es fields hc rfl hfind - -
        rw [Shape.exact] at hc
        refine ⟨wrongFields_only fun e _ f hf => ih n (Nat.lt_succ_self n) ?_, fun _ _ _ => nofun⟩
        exact hcat c cls hc hfind f (List.mem_of_find?_eq_some hf)
  exact fun h => honly _ h rfl

/-! ### Integers with too many digits -/

/-- What can be shown is written as data that can be shown. -/
theorem shows_toData {o : Omission} {v : Value} : v.shows = true → (toData cat o v).shows = true := by
  refine toData.induct cat o
    (fun v => v.shows = true → (toData cat o v).shows = true)
    (fun vs => Value.showsItems vs = true → Value.showsItems (itemsToData cat o vs) = true)
    (fun es => Value.showsEntries es = true → Value.showsEntries (entriesToData cat o es) = true)
    (fun cls fields => Value.showsFields fields = true →
      Value.showsEntries (fieldsToData cat o cls fields) = true)
    ?record ?member ?dict ?list ?tuple ?set ?other ?noItems ?items ?noEntries ?entries ?noFields
    ?omitted ?fields v
  case record | dict | list | tuple | set =>
    intros
    rw [toData]
    simp_all [Value.shows]
  case member =>
    intro e n numeric v h
    rw [toData]
    exact h
  case other =>
    intro v _ _ _ _ _ _ h
    rwa [toData] <;> assumption
  case noItems | noEntries => exact fun _ => rfl
  case noFields => exact fun _ _ => rfl
  case items =>
    intro v vs hv hvs h
    rw [Value.showsItems, Bool.and_eq_true] at h
    rw [itemsToData, Value.showsItems, hv h.1, hvs h.2, Bool.and_self]
  case entries =>
    intro k v es hv hes h
    rw [Value.showsEntries, Bool.and_eq_true, Bool.and_eq_true] at h
    rw [entriesToData, Value.showsEntries, h.1.1, hv h.1.2, hes h.2, Bool.and_self, Bool.and_self]
  case omitted =>
    intro cls name v fields field homits hfields h
    rw [Value.showsFields, Bool.and_eq_true] at h
    unfold fieldsToData
    dsimp only
    rw [if_pos homits]
    exact hfields h.2
  case fields =>
    intro cls name v fields field homits hfields hv h
    rw [Value.showsFields, Bool.and_eq_true] at h
    unfold fieldsToData
    dsimp only
    rw [if_neg homits, Value.showsEntries, hv h.1, hfields h.2]
    rfl

/-- **What is read from data that can be shown can be shown.** -/
theorem Reads.shows (hcat : cat.Shows) {t : Shape} {v x : Value} (h : Reads cat t v x)
    (ht : t.shows = true) (hv : v.shows = true) : x.shows = true := by
  have hitems {t : Shape} {v : Value} {vs xs : List Value} (hvs : items? v = some vs)
      (hl : vs.length = xs.length) (hv : v.shows = true)
      (ih : ∀ {a b}, (a, b) ∈ vs.zip xs → t.shows = true → a.shows = true → b.shows = true)
      (ht : t.shows = true) : Value.showsItems xs = true := by
    refine Value.showsItems_iff.2 fun x hx => ?_
    obtain ⟨a, hmem⟩ := exists_mem_zip hl hx
    exact ih hmem ht (shows_of_items hvs (List.of_mem_zip hmem).1 hv)
  have hentries {t : Shape} {es xs : List (Value × Value)} (hl : es.length = xs.length)
      (hv : (Value.dict es).shows = true) (hk : ∀ {a b}, (a, b) ∈ es.zip xs → b.1 = a.1)
      (ih : ∀ {a b}, (a, b) ∈ es.zip xs → t.shows = true → a.2.shows = true → b.2.shows = true)
      (ht : t.shows = true) : Value.showsEntries xs = true := by
    refine Value.showsEntries_iff.2 fun x hx => ?_
    obtain ⟨a, hmem⟩ := exists_mem_zip hl hx
    have ha := shows_of_entry (List.of_mem_zip hmem).1 hv
    exact ⟨hk hmem ▸ ha.1, ih hmem ht ha.2⟩
  have hbare {v : Value} {vs : List Value} (hvs : items? v = some vs) (hv : v.shows = true) :
      Value.showsItems vs = true :=
    Value.showsItems_iff.2 fun w hw => shows_of_items hvs hw hv
  induction h with
  | scalar h =>
    unfold scalar? at h
    split at h
    · cases h
      exact hv
    · cases h
      rfl
    · cases h
      rfl
    · cases h
      exact hv
    · cases h
      exact hv
    · cases h
      rfl
    · unfold scalar?.asFloat at h
      split at h <;> cases h
      rfl
    · unfold scalar?.asFloat at h
      split at h <;> cases h
      rfl
    · cases h
      rfl
    · obtain ⟨y, hy, hx⟩ := Option.map_eq_some_iff.1 h
      cases hx
      obtain ⟨m, hm, rfl⟩ := Enumeration.exists_of_find? hy
      exact List.all_eq_true.1 ht m hm
    · split at h <;> cases h
      exact hv
    · cases h
  | union hmem _ ih => exact ih (Shape.allShow_iff.1 ht _ hmem) hv
  | literal => exact hv
  | list hvs hl _ ih | sequence hvs hl _ ih | tupleOf hvs hl _ ih => exact hitems hvs hl hv ih ht
  | tuple hvs hlt hl _ ih =>
    refine Value.showsItems_iff.2 fun x hx => ?_
    obtain ⟨t, a, hmem⟩ := exists_mem_zip_of_mem hlt hl hx
    obtain ⟨ht', hmem'⟩ := List.of_mem_zip hmem
    exact ih hmem (Shape.allShow_iff.1 ht t ht') (shows_of_items hvs (List.of_mem_zip hmem').1 hv)
  | anyTuple hvs | bareList hvs | bareTuple hvs => exact hbare hvs hv
  | bareDict => exact hv
  | dict hl hk _ ih | mapping hl hk _ ih => exact hentries hl hv hk ih ht
  | record hc hl _ _ hd ih =>
    refine Value.showsFields_iff.2 fun e he => ?_
    obtain ⟨f, hmem⟩ := exists_mem_zip hl he
    obtain ⟨hshape, hdefault⟩ := hcat _ _ hc f (List.of_mem_zip hmem).1
    cases htold : RecordClass.told? _ _ f with
    | some v =>
      obtain ⟨k, hk⟩ := RecordClass.exists_mem_of_told htold
      exact ih hmem htold hshape (shows_of_entry hk hv).2
    | none => exact hdefault _ (hd hmem htold)

/-- An instance whose fields were read was read. -/
theorem Reads.of_fields {c : String} {cls : RecordClass} {es : List (Value × Value)}
    {fields : List (String × Value)} (hc : cat.find? c = some cls)
    (h : List.Forall₂ (FieldReads cat rounds strict cls es) cls.fields fields) :
    Reads cat (.record c) (.dict es) (.record c fields) := by
  obtain ⟨hl, hall⟩ := List.forall₂_iff_zip.1 h
  refine .record hc hl (fun hmem => (hall hmem).1) (fun {f e v} hmem hv => ?_)
    fun {f e} hmem hnone => ?_
  · obtain ⟨-, hread⟩ := hall hmem
    rw [hv] at hread
    obtain ⟨p', hp⟩ := hread
    exact .of_decode hp
  · obtain ⟨-, hread⟩ := hall hmem
    rw [hnone] at hread
    exact hread

/-- Data that can be shown are refused with a message, also when instances of checked classes are
looked at again. -/
theorem decode_shown (hcat : cat.Shows) {t : Shape} {v : Value}
    (hshows : t.shows = true ∧ v.shows = true) :
    Only (fun e => e ≠ .unshown) (decode cat rounds strict p t v) := by
  induction rounds using Nat.strongRecOn generalizing strict p t v with
  | ind rounds ih =>
    refine decode_only (fun t v => t.shows = true ∧ v.shows = true) (fun _ _ => nofun)
      (fun hgood hunsaid => absurd hunsaid.veiled (not_veiled.2 hgood))
      (fun hpart hgood => hpart.shows hcat hgood.1 hgood.2) ?_ ?_ hshows
    · intro t v r _ hr
      obtain ⟨x, rfl⟩ | ⟨-, n, rfl, -⟩ := scalar?_cases hr
      · exact .ok x
      · unfold scalar?.asFloat
        split
        · exact .ok _
        · exact .error nofun
    · rintro n c cls es fields ⟨-, hes⟩ rfl hc - hfields
      have hread : Reads cat (.record c) (.dict es) (.record c fields) := .of_fields hc hfields
      have hshows := Value.showsFields_iff.1 (hread.shows hcat rfl hes)
      refine ⟨wrongFields_only fun e he f hf => ih n (Nat.lt_succ_self n) ⟨?_, ?_⟩,
        fun _ _ _ => nofun⟩
      · exact (hcat c cls hc f (List.mem_of_find?_eq_some hf)).1
      · exact shows_toData (hshows e he)

/-- **What cannot be shown is an integer in the data or in the shape.** -/
theorem decode_unshown (hcat : cat.Shows) {t : Shape} {v : Value}
    (h : decode cat rounds strict p t v = .error .unshown) : Veiled t v := by
  by_contra hnot
  exact decode_shown hcat (not_veiled.1 hnot) _ h rfl

end EditorBridge.Schema
