/-
Runs with faithful copies.

A run of the editor begins with no document open and with a relay that does not listen
yet.  It goes on with whatever the editor can do, with queries and their answers once the
relay listens, and with ends of the server, after which nothing is known on either side.
Everything keeps the invariant, so the copies are right after every step.
-/
import EditorBridge.Editor.Run
import EditorBridge.Proofs.Fidelity

namespace EditorBridge

open Act (Ends Keeps Leaves)

namespace Workbench

variable {relay : Relay} {m : Mirror} {w w' : Workbench} {d : DocumentId}

/-! ### Listening -/

/-- The relay listens from now on. -/
def listening (w : Workbench) : Workbench := { w with
  onOpen := w.onOpen.add (.relay 0), onChange := w.onChange.add (.relay 0)
  onSave := w.onSave.add (.relay 0), onClose := w.onClose.add (.relay 0)
  relays := w.relays.modify 0 fun r => { r with registered := true } }

theorem registerRelay_ends (w : Workbench) :
    Ends (registerRelay 0) w fun _ w' => w' = w ∨ w' = w.listening := by
  refine .read ?_
  split
  · exact .change_bind (.change (.inr rfl))
  · exact .pure (.inl rfl)

theorem relay_listening (h : 0 < w.relays.size) : w.listening.relays.getD 0 default =
    { w.relays.getD 0 default with registered := true } := by
  simp [listening, h, Array.getElem_modify]

theorem SetUp.listening (hw : SetUp relay w) : SetUp relay w.listening := by
  have hrelay := relay_listening hw.relays
  have hevents : ∀ e ∈ w.listening.events, ∃ e' ∈ w.events, e = e'.add (.relay 0) := by
    simp [events, Workbench.listening]
  refine ⟨hw.1, hw.2, hw.3, ?_, ?_, ?_, hw.7, ?_, ?_, ?_, hw.11⟩
  · simpa [Workbench.listening] using hw.relays
  · rw [hrelay]
    exact hw.relay_eq
  · rw [hrelay]
    exact hw.tracker_eq
  · intro e he
    obtain ⟨e', he', rfl⟩ := hevents e he
    exact Event.nodup_add (hw.nodup e' he')
  · intro e he k hk hne
    obtain ⟨e', he', rfl⟩ := hevents e he
    rcases Event.mem_add.1 hk with hk | hk
    · exact hw.others e' he' k hk hne
    · exact absurd hk hne
  · intro e he
    obtain ⟨e', he', rfl⟩ := hevents e he
    rw [hrelay]
    simp [Event.mem_add]

theorem registerRelay_onward (hs : Synced relay m w) :
    Ends (registerRelay 0) w fun _ => Onward relay m w := by
  refine (registerRelay_ends w).mono fun r w' h => ?_
  rcases h with rfl | rfl
  · exact hs.onward
  · have hreg : w.listening.Registered := by
      rw [Registered, relay_listening hs.setUp.relays]
    refine ⟨[], .refl _, hs.setUp.listening, hs.orderly.congr rfl rfl, fun h => absurd hreg h, ?_⟩
    exact agrees_congr hs.agrees rfl rfl

/-! ### Forgetting -/

/-- After the end of the server neither side knows anything. -/
theorem clearTracker_synced (hs : Synced relay m w) :
    Ends (clearTracker 0) w fun _ => Synced relay fun _ => none := by
  refine (clearTracker_ends 0 w).mono fun r w' h => ?_
  obtain ⟨rfl, rfl⟩ := h
  have hw := hs.setUp
  refine ⟨?_, hs.orderly.congr rfl rfl, fun _ => ?_, fun u => ?_, fun d _ _ _ hk => ?_⟩
  · exact ⟨hw.1, hw.2, by simpa using hw.3, hw.4, hw.5, hw.6, hw.7, hw.8, hw.9, hw.10, hw.11⟩
  · rw [tracker_of_set hw.trackers rfl]
  · rw [tracker_of_set hw.trackers rfl]
    rfl
  · rw [tracker_of_set hw.trackers rfl] at hk
    cases hk

/-! ### Queries -/

/-- Somebody asked something: the invariant was taken along, and the documents stayed. -/
structure Consulted (relay : Relay) (m : Mirror) (w w' : Workbench) : Prop where
  onward : Onward relay m w w'
  documents : w'.documents = w.documents
  shelf : w'.shelf = w.shelf
  hovers : w'.hovers = w.hovers
  completions : w'.completions = w.completions
  registered : w'.Registered ↔ w.Registered

namespace Consulted

theorem refl (hs : Synced relay m w) : Consulted relay m w w := ⟨hs.onward, rfl, rfl, rfl, rfl, .rfl⟩

theorem noted (h : Consulted relay m w w') (noted : List Sighting) :
    Consulted relay m w { w' with sightings := noted } := by
  obtain ⟨news, ht, hs⟩ := h.onward
  refine ⟨⟨news, ht, hs.setUp.noted ⟨noted, rfl⟩, hs.orderly.congr rfl rfl, hs.idle, ?_⟩, h.2, h.3,
    h.4, h.5, h.6⟩
  exact agrees_congr hs.agrees rfl rfl

theorem trans {news : List Told} {w'' : Workbench} (h : Consulted relay m w w')
    (ht : Link.Tells news w.link w'.link) (h' : Consulted relay (news.foldl Mirror.hear m) w' w'') :
    Consulted relay m w w'' := by
  obtain ⟨more, ht', hs⟩ := h'.onward
  refine ⟨⟨news ++ more, ht.trans ht', ?_⟩, h'.2.trans h.2, h'.3.trans h.3, h'.4.trans h.4,
    h'.5.trans h.5, h'.6.trans h.6⟩
  rwa [List.foldl_append]

end Consulted

variable {kind : Query} {q : Question}

/-- A query about an open document announces it if need be, and takes the invariant along. -/
theorem askProxy_ends (hs : Synced relay m w) (hreg : w.Registered) (hd : w.Shelved d)
    (p : Position) (token : Option TokenId) :
    Ends (askProxy 0 kind d p token) w fun _ => Consulted relay m w := by
  have hw := hs.setUp
  suffices h : Ends (Query.tracedAsk relay.schemes kind (w.doc d) p token) (w.tracker, w.link)
      fun _ s => Onward relay m w { w with
        sightings := w.sightings, trackers := w.trackers.setIfInBounds 0 s.1, link := s.2 } by
    refine .read (.read ?_)
    rw [hw.proxy_eq]
    exact .on (h.mono fun _ s h => ⟨h, rfl, rfl, rfl, rfl, .rfl⟩)
  by_cases htakes : (w.doc d).takesPart relay.schemes = true
  · refine (Query.tracedAsk_ends htakes _ _).mono fun _ s hu => ?_
    have hx := hs.orderly.eq_of_identity hd
    have hdel := Delivers.of_used hw.open_link (hs.orderly.fits d hd).1 hu
    exact onward_of_delivers hw hs.orderly hreg hdel (agrees_used hs.agrees hx) _
  · refine (Query.tracedAsk_aside htakes _).mono fun _ s hu => ?_
    rw [hu.2]
    exact onward_of_delivers hw hs.orderly hreg (.nothing _) hs.agrees _

/-- The providers that are asked are from outside, or the query proxy. -/
def Known (rs : List Registration) : Prop := ∀ r ∈ rs, ∀ n, r.provider = .proxy n → n = 0

/-- A provider from outside only notes that it was asked. -/
theorem askInformant_ends (n : Nat) (q : Question) (w : Workbench) :
    Ends (askInformant n q) w fun _ => Noted w := by
  refine .read (.read (.read (.change_bind ?_)))
  dsimp only
  split
  · exact .throw ⟨_, rfl⟩
  · exact .pure ⟨_, rfl⟩

/-- Asking a provider, in the course of a query. -/
theorem ask_ends {r : Registration} (h : Consulted relay m w w') (hreg : w.Registered)
    (hd : w.Shelved q.document) (hr : ∀ n, r.provider = .proxy n → n = 0) :
    Ends (ask r kind q) w' fun _ => Consulted relay m w := by
  unfold ask
  cases hp : r.provider with
  | external n =>
    refine (askInformant_ends n q w').mono fun _ w'' h' => ?_
    obtain ⟨noted, rfl⟩ := h'
    exact h.noted noted
  | proxy n =>
    cases hr n hp
    obtain ⟨news, ht, hs⟩ := h.onward
    have hdoc : w'.Shelved q.document := by
      unfold Shelved doc
      rw [h.shelf, h.documents]
      exact hd
    refine (askProxy_ends hs (h.registered.2 hreg) hdoc _ _).mono fun _ w'' h' => ?_
    exact h.trans ht h'

/-- The rest of a query keeps what asking each provider keeps. -/
theorem moreHovers_ends {rs : List Registration} {I : Workbench → Prop}
    (h : ∀ r ∈ rs, ∀ w, I w → Ends (ask r .hover q) w fun _ => I) (hw : I w) (soFar : Hover) :
    Ends (moreHovers q soFar rs) w fun _ => I := by
  induction rs generalizing w soFar with
  | nil => exact .pure hw
  | cons r rs ih =>
    obtain ⟨hr, h⟩ := List.forall_mem_cons.1 h
    refine .calling (hr w hw) fun x w' hw' => .bind (.ofExcept ?_)
    cases x with
    | error f => exact hw'
    | ok reply => exact ih h hw' _

theorem moreCompletions_ends {rs : List Registration} {I : Workbench → Prop}
    (h : ∀ r ∈ rs, ∀ w, I w → Ends (ask r .completion q) w fun _ => I) (hw : I w)
    (soFar : Option CompletionList) : Ends (moreCompletions q soFar rs) w fun _ => I := by
  induction rs generalizing w soFar with
  | nil => exact .pure hw
  | cons r rs ih =>
    obtain ⟨hr, h⟩ := List.forall_mem_cons.1 h
    refine .calling (hr w hw) fun x w' hw' => .bind (.ofExcept ?_)
    cases x with
    | error f => exact hw'
    | ok reply => exact ih h hw' _

instance reads_serving (kind : Query) (d : DocumentId) :
    Act.Reads (serving kind d) fun w => Registration.serving (registrations kind w) (w.doc d) :=
  ⟨fun _ => rfl⟩

theorem known_serving (hw : SetUp relay w) (kind : Query) (x : Document) :
    Known (Registration.serving (registrations kind w) x) := by
  intro r hr
  refine hw.providers r (List.mem_append.2 ?_)
  have hmem := (List.mem_filter.1 hr).1
  cases kind with
  | hover => exact .inl hmem
  | completion => exact .inr hmem

theorem askHover_ends (hs : Synced relay m w) (hreg : w.Registered) (hd : w.Shelved q.document) :
    Ends (askHover q) w fun _ => Consulted relay m w :=
  .read (moreHovers_ends (fun r hr _ h => ask_ends h hreg hd (known_serving hs.setUp _ _ r hr))
    (.refl hs) _)

theorem askCompletion_ends (hs : Synced relay m w) (hreg : w.Registered)
    (hd : w.Shelved q.document) (trigger : Option String) :
    Ends (askCompletion q trigger) w fun _ => Consulted relay m w := by
  refine .read (moreCompletions_ends (fun r hr _ h => ask_ends h hreg hd ?_) (.refl hs) _)
  exact known_serving hs.setUp _ _ r (List.mem_filter.1 hr).1

/-- What happens to the link without a message is of no concern. -/
theorem Synced.withLink (hs : Synced relay m w) {l : Link} (hl : Open l) :
    Synced relay m { w with link := l } := by
  have hw := hs.setUp
  exact ⟨⟨hl.1, hl.2, hw.3, hw.4, hw.5, hw.6, hw.7, hw.8, hw.9, hw.10, hw.11⟩,
    hs.orderly.congr rfl rfl, hs.idle, agrees_congr hs.agrees rfl rfl⟩

theorem onward_of_quiet (hs : Synced relay m w) {l : Link} (hq : Link.Quiet w.link l) :
    Onward relay m w { w with link := l } :=
  ⟨[], hq, hs.withLink ⟨hq.recording.trans hs.setUp.recording, hq.refusals.trans hs.setUp.taken⟩⟩

/-- Queries are about open documents, and begin once the relay listens. -/
def Asks (w : Workbench) (d : DocumentId) : Prop := w.Registered ∧ w.Shelved d

/-- What may go on of a query. -/
def Resumable (w : Workbench) : Resumption → Prop
  | .traced _ _ | .answered _ _ | .converted _ => True
  | .hovers _ rest q | .completions _ rest q => Asks w q.document ∧ Known rest
  | _ => False

/-- What a query goes on with. -/
theorem resume_ends {k : Resumption} (hs : Synced relay m w) (hk : Resumable w k)
    (r : Except Failure Reply) : Ends (resume k r) w fun _ => Onward relay m w := by
  cases k with
  | traced l call =>
    have hkeeps : Keeps Eq (Step.afterCall l call r : Act Workbench Step) := inferInstance
    exact (hkeeps.ends w).mono fun _ _ h => h ▸ hs.onward
  | answered method token =>
    have hkeeps : Keeps Link.Quiet (Query.answered method token r) := inferInstance
    show Ends (onLink (Query.answered method token r)) w _
    unfold onLink
    exact .on ((hkeeps.ends w.link).mono fun _ _ => onward_of_quiet hs)
  | converted kind =>
    have hkeeps : Keeps Eq (Query.converted kind r : Act Workbench Step) := inferInstance
    exact (hkeeps.ends w).mono fun _ _ h => h ▸ hs.onward
  | hovers soFar rest q =>
    obtain ⟨⟨hreg, hd⟩, hrest⟩ := hk
    refine .bind (.ofExcept ?_)
    cases r with
    | error f => exact hs.onward
    | ok reply =>
      refine (moreHovers_ends (I := Consulted relay m w) (fun r hr _ h => ?_) (.refl hs) _).mono
        fun _ _ h => h.onward
      exact ask_ends h hreg hd (hrest r hr)
  | completions soFar rest q =>
    obtain ⟨⟨hreg, hd⟩, hrest⟩ := hk
    refine .bind (.ofExcept ?_)
    cases r with
    | error f => exact hs.onward
    | ok reply =>
      refine (moreCompletions_ends (I := Consulted relay m w) (fun r hr _ h => ?_) (.refl hs) _).mono
        fun _ _ h => h.onward
      exact ask_ends h hreg hd (hrest r hr)
  | _ => cases hk

/-! ### Runs -/

/-- What can be done. -/
inductive Operation where
  | opening (o : Opening)
  | edit (n : Name) (edits : List (Range × List Char))
  | insert (n : Name) (p : Position) (text : List Char)
  | replaceAll (n : Name) (text : List Char)
  | save (n : Name)
  | close (n : Name)
  /-- The relay begins to listen. -/
  | register
  | askHover (q : Question)
  | askCompletion (q : Question) (trigger : Option String)
  /-- The query proxy is asked directly. -/
  | askProxy (kind : Query) (d : DocumentId) (p : Position) (token : Option TokenId)
  /-- A query that was begun goes on. -/
  | resume (k : Resumption) (r : Except Failure Reply)

namespace Operation

/-- What is done. -/
def act : Operation → Act Workbench Unit
  | opening o => do
    let _ ← openDocument o
  | edit n edits => do
    let _ ← Workbench.edit n edits
  | insert n p text => do
    let _ ← Workbench.insert n p text
  | replaceAll n text => do
    let _ ← Workbench.replaceAll n text
  | save n => do
    let _ ← Workbench.save n
  | close n => do
    let _ ← Workbench.close n
  | register => registerRelay 0
  | askHover q => do
    let _ ← Workbench.askHover q
  | askCompletion q trigger => do
    let _ ← Workbench.askCompletion q trigger
  | askProxy kind d p token => do
    let _ ← Workbench.askProxy 0 kind d p token
  | resume k r => do
    let _ ← Workbench.resume k r

/-- What is done is done to open documents, and stays within the limits of the protocol. -/
def Allowed (w : Workbench) : Operation → Prop
  | opening o => OpeningFits w o
  | edit n edits => ∀ d, w.Names d n → EditFits w d edits
  | insert n p text => ∀ d, w.Names d n → EditFits w d [(.between p p, text)]
  | replaceAll n text => ∀ d, w.Names d n → ReplacementFits w d text
  | save n | close n => ∀ d, w.Names d n → w.Shelved d
  | register => True
  | askHover q | askCompletion q _ => Asks w q.document
  | askProxy _ d _ _ => Asks w d
  | resume k _ => Resumable w k

/-- A run of the editor, and what the server was told in it. -/
inductive Run (relay : Relay) : Workbench → List Told → Prop
  /-- No document is open, and the relay does not listen yet. -/
  | start {w : Workbench} (hw : SetUp relay w) (hshelf : w.shelf = []) (hreg : ¬w.Registered)
    (hk : w.tracker.known = []) : Run relay w []
  /-- A request to end the program ends the run. -/
  | does {w : Workbench} {told : List Told} (h : Run relay w told) (x : Operation)
    (hx : x.Allowed w) (j : Journal)
    (hend : ∀ f, (x.act ⟨j, w⟩).1 = .error f → f.isExit = false) :
    Run relay (x.act ⟨j, w⟩).2.state (told ++ w.link.news (x.act ⟨j, w⟩).2.state.link)
  /-- The server stops. -/
  | stopped {w : Workbench} {told : List Told} (h : Run relay w told) (j : Journal) :
    Run relay (clearTracker 0 ⟨j, w⟩).2.state (told ++ [.forgotten])
  /-- Answers come, tokens are cancelled, time passes. -/
  | meanwhile {w : Workbench} {told : List Told} (h : Run relay w told) {l : Link} (hl : Open l)
    (hheard : l.heard .recorder = w.link.heard .recorder) : Run relay { w with link := l } told

variable {x : Operation} {told : List Told}

/-- **Whatever is done** takes the invariant along. -/
theorem act_onward (hs : Synced relay m w) (hx : x.Allowed w) : Ends x.act w fun r w' =>
    (∀ f, r = .error f → f.isExit = false) → Onward relay m w w' := by
  have hignore {α : Type} {a : Act Workbench α} (h : Ends a w fun _ => Consulted relay m w) :
      Ends (do let _ ← a) w fun r w' => (∀ f, r = .error f → f.isExit = false) →
        Onward relay m w w' :=
    (Ends.ignore h).mono fun _ _ h _ => h.onward
  have hcomes {α : Type} {a : Act Workbench α} (h : Ends a w fun r w' =>
      (∀ f, r = .error f → f.isExit = false) → Onward relay m w w') :
      Ends (do let _ ← a) w fun r w' => (∀ f, r = .error f → f.isExit = false) →
        Onward relay m w w' := by
    refine .bind (h.mono fun r w' h => ?_)
    cases r with
    | ok _ => exact .pure fun _ => h nofun
    | error f => exact fun hf => h fun f' hf' => hf f' (by cases hf'; rfl)
  cases x with
  | opening o => exact hcomes (openDocument_onward hs hx)
  | edit n edits => exact hcomes (edit_onward hs hx)
  | insert n p text => exact hcomes (edit_onward hs hx)
  | replaceAll n text => exact hcomes (replaceAll_onward hs hx)
  | save n => exact hcomes (save_onward hs hx)
  | close n => exact hcomes (close_onward hs hx)
  | register => exact (registerRelay_onward hs).mono fun _ _ h _ => h
  | askHover q => exact hignore (askHover_ends hs hx.1 hx.2)
  | askCompletion q trigger => exact hignore (askCompletion_ends hs hx.1 hx.2 trigger)
  | askProxy kind d p token => exact hignore (askProxy_ends hs hx.1 hx.2 p token)
  | resume k r => exact (Ends.ignore (resume_ends hs hx r)).mono fun _ _ h _ => h

theorem Run.synced (h : Run relay w told) : Synced relay (Mirror.after told) w := by
  induction h with
  | @start w hw hshelf hreg hk =>
    have hnone (d : DocumentId) : ¬w.Shelved d := by
      rw [Shelved, hshelf]
      rintro ⟨⟩
    refine ⟨hw, ⟨?_, fun d _ hd => absurd hd (hnone d), fun d hd => absurd hd (hnone d)⟩,
      fun _ => hk, ⟨fun u => ?_, fun d hd => absurd hd (hnone d)⟩⟩
    · rw [hshelf]
      rintro _ _ ⟨⟩
    · rw [Tracker.knows, hk]
      rfl
  | @does w told h x hx j hend ih =>
    obtain ⟨news, ht, hs⟩ := act_onward ih hx j hend
    rw [ht.news_eq ih.setUp.recording, Mirror.after_append]
    exact hs
  | stopped h j ih =>
    rw [Mirror.after_append]
    exact clearTracker_synced ih j
  | meanwhile h hl hheard ih => exact ih.withLink hl

/-- **The copies are faithful**: at any time, an open document that takes part and that the tracker
knows has its text and its version as the server's copy, and the server has copies of exactly
the documents that the tracker knows. -/
theorem copies_faithful (h : Run relay w told) :
    (∀ d, w.Shelved d → (w.doc d).takesPart relay.schemes = true →
      w.tracker.knows (w.doc d).identity = true →
        Mirror.after told (w.doc d).identity = some ⟨(w.doc d).text, (w.doc d).version⟩) ∧
      ∀ uri, (Mirror.after told uri).isSome = w.tracker.knows uri := by
  have hs := h.synced.agrees
  exact ⟨fun d hd => hs.same d hd nofun, hs.held⟩

/-- A bridge with one relay, for files, and a recorder that takes everything. -/
def bare : Workbench where
  link := { recording := true }
  trackers := #[{}]
  relays := #[{ relay := { schemes := ["file"], formatting := .null }, tracker := 0 }]
  proxies := #[{ schemes := ["file"], tracker := 0 }]

theorem setUp_bare : SetUp { schemes := ["file"], formatting := .null } bare := by
  refine ⟨rfl, rfl, by decide, by decide, rfl, rfl, rfl, ?_, ?_, ?_, ?_⟩
  all_goals simp [events, bare]

theorem of_isOk {r : Except Failure Unit} (h : r.isOk = true) (f : Failure) (hf : r = .error f) :
    f.isExit = false := by
  rw [hf] at h
  cases h

/-- A file, opened once the relay began to listen. -/
def fileOpened : Workbench :=
  (act (.opening { name := .uri { scheme := "file", path := "/x" }, text := ['b'] })
    ⟨{}, (register.act ⟨{}, bare⟩).2.state⟩).2.state

theorem run_fileOpened : ∃ told, Run { schemes := ["file"], formatting := .null } fileOpened told := by
  have h₁ := (Run.start setUp_bare rfl (by unfold Registered; decide) rfl).does .register trivial {}
    (of_isOk (by decide))
  refine ⟨_, h₁.does (.opening _) ?_ {} (of_isOk (by decide +kernel))⟩
  rintro u - -
  refine ⟨⟨⟨?_, ?_⟩, by decide⟩, fun d hd => by cases hd⟩
  · show (-2147483648 : Int) ≤ 1
    decide
  · show (1 : Int) ≤ 2147483647
    decide

/-- The server has a copy of it with both letters after one was put in. -/
theorem copies_faithful_insert : ∃ w told, Run { schemes := ["file"], formatting := .null } w told ∧
    Mirror.after told (w.doc 0).identity = some ⟨['a', 'b'], 2⟩ := by
  obtain ⟨told, h⟩ := run_fileOpened
  have h' := h.does (.insert (.document 0) ⟨0, 0⟩ ['a']) ?_ {} (of_isOk (by decide +kernel))
  · refine ⟨_, _, h', Eq.trans ((copies_faithful h').1 0 ?_ ?_ ?_) (congrArg some ?_)⟩
    · unfold Shelved
      decide +kernel
    · decide +kernel
    · decide +kernel
    · decide +kernel
  · rintro d rfl
    refine ⟨?_, ⟨by decide +kernel, ⟨?_, ?_⟩, ?_⟩, by decide +kernel⟩
    · unfold Shelved
      decide +kernel
    · unfold Position.InLimits
      decide +kernel
    · unfold Position.InLimits
      decide +kernel
    · unfold EditsFit
      decide +kernel

end Operation

end Workbench

end EditorBridge
