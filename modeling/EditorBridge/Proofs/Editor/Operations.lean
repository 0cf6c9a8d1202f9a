/-
What the operations of the editor do.

An operation finds its document, changes it, and lets everybody hear.  The changes are
told here once for each operation, with the relay as the only listener that matters: what
the server is told in the end is what the relay was going to tell if it listens, and
nothing if it does not.
-/
import EditorBridge.Proofs.Edits
import EditorBridge.Proofs.Editor.Firing

namespace EditorBridge

open Act (Ends Keeps Reads)

namespace Workbench

variable {w w' : Workbench} {n : Name} {d : DocumentId} {relay : Relay}

/-! ### Documents by their names -/

/-- A document. -/
def doc (w : Workbench) (d : DocumentId) : Document := w.documents.getD d default

/-- A name stands for a document. -/
def Names (w : Workbench) (d : DocumentId) : Name → Prop
  | .text s => ∃ u, readUri s = .ok u ∧ w.shelf.lookup u = some d
  | .uri u => w.shelf.lookup u = some d
  | .document d' => d' = d

/-- A name stands for one document. -/
theorem Names.unique {d d' : DocumentId} (h : w.Names d n) (h' : w.Names d' n) : d = d' := by
  cases n with
  | text s =>
    obtain ⟨u, hu, h⟩ := h
    obtain ⟨u', hu', h'⟩ := h'
    cases hu.symm.trans hu'
    exact Option.some.inj (h.symm.trans h')
  | uri u => exact Option.some.inj (h.symm.trans h')
  | document _ => exact h.symm.trans h'

/-- A document is open. -/
def Shelved (w : Workbench) (d : DocumentId) : Prop := w.shelf.lookup (w.doc d).uri = some d

instance reads_lookup (u : Uri) : Reads (lookup u) fun w => w.shelf.lookup u := ⟨fun _ => rfl⟩

/-- A name stands for one document at most, and resolving it finds that one. -/
theorem resolve_ends (n : Name) (w : Workbench) : Ends (resolve n) w fun r w' =>
    w' = w ∧ match r with
      | .ok d => w.Names d n
      | .error _ => ∀ d, ¬w.Names d n := by
  have hfind : Ends (find? n) w fun r w' => w' = w ∧ match r with
      | .ok o => ∀ d, w.Names d n ↔ o = some d
      | .error _ => ∀ d, ¬w.Names d n := by
    cases n with
    | text s =>
      refine .bind (.ofExcept ?_)
      cases hu : readUri s with
      | error f =>
        refine ⟨rfl, ?_⟩
        rintro d ⟨u, hu', -⟩
        rw [hu] at hu'
        cases hu'
      | ok u =>
        refine (Ends.reads (lookup u) w).mono fun r w' h => ⟨h.2, ?_⟩
        rw [h.1]
        intro d
        refine ⟨?_, fun h => ⟨u, hu, h⟩⟩
        rintro ⟨u', hu', h⟩
        cases hu.symm.trans hu'
        exact h
    | uri u =>
      refine (Ends.reads (lookup u) w).mono fun r w' h => ⟨h.2, ?_⟩
      rw [h.1]
      exact fun d => .rfl
    | document d' => exact .pure ⟨rfl, fun d => by simp [Names]⟩
  refine .bind (hfind.mono fun r w' h => ?_)
  obtain ⟨rfl, hn⟩ := h
  cases r with
  | error f => exact ⟨rfl, hn⟩
  | ok o =>
    cases o with
    | none => exact .throw ⟨rfl, fun d hd => by cases (hn d).1 hd⟩
    | some d => exact .pure ⟨rfl, (hn d).2 rfl⟩

/-! ### Changes of documents -/

/-- A document is replaced. -/
def withDoc (w : Workbench) (d : DocumentId) (doc : Document) : Workbench :=
  { w with documents := w.documents.setIfInBounds d doc }

@[simp] theorem size_withDoc (x : Document) :
    (w.withDoc d x).documents.size = w.documents.size := by
  simp [withDoc]

theorem doc_withDoc (h : d < w.documents.size) (x : Document) : (w.withDoc d x).doc d = x := by
  simp [doc, withDoc, h]

theorem doc_withDoc_of_ne {d' : DocumentId} (h : d ≠ d') (x : Document) :
    (w.withDoc d x).doc d' = w.doc d' := by
  simp [doc, withDoc, Array.getElem?_setIfInBounds_ne h]

theorem withDoc_withDoc (x y : Document) : (w.withDoc d x).withDoc d y = w.withDoc d y := by
  simp [withDoc]

theorem withDoc_self : w.withDoc d (w.doc d) = w := by
  have hself : w.documents.setIfInBounds d (w.documents.getD d default) = w.documents := by
    refine Array.ext_getElem? fun i => ?_
    by_cases h : d = i
    · subst h
      by_cases hd : d < w.documents.size <;> simp [hd]
    · rw [Array.getElem?_setIfInBounds_ne h]
  rw [withDoc, doc, hself]

theorem onDocument_ends {α : Type} {a : Act Document α} {Q : Except Failure α → Document → Prop}
    (h : Ends a (w.doc d) Q) :
    Ends (onDocument d a) w fun r w' => ∃ x, Q r x ∧ w' = w.withDoc d x :=
  .on (h.mono fun _ x hx => ⟨x, hx, rfl⟩)

/-- Making an edit within the limits goes well. -/
theorem applyEdit_ends {e : Range × List Char} (hstart : e.1.start.InLimits)
    (hstop : e.1.stop.InLimits)
    (hlen : (Text.length16 (w.doc d).text : Int) ≤ limit) :
    Ends (applyEdit d e) w fun r w' =>
      (∃ c, r = .ok c ∧ c.InLimits ∧ Delta.part c.range c.text = asDelta e) ∧
      w' = w.withDoc d { w.doc d with text := (asDelta e).apply (w.doc d).text } := by
  obtain ⟨c, hc, hlim, hrange, htext⟩ := Document.changeOf?_eq hstart hstop hlen e.2
  refine .read (.bind (.ofExcept ?_))
  rw [show (w.documents.getD d default).changeOf? e.1 e.2 = some c from hc]
  refine .bind ((onDocument_ends (Q := fun r x => r = .ok () ∧
    x = { w.doc d with text := (asDelta e).apply (w.doc d).text }) ?_).mono fun r w' h => ?_)
  · refine .traced (.read (.bind (.ofExcept ?_)))
    rw [Option.bind_none, Document.splice?_eq hstart.1.1]
    exact .change ⟨rfl, rfl⟩
  · obtain ⟨x, ⟨rfl, rfl⟩, rfl⟩ := h
    exact .pure ⟨⟨c, rfl, hlim, by rw [hrange, htext, asDelta]⟩, rfl⟩

/-- **Several edits**, each on the text that the ones before it left. -/
theorem applyEdits_ends {edits : List (Range × List Char)} (hd : d < w.documents.size)
    (hfit : EditsFit (w.doc d).text edits) :
    Ends (edits.mapM (applyEdit d)) w fun r w' =>
      (∃ cs, r = .ok cs ∧ (∀ c ∈ cs, c.InLimits) ∧
        (cs.map fun c => Delta.part c.range c.text) = edits.map asDelta) ∧
      w' = w.withDoc d { w.doc d with
        text := (edits.map asDelta).foldl Delta.apply (w.doc d).text } := by
  induction edits generalizing w with
  | nil =>
    rw [List.mapM_nil]
    exact .pure ⟨⟨[], rfl, by simp, rfl⟩, withDoc_self.symm⟩
  | cons e es ih =>
    obtain ⟨hlen, ⟨hstart, hstop⟩, hes⟩ := hfit
    rw [List.mapM_cons]
    refine .bind ((applyEdit_ends hstart hstop hlen).mono fun r w₁ h => ?_)
    obtain ⟨⟨c, rfl, hc, hce⟩, rfl⟩ := h
    refine .bind ((ih (by simpa using hd) ?_).mono fun r w₂ h => ?_)
    · rw [doc_withDoc hd]
      exact hes
    · obtain ⟨⟨cs, rfl, hcs, hmap⟩, rfl⟩ := h
      refine .pure ⟨⟨c :: cs, rfl, by simpa [hc] using hcs, by simp [hce, hmap]⟩, ?_⟩
      rw [withDoc_withDoc, doc_withDoc hd]
      rfl

/-! ### What changes documents only -/

/-- Nothing but documents and the shelf is changed. -/
def Rewritten (w w' : Workbench) : Prop :=
  ∃ documents shelf, w' = { w with documents, shelf }

instance : IsPreorder Workbench Rewritten where
  refl w := ⟨w.documents, w.shelf, rfl⟩
  trans _ _ _ h h' := by
    obtain ⟨_, _, rfl⟩ := h
    obtain ⟨ds, sh, rfl⟩ := h'
    exact ⟨ds, sh, rfl⟩

instance rewrites_onDocument {α : Type} (d : DocumentId) (a : Act Document α) :
    Keeps Rewritten (onDocument d a) :=
  ⟨fun _ => ⟨_, _, rfl⟩⟩

instance rewrites_shelf (f : List (Uri × DocumentId) → List (Uri × DocumentId)) :
    Keeps Rewritten (Act.change fun w : Workbench => { w with shelf := f w.shelf }) :=
  Keeps.change fun _ => ⟨_, _, rfl⟩

instance rewrites_resolve (n : Name) : Keeps Rewritten (resolve n) := by
  have hfind : Keeps Rewritten (find? n) := by
    unfold find?
    cases n <;> infer_instance
  unfold resolve
  refine .andThen fun o => ?_
  cases o <;> infer_instance

instance rewrites_applyEdit (d : DocumentId) (e : Range × List Char) :
    Keeps Rewritten (applyEdit d e) := by
  unfold applyEdit
  infer_instance

/-! ### Listening -/

/-- The events of documents. -/
def events (w : Workbench) : List (Event Listener) := [w.onOpen, w.onChange, w.onSave, w.onClose]

/-- The bridge is set up for a recorder that takes everything: there is one relay with its tracker
and its query proxy, and the other listeners and providers are from outside. -/
structure SetUp (relay : Relay) (w : Workbench) : Prop where
  recording : w.link.recording = true
  taken : w.link.recorder.sendFails = []
  trackers : 0 < w.trackers.size
  relays : 0 < w.relays.size
  relay_eq : (w.relays.getD 0 default).relay = relay
  tracker_eq : (w.relays.getD 0 default).tracker = 0
  proxy_eq : w.proxies.getD 0 default = { schemes := relay.schemes, tracker := 0 }
  nodup : ∀ e ∈ w.events, e.listeners.Nodup
  others : ∀ e ∈ w.events, ∀ k ∈ e.listeners, k ≠ .relay 0 → ∃ n, k = .external n
  listens : ∀ e ∈ w.events, .relay 0 ∈ e.listeners ↔ (w.relays.getD 0 default).registered = true
  providers : ∀ r ∈ w.hovers ++ w.completions, ∀ n, r.provider = .proxy n → n = 0

/-- What the server is known to know. -/
def tracker (w : Workbench) : Tracker := w.trackers.getD 0 default

theorem tracker_of_set {t : Tracker} (h : 0 < w.trackers.size)
    (hw' : w'.trackers = w.trackers.setIfInBounds 0 t) : w'.tracker = t := by
  rw [tracker, hw']
  simp [h]

/-- The relay listens. -/
def Registered (w : Workbench) : Prop := (w.relays.getD 0 default).registered = true

/-- Somebody noted something. -/
def Noted (w w' : Workbench) : Prop := ∃ noted, w' = { w with sightings := noted }

/-- The relay did something, and somebody noted something. -/
def Served (a : Act (Tracker × Link) Unit) (w w' : Workbench) : Prop :=
  ∃ noted s, a.Leaves (w.tracker, w.link) s ∧ w' = { w with
    sightings := noted, trackers := w.trackers.setIfInBounds 0 s.1, link := s.2 }

/-- Everybody heard of something that the relay had to do something about. -/
def Heard (a : Act (Tracker × Link) Unit) (w w' : Workbench) : Prop :=
  w.Registered ∧ Served a w w' ∨ ¬w.Registered ∧ Noted w w'

theorem Noted.trans {w'' : Workbench} (h : Noted w w') (h' : Noted w' w'') : Noted w w'' := by
  obtain ⟨_, rfl⟩ := h
  obtain ⟨noted, rfl⟩ := h'
  exact ⟨noted, rfl⟩

theorem Noted.served {w'' : Workbench} {a : Act (Tracker × Link) Unit} (h : Noted w w')
    (h' : Served a w' w'') : Served a w w'' := by
  obtain ⟨_, rfl⟩ := h
  exact h'

theorem Served.noted {w'' : Workbench} {a : Act (Tracker × Link) Unit} (h : Served a w w')
    (h' : Noted w' w'') : Served a w w'' := by
  obtain ⟨_, s, hs, rfl⟩ := h
  obtain ⟨noted, rfl⟩ := h'
  exact ⟨noted, s, hs, rfl⟩

/-- An event has taken place: the relay did what it does if it listens. -/
def Happened (a : Act (Tracker × Link) Unit) (w : Workbench) (r : Except Failure Unit)
    (w' : Workbench) : Prop :=
  match r with
  | .ok _ => Heard a w w'
  | .error f => f.isExit = true

/-- **An event** reaches the relay exactly if it listens. -/
theorem fire_setUp_ends {e : Event Listener} {hear : Listener → Act Workbench Unit}
    {a : Act (Tracker × Link) Unit} (hw : SetUp relay w) (he : e ∈ w.events)
    (hext : ∀ n w, Ends (hear (.external n)) w fun _ => Noted w)
    (hrelay : ∀ w', Noted w w' → Ends (hear (.relay 0)) w' fun _ => Served a w') :
    Ends (fire e hear) w (Happened a w) := by
  refine (fire_ends (.relay 0) (I := Noted w) (J := Served a w) (hw.nodup e he)
    (fun k hk hne w' hw' => ?_) (fun k hk hne w' hw' => ?_) (fun w' hw' => ?_)
    ⟨w.sightings, rfl⟩).mono fun r w' h => ?_
  rotate_right
  · cases r with
    | error f => exact h
    | ok _ =>
      have hmem := hw.listens e he
      by_cases hreg : w.Registered
      · rw [if_pos (hmem.2 hreg)] at h
        exact .inl ⟨hreg, h⟩
      · rw [if_neg fun h => hreg (hmem.1 h)] at h
        exact .inr ⟨hreg, h⟩
  · obtain ⟨n, rfl⟩ := hw.others e he k hk hne
    exact (hext n w').mono fun _ _ => hw'.trans
  · obtain ⟨n, rfl⟩ := hw.others e he k hk hne
    exact (hext n w').mono fun _ _ => hw'.noted
  · exact (hrelay w' hw').mono fun _ _ => hw'.served

theorem SetUp.noted (hw : SetUp relay w) (h : Noted w w') : SetUp relay w' := by
  obtain ⟨noted, rfl⟩ := h
  exact ⟨hw.1, hw.2, hw.3, hw.4, hw.5, hw.6, hw.7, hw.8, hw.9, hw.10, hw.11⟩

/-- What the relay does when it hears of a document. -/
private theorem hear_relay_ends {name : String} {argument : Document → Value}
    {a : Document → Relay → Act (Tracker × Link) Unit} (hw : SetUp relay w) (h : Noted w w') :
    Ends (do
      let doc ← document d
      Workbench.relay 0 name (argument doc) (a doc)) w' fun _ =>
      Served (a (w.doc d) relay) w' := by
  have hdoc : w'.documents.getD d default = w.doc d := by
    obtain ⟨noted, rfl⟩ := h
    rfl
  have hw' := hw.noted h
  refine .read ?_
  rw [hdoc]
  refine (relay_ends (H := (a (w.doc d) relay).Leaves (w'.tracker, w'.link)) ?_).mono fun r w'' h => ?_
  · rw [hw'.relay_eq, hw'.tracker_eq]
    exact .leaves _ _
  · obtain ⟨s, hs, rfl⟩ := h
    rw [hw'.tracker_eq]
    exact ⟨w'.sightings, s, hs, rfl⟩

variable (d) in
theorem fire_opened_ends (hw : SetUp relay w) :
    Ends (fire w.onOpen (hearOpened d)) w (Happened (relay.opened (w.doc d)) w) :=
  fire_setUp_ends hw (by simp [events]) (fun n w => observe_ends n _ d w) fun _ h =>
    hear_relay_ends (a := fun doc r => r.opened doc) hw h

variable (d) in
theorem fire_changed_ends (hw : SetUp relay w) (cs : List ContentChange) :
    Ends (fire w.onChange (hearChanged d cs)) w (Happened (relay.changed ⟨w.doc d, cs⟩) w) :=
  fire_setUp_ends hw (by simp [events]) (fun n w => observe_ends n _ d w) fun _ h =>
    hear_relay_ends (a := fun doc r => r.changed ⟨doc, cs⟩) hw h

variable (d) in
theorem fire_saved_ends (hw : SetUp relay w) :
    Ends (fire w.onSave (hearSaved d)) w (Happened (relay.saved (w.doc d)) w) :=
  fire_setUp_ends hw (by simp [events]) (fun n w => observe_ends n _ d w) fun _ h =>
    hear_relay_ends (a := fun doc r => r.saved doc) hw h

variable (d) in
theorem fire_closed_ends (hw : SetUp relay w) :
    Ends (fire w.onClose (hearClosed d)) w (Happened (relay.closed (w.doc d)) w) :=
  fire_setUp_ends hw (by simp [events]) (fun n w => observe_ends n _ d w) fun _ h =>
    hear_relay_ends (a := fun doc r => r.closed doc) hw h

/-! ### The operations -/

theorem SetUp.withDoc (hw : SetUp relay w) (d : DocumentId) (x : Document) :
    SetUp relay (w.withDoc d x) :=
  ⟨hw.1, hw.2, hw.3, hw.4, hw.5, hw.6, hw.7, hw.8, hw.9, hw.10, hw.11⟩

/-- A document that is opened. -/
def Opening.document (o : Opening) (u : Uri) : Document :=
  .opened u o.text (o.languageId.getD "plaintext") ((o.version.bind Value.asInt?).getD 1)

/-- The uri that a document is opened with. -/
def Opening.Means (o : Opening) (w : Workbench) (u : Uri) : Prop :=
  match o.name with
  | .text s => readUri s = .ok u
  | .uri u' => u' = u
  | .document d => (w.doc d).uri = u

/-- A name that is opened stands for one resource. -/
theorem Opening.Means.unique {o : Opening} {u u' : Uri} (h : o.Means w u) (h' : o.Means w u') :
    u = u' := by
  unfold Opening.Means at h h'
  cases hn : o.name with
  | text s =>
    rw [hn] at h h'
    exact Except.ok.inj (h.symm.trans h')
  | uri v =>
    rw [hn] at h h'
    exact h.symm.trans h'
  | document d =>
    rw [hn] at h h'
    exact h.symm.trans h'

/-- There is one more document, and it is open. -/
def withNew (w : Workbench) (u : Uri) (x : Document) : Workbench :=
  { w with documents := w.documents.push x, shelf := w.shelf ++ [(u, w.documents.size)] }

/-- A document is not open any more. -/
def withoutDoc (w : Workbench) (d : DocumentId) : Workbench :=
  { w with shelf := w.shelf.filter (·.1 ≠ (w.doc d).uri) }.withDoc d
    { w.doc d with closed := true }

theorem SetUp.withNew (hw : SetUp relay w) (u : Uri) (x : Document) :
    SetUp relay (w.withNew u x) :=
  ⟨hw.1, hw.2, hw.3, hw.4, hw.5, hw.6, hw.7, hw.8, hw.9, hw.10, hw.11⟩

theorem SetUp.withoutDoc (hw : SetUp relay w) (d : DocumentId) : SetUp relay (w.withoutDoc d) :=
  ⟨hw.1, hw.2, hw.3, hw.4, hw.5, hw.6, hw.7, hw.8, hw.9, hw.10, hw.11⟩

theorem doc_withNew_size (u : Uri) (x : Document) : (w.withNew u x).doc w.documents.size = x := by
  simp [doc, withNew]

/-- What comes of an operation that does not end the program: nothing, for some reason, or
something. -/
def Comes {α : Type} (N : Prop) (P : Workbench → Prop) (w : Workbench) (r : Except Failure α)
    (w' : Workbench) : Prop :=
  (∀ f, r = .error f → f.isExit = false) → (w' = w ∧ N) ∨ P w'

theorem Comes.of_happened {α : Type} {x : α} {a : Act (Tracker × Link) Unit} {w₁ : Workbench}
    {b : Act Workbench Unit} {N : Prop} {P : Workbench → Prop} (h : Ends b w₁ (Happened a w₁))
    (hP : ∀ w', Heard a w₁ w' → P w') :
    Ends (b >>= fun _ => pure x) w₁ (Comes N P w) := by
  refine .bind (h.mono fun r w' hr => ?_)
  cases r with
  | ok _ => exact .pure fun _ => .inr (hP w' hr)
  | error f =>
    intro hf
    rw [Happened, hf f rfl] at hr
    cases hr

/-- Opens the document of a resource, once its name is read. -/
def openAt (o : Opening) (u : Uri) : Act Workbench DocumentId := do
  if let some d ← lookup u then return d
  let d := (← Act.state).documents.size
  let doc := Document.opened u o.text (o.languageId.getD "plaintext")
    ((o.version.bind Value.asInt?).getD 1)
  Act.change fun w => { w with documents := w.documents.push doc, shelf := w.shelf ++ [(u, d)] }
  fire (← Act.state).onOpen (hearOpened d)
  return d

/-- A document that is open is not opened again. -/
theorem openDocument_ends (o : Opening) (hw : SetUp relay w) :
    Ends (openDocument o) w (Comes (∀ u, o.Means w u → w.shelf.lookup u ≠ none)
      (fun w' => ∃ u, o.Means w u ∧ w.shelf.lookup u = none ∧
        Heard (relay.opened (o.document u)) (w.withNew u (o.document u)) w') w) := by
  have hrest (u : Uri) (hu : ∀ u', o.Means w u' ↔ u = u') : Ends (openAt o u) w (Comes
      (∀ u, o.Means w u → w.shelf.lookup u ≠ none) (fun w' => ∃ u,
        o.Means w u ∧ w.shelf.lookup u = none ∧
          Heard (relay.opened (o.document u)) (w.withNew u (o.document u)) w') w) := by
    unfold openAt
    refine .read ?_
    cases hl : w.shelf.lookup u with
    | some d =>
      refine .pure fun _ => .inl ⟨rfl, fun u' hu' => ?_⟩
      rw [← (hu u').1 hu', hl]
      exact nofun
    | none =>
      refine .read (.change_bind (.read ?_))
      have hfire := fire_opened_ends w.documents.size (hw.withNew u (o.document u))
      rw [doc_withNew_size] at hfire
      exact .of_happened hfire fun w' hh => ⟨u, (hu u).2 rfl, hl, hh⟩
  refine .read (.traced ?_)
  cases hn : o.name with
  | text s =>
    refine .bind (.ofExcept ?_)
    cases hu : readUri s with
    | ok u => exact hrest u fun u' => by simp [Opening.Means, hn, hu]
    | error f => exact fun _ => .inl ⟨rfl, fun u hm => by simp [Opening.Means, hn, hu] at hm⟩
  | uri u => exact hrest u fun u' => by simp [Opening.Means, hn]
  | document d => exact hrest (w.doc d).uri fun u' => by simp [Opening.Means, hn]

/-- A document after edits. -/
def edited (x : Document) (edits : List (Range × List Char)) : Document :=
  { x with text := (edits.map asDelta).foldl Delta.apply x.text, version := x.version + 1 }

theorem edit_ends (n : Name) (edits : List (Range × List Char)) (hw : SetUp relay w)
    (hfit : ∀ d, w.Names d n → d < w.documents.size ∧ EditsFit (w.doc d).text edits) :
    Ends (edit n edits) w (Comes (∀ d, ¬w.Names d n)
      (fun w' => ∃ d cs, w.Names d n ∧ (∀ c ∈ cs, c.InLimits) ∧
        (cs.map fun c => Delta.part c.range c.text) = edits.map asDelta ∧
        Heard (relay.changed ⟨edited (w.doc d) edits, cs⟩)
          (w.withDoc d (edited (w.doc d) edits)) w') w) := by
  refine .read (.traced (.bind ((resolve_ends n w).mono fun r w' h => ?_)))
  obtain ⟨rfl, hn⟩ := h
  cases r with
  | error f => exact fun _ => .inl ⟨rfl, hn⟩
  | ok d =>
    obtain ⟨hd, hfit⟩ := hfit d hn
    refine .bind ((applyEdits_ends hd hfit).mono fun r w₁ h => ?_)
    obtain ⟨⟨cs, rfl, hcs, hmap⟩, rfl⟩ := h
    refine .bind ((onDocument_ends (Q := fun r x => r = .ok () ∧ x = edited (w'.doc d) edits)
      ?_).mono fun r w₂ h => ?_)
    · rw [doc_withDoc hd]
      exact .change ⟨rfl, rfl⟩
    · obtain ⟨x, ⟨rfl, rfl⟩, rfl⟩ := h
      rw [withDoc_withDoc]
      refine .read ?_
      have hfire := fire_changed_ends d (hw.withDoc d (edited (w'.doc d) edits)) cs
      rw [doc_withDoc hd] at hfire
      exact .of_happened hfire fun w'' hh => ⟨d, cs, hn, hcs, hmap, hh⟩

theorem replaceAll_ends (n : Name) (text : List Char) (hw : SetUp relay w)
    (hfit : ∀ d, w.Names d n → d < w.documents.size ∧
      EditsFit (w.doc d).text [((w.doc d).fullRange, text)]) :
    Ends (replaceAll n text) w (Comes (∀ d, ¬w.Names d n)
      (fun w' => ∃ d cs, w.Names d n ∧ (∀ c ∈ cs, c.InLimits) ∧
        (cs.map fun c => Delta.part c.range c.text) =
          [((w.doc d).fullRange, text)].map asDelta ∧
        Heard (relay.changed ⟨edited (w.doc d) [((w.doc d).fullRange, text)], cs⟩)
          (w.withDoc d (edited (w.doc d) [((w.doc d).fullRange, text)])) w') w) := by
  refine .bind ((resolve_ends n w).mono fun r w' h => ?_)
  obtain ⟨rfl, hn⟩ := h
  cases r with
  | error f => exact fun _ => .inl ⟨rfl, hn⟩
  | ok d =>
    refine .read ((edit_ends (.document d) _ hw ?_).mono fun r w'' h hr => ?_)
    · rintro _ rfl
      exact hfit d hn
    · rcases h hr with ⟨-, h⟩ | ⟨_, cs, rfl, h⟩
      · exact absurd rfl (h d)
      · exact .inr ⟨d, cs, hn, h⟩

theorem save_ends (n : Name) (hw : SetUp relay w) :
    Ends (save n) w (Comes (∀ d, ¬w.Names d n) (fun w' => ∃ d, w.Names d n ∧
      Heard (relay.saved ((w.withDoc d (w.doc d).save).doc d)) (w.withDoc d (w.doc d).save) w')
        w) := by
  refine .read (.traced (.bind ((resolve_ends n w).mono fun r w' h => ?_)))
  obtain ⟨rfl, hn⟩ := h
  cases r with
  | error f => exact fun _ => .inl ⟨rfl, hn⟩
  | ok d =>
    refine .bind ((onDocument_ends (Q := fun r x => r = .ok () ∧ x = (w'.doc d).save)
      (.change ⟨rfl, rfl⟩)).mono fun r w₂ h => ?_)
    obtain ⟨x, ⟨rfl, rfl⟩, rfl⟩ := h
    have hfire := fire_saved_ends d (hw.withDoc d (w'.doc d).save)
    exact .read (.of_happened hfire fun w'' hh => ⟨d, hn, hh⟩)

theorem close_ends (n : Name) (hw : SetUp relay w) :
    Ends (close n) w (Comes (∀ d, ¬w.Names d n) (fun w' => ∃ d, w.Names d n ∧
      Heard (relay.closed ((w.withoutDoc d).doc d)) (w.withoutDoc d) w') w) := by
  refine .read (.traced (.bind ((resolve_ends n w).mono fun r w' h => ?_)))
  obtain ⟨rfl, hn⟩ := h
  cases r with
  | error f => exact fun _ => .inl ⟨rfl, hn⟩
  | ok d =>
    refine .read (.change_bind (.bind ((onDocument_ends (Q := fun r x => r = .ok () ∧
      x = { w'.doc d with closed := true }) (.change ⟨rfl, rfl⟩)).mono fun r w₂ h => ?_)))
    obtain ⟨x, ⟨rfl, rfl⟩, rfl⟩ := h
    have hfire := fire_closed_ends d (hw.withoutDoc d)
    exact .read (.of_happened hfire fun w'' hh => ⟨d, hn, hh⟩)

end Workbench

end EditorBridge
