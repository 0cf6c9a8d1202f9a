/-
The server's copies are faithful.

As long as no message is refused and all numbers are within the limits of the protocol,
every document that the tracker knows has its text and its version as the server's copy,
whatever the editor does and whoever asks about documents in between.  The invariant is
`Synced`: open documents are told apart by their names on the wire, the server holds
copies of exactly the documents the tracker knows, and the copies are right.

A document is changed before the relay hears of it, so in between its copy is not right.
The invariant therefore comes with a document that is left out (`Agrees`), and each
message brings back the one it is about.
-/
import EditorBridge.Proofs.Editor.Shelf

namespace EditorBridge

open Act (Ends Leaves)
open Text (length16)
open Tracker (Announced)

/-- The copy of a document that is right. -/
def Document.copy (d : Document) : Copy := ⟨d.text, d.version⟩

/-! ### What is delivered -/

/-- A tracker became another one, and messages were delivered that turn copies as told. -/
def Delivers (t' : Tracker) (g : Mirror → Mirror) (s s' : Tracker × Link) : Prop :=
  s'.1 = t' ∧ ∃ news, Link.Tells news s.2 s'.2 ∧ ∀ m : Mirror, news.foldl Mirror.hear m = g m

/-- Everything that is sent is delivered to a recorder. -/
def Open (l : Link) : Prop := l.recording = true ∧ l.recorder.sendFails = []

namespace Delivers

variable {r : Relay} {d : Document} {e : ChangeEvent} {t : Tracker} {l l' : Link}
  {s : Tracker × Link}

theorem nothing (s : Tracker × Link) : Delivers s.1 id s s := ⟨rfl, [], .refl s.2, fun _ => rfl⟩

/-- What is not refused does not fail for being refused. -/
theorem not_refused (h : Open l) {method : String} {f : Failure}
    (hf : l.recording = true → l.recorder.sendFails.lookup method = some f) : False := by
  have hlookup := hf h.1
  rw [h.2] at hlookup
  cases hlookup

theorem of_opened {x : Except Failure Unit} (hl : Open l) (hv : d.VersionFits)
    (h : Relay.Opened d t l x s) :
    Delivers (t.insert d.identity) (·.set d.identity (some d.copy)) (t, l) s := by
  cases h with
  | told ht => exact ⟨rfl, _, ht, fun _ => rfl⟩
  | refused _ hf => exact (not_refused hl hf).elim
  | unfit hv' => exact absurd hv hv'

theorem of_closed {x : Except Failure Unit} (hl : Open l) (h : Relay.Closed d t l x s) :
    Delivers (t.erase d.identity) (·.set d.identity none) (t, l) s := by
  cases h with
  | told ht => exact ⟨rfl, _, ht, fun _ => rfl⟩
  | refused _ hf => exact (not_refused hl hf).elim

/-- What the server makes of a change of a document it knows. -/
def revise (e : ChangeEvent) (m : Mirror) : Mirror := m.set e.document.identity <|
  (m e.document.identity).map fun c => ⟨e.deltas.foldl Delta.apply c.text, e.document.version⟩

theorem of_changed_known {x : Except Failure Unit} (hl : Open l) (hv : e.document.VersionFits)
    (hc : ∀ c ∈ e.changes, c.InLimits) (hk : t.knows e.document.identity = true)
    (h : Relay.Changed e t l x s) : Delivers t (revise e) (t, l) s := by
  cases h with
  | delta _ ht => exact ⟨rfl, _, ht, fun _ => rfl⟩
  | refused _ _ hf => exact (not_refused hl hf).elim
  | unsendable _ hv' => exact absurd ⟨hv, hc⟩ hv'
  | anew hk' | unopened hk' | halfway hk' | unfit hk' => simp [hk] at hk'

theorem of_changed_unknown {x : Except Failure Unit} (hl : Open l) (hv : e.document.VersionFits)
    (hk : t.knows e.document.identity = false) (h : Relay.Changed e t l x s) :
    Delivers (t.insert e.document.identity)
      (·.set e.document.identity (some e.document.copy)) (t, l) s := by
  cases h with
  | anew _ ht =>
    refine ⟨rfl, _, ht, fun m => ?_⟩
    funext u
    by_cases hu : u = e.document.identity
    · subst hu
      simp [Mirror.hear, Document.opening, Delta.apply, Document.copy]
    · simp [Mirror.hear, Document.opening, Mirror.set_of_ne hu]
  | unopened _ _ hf | halfway _ _ hf => exact (not_refused hl hf).elim
  | unfit _ hv' => exact absurd hv hv'
  | delta hk' | refused hk' | unsendable hk' => simp [hk] at hk'

/-- Using a document announces it if it is not known, and does nothing else to copies. -/
theorem of_used (hl : Open l) (hv : d.VersionFits) (h : Used d t l s) :
    Delivers (if t.knows d.identity then t else t.insert d.identity)
      (fun m => if t.knows d.identity then m else m.set d.identity (some d.copy)) (t, l) s := by
  cases h with
  | mentioned hq ha hm =>
    obtain ⟨ht, n, hn⟩ := hm
    cases ha with
    | known hk =>
      refine ⟨by simp [hk, ht], _, hq.trans hn, fun m => ?_⟩
      simp [hk]
    | told hk ha =>
      refine ⟨by simp [hk, ht], _, hq.trans (ha.trans hn), fun m => ?_⟩
      simp [hk, Mirror.hear, Document.opening, Document.copy]
  | @failed f l₀ _ hq ha =>
    cases ha with
    | refused _ _ hf =>
      exact (not_refused (l := l₀) ⟨hq.recording.trans hl.1, hq.refusals.trans hl.2⟩ hf).elim
    | unfit _ hv' => exact absurd hv hv'

end Delivers

/-! ### The invariant -/

namespace Workbench

/-- The server has copies of what the tracker knows.  The copies of open documents that take part
are right, but for one that may be left out. -/
structure Agrees (relay : Relay) (out : Option String) (m : Mirror) (t : Tracker)
    (w : Workbench) : Prop where
  held : ∀ uri, (m uri).isSome = t.knows uri
  same : ∀ d, w.Shelved d → some (w.doc d).identity ≠ out →
    (w.doc d).takesPart relay.schemes = true → t.knows (w.doc d).identity = true →
      m (w.doc d).identity = some (w.doc d).copy

/-- **The server's copies are faithful.** -/
structure Synced (relay : Relay) (m : Mirror) (w : Workbench) : Prop where
  setUp : SetUp relay w
  orderly : Orderly w
  idle : ¬w.Registered → w.tracker.known = []
  agrees : Agrees relay none m w.tracker w

namespace Agrees

variable {relay : Relay} {out : Option String} {m : Mirror} {t : Tracker} {w w' : Workbench}
  {x : Document}

/-- A document is left out. -/
theorem leave (h : Agrees relay none m t w) (out : Option String) : Agrees relay out m t w :=
  ⟨h.held, fun d hd _ => h.same d hd nofun⟩

/-- Only open documents matter. -/
theorem congr (h : Agrees relay out m t w) (hd : ∀ d, w'.Shelved d → some (w'.doc d).identity ≠ out →
    w.Shelved d ∧ w'.doc d = w.doc d) : Agrees relay out m t w' := by
  refine ⟨h.held, fun d hs hne => ?_⟩
  obtain ⟨hs, heq⟩ := hd d hs hne
  rw [heq] at hne ⊢
  exact h.same d hs hne

theorem knows_insert {uri u : String} :
    (t.insert uri).knows u = (decide (u = uri) || t.knows u) := by
  rw [Bool.eq_iff_iff]
  simp [Tracker.knows_iff, Tracker.mem_insert, or_comm]

theorem knows_erase {uri u : String} :
    (t.erase uri).knows u = (!decide (u = uri) && t.knows u) := by
  rw [Bool.eq_iff_iff]
  simp [Tracker.knows_iff, Tracker.mem_erase, and_comm]

/-- An announcement brings a document back. -/
theorem announce (h : Agrees relay (some x.identity) m t w)
    (hx : ∀ d, w.Shelved d → (w.doc d).identity = x.identity → w.doc d = x) :
    Agrees relay none (m.set x.identity (some x.copy)) (t.insert x.identity) w := by
  refine ⟨fun u => ?_, fun d hd _ htakes hk => ?_⟩
  · rw [knows_insert]
    by_cases hu : u = x.identity
    · simp [hu]
    · simp [Mirror.set_of_ne hu, hu, h.held u]
  · by_cases hu : (w.doc d).identity = x.identity
    · rw [hu, Mirror.set_self, hx d hd hu]
    · rw [Mirror.set_of_ne hu]
      refine h.same d hd (by simpa using hu) htakes ?_
      simpa [knows_insert, hu] using hk

/-- A document that is dropped by both sides need not be left out. -/
theorem drop (h : Agrees relay (some x.identity) m t w) :
    Agrees relay none (m.set x.identity none) (t.erase x.identity) w := by
  refine ⟨fun u => ?_, fun d hd _ htakes hk => ?_⟩
  · rw [knows_erase]
    by_cases hu : u = x.identity
    · simp [hu]
    · simp [Mirror.set_of_ne hu, hu, h.held u]
  · rw [knows_erase] at hk
    have hu : (w.doc d).identity ≠ x.identity := by
      intro hu
      simp [hu] at hk
    rw [Mirror.set_of_ne hu]
    exact h.same d hd (by simpa using hu) htakes (by simpa [hu] using hk)

/-- A change of the copy brings a document back as well. -/
theorem set (h : Agrees relay (some x.identity) m t w) (hk : t.knows x.identity = true)
    (hx : ∀ d, w.Shelved d → (w.doc d).identity = x.identity → w.doc d = x) :
    Agrees relay none (m.set x.identity (some x.copy)) t w := by
  have hinsert := h.announce hx
  rwa [Tracker.insert, if_pos hk] at hinsert

/-- A document that does not matter need not be left out. -/
theorem bring (h : Agrees relay out m t w) (hout : ∀ d, w.Shelved d →
    some (w.doc d).identity = out → (w.doc d).takesPart relay.schemes = true →
      t.knows (w.doc d).identity = true → False) : Agrees relay none m t w := by
  refine ⟨h.held, fun d hd _ htakes hk => ?_⟩
  by_cases hu : some (w.doc d).identity = out
  · exact (hout d hd hu htakes hk).elim
  · exact h.same d hd hu htakes hk

end Agrees

/-! ### What the operations come to -/

variable {relay : Relay} {m : Mirror} {w w₁ w' : Workbench} {d : DocumentId}

/-- Something was delivered, and the server's copies are faithful afterwards. -/
def Onward (relay : Relay) (m : Mirror) (w w' : Workbench) : Prop :=
  ∃ news, Link.Tells news w.link w'.link ∧ Synced relay (news.foldl Mirror.hear m) w'

theorem SetUp.open_link (h : SetUp relay w) : Open w.link := ⟨h.recording, h.taken⟩

theorem Synced.onward (h : Synced relay m w) : Onward relay m w w := ⟨[], .refl w.link, h⟩

theorem agrees_congr {out : Option String} {t : Tracker} (h : Agrees relay out m t w)
    (hd : w'.documents = w.documents) (hs : w'.shelf = w.shelf) : Agrees relay out m t w' := by
  refine h.congr fun d hd' _ => ?_
  have hdoc : w'.doc d = w.doc d := by rw [doc, doc, hd]
  refine ⟨?_, hdoc⟩
  rwa [Shelved, ← hdoc, ← hs]

/-- What is delivered takes the invariant along. -/
theorem onward_of_delivers {t' : Tracker} {g : Mirror → Mirror} {s : Tracker × Link}
    (hw : SetUp relay w) (ho : Orderly w) (hreg : w.Registered)
    (hd : Delivers t' g (w.tracker, w.link) s) (ha : Agrees relay none (g m) t' w)
    (noted : List Sighting) : Onward relay m w { w with
      sightings := noted, trackers := w.trackers.setIfInBounds 0 s.1, link := s.2 } := by
  obtain ⟨rfl, news, ht, hnews⟩ := hd
  refine ⟨news, ht, ?_, ho.congr rfl rfl, fun h => absurd hreg h, ?_⟩
  · exact ⟨ht.recording.trans hw.1, ht.refusals.trans hw.2, by simpa using hw.3, hw.4, hw.5, hw.6,
      hw.7, hw.8, hw.9, hw.10, hw.11⟩
  · rw [hnews, tracker_of_set hw.trackers rfl]
    exact agrees_congr ha rfl rfl

/-- **An event** takes the invariant along: a relay that listens delivers what it is meant to,
and without one the server knows nothing. -/
theorem synced_of_heard {a : Act (Tracker × Link) Unit} {t' : Tracker} {g : Mirror → Mirror}
    {out : Option String} (hw : SetUp relay w) (ho : Orderly w)
    (hidle : ¬w.Registered → w.tracker.known = []) (hh : Heard a w w')
    (hm : Agrees relay out m w.tracker w)
    (hd : ∀ s, a.Leaves (w.tracker, w.link) s → Delivers t' g (w.tracker, w.link) s)
    (ha : Agrees relay none (g m) t' w) : Onward relay m w w' := by
  rcases hh with ⟨hreg, noted, s, hs, rfl⟩ | ⟨hreg, noted, rfl⟩
  · exact onward_of_delivers hw ho hreg (hd s hs) ha noted
  · refine Synced.onward (w := { w with sightings := noted })
      ⟨hw.noted ⟨noted, rfl⟩, ho.congr rfl rfl, fun _ => hidle hreg, ?_⟩
    refine agrees_congr (hm.bring fun d _ _ _ hk => ?_) rfl rfl
    simp [Tracker.knows, hidle hreg] at hk

/-- A document that takes no part is of no concern to the relay. -/
theorem bring_aside {x : Document} {t : Tracker} (ha : Agrees relay (some x.identity) m t w)
    (hx : ∀ d, w.Shelved d → (w.doc d).identity = x.identity → w.doc d = x)
    (htakes : ¬x.takesPart relay.schemes = true) : Agrees relay none m t w :=
  ha.bring fun d hd hu ht _ => htakes (hx d hd (Option.some.inj hu) ▸ ht)

/-- What a relay does not care about leaves everything as it is. -/
theorem delivers_of_aside {a : Act (Tracker × Link) Unit} {s s' : Tracker × Link}
    (ha : a = pure ()) (h : a.Leaves s s') : Delivers s.1 id s s' := by
  obtain ⟨j, rfl⟩ := h
  rw [ha]
  exact .nothing s

/-- So does an event that the relay does not care about. -/
theorem synced_of_aside {a : Act (Tracker × Link) Unit} (hw : SetUp relay w)
    (ho : Orderly w) (hidle : ¬w.Registered → w.tracker.known = []) (hh : Heard a w w')
    (ha : a = pure ()) (hm : Agrees relay none m w.tracker w) : Onward relay m w w' :=
  synced_of_heard (g := id) hw ho hidle hh hm (fun _ => delivers_of_aside ha) hm

/-- A document that was opened. -/
theorem synced_of_opened {x : Document} (hw : SetUp relay w) (ho : Orderly w)
    (hidle : ¬w.Registered → w.tracker.known = []) (hv : x.VersionFits)
    (hx : ∀ d, w.Shelved d → (w.doc d).identity = x.identity → w.doc d = x)
    (ha : Agrees relay (some x.identity) m w.tracker w) (hh : Heard (relay.opened x) w w') :
    Onward relay m w w' := by
  by_cases h : x.takesPart relay.schemes = true
  · refine synced_of_heard hw ho hidle hh ha (fun s hs => ?_) (ha.announce hx)
    refine hs.elim ((relay.opened_ends h _ _).mono fun _ _ => ?_)
    exact Delivers.of_opened hw.open_link hv
  · exact synced_of_aside hw ho hidle hh (relay.opened_aside h) (bring_aside ha hx h)

/-- A document that was closed, and is not open any more. -/
theorem synced_of_closed {x : Document} (hw : SetUp relay w) (ho : Orderly w)
    (hidle : ¬w.Registered → w.tracker.known = [])
    (hx : ∀ d, w.Shelved d → (w.doc d).identity ≠ x.identity)
    (ha : Agrees relay (some x.identity) m w.tracker w) (hh : Heard (relay.closed x) w w') :
    Onward relay m w w' := by
  by_cases h : x.takesPart relay.schemes = true
  · refine synced_of_heard hw ho hidle hh ha (fun s hs => ?_) ha.drop
    refine hs.elim ((relay.closed_ends h _ _).mono fun _ _ => ?_)
    exact Delivers.of_closed hw.open_link
  · exact synced_of_aside hw ho hidle hh (relay.closed_aside h)
      (bring_aside ha (fun d hd hu => absurd hu (hx d hd)) h)

/-- A document that was changed: if the server has a copy, it is of the text before. -/
theorem synced_of_changed {e : ChangeEvent} (old : Document) (hw : SetUp relay w) (ho : Orderly w)
    (hidle : ¬w.Registered → w.tracker.known = []) (hv : e.document.VersionFits)
    (hc : ∀ c ∈ e.changes, c.InLimits)
    (hx : ∀ d, w.Shelved d → (w.doc d).identity = e.document.identity → w.doc d = e.document)
    (hold : e.deltas.foldl Delta.apply old.text = e.document.text)
    (hcopy : e.document.takesPart relay.schemes = true →
      w.tracker.knows e.document.identity = true → m e.document.identity = some old.copy)
    (ha : Agrees relay (some e.document.identity) m w.tracker w)
    (hh : Heard (relay.changed e) w w') : Onward relay m w w' := by
  by_cases h : e.document.takesPart relay.schemes = true
  · by_cases hk : w.tracker.knows e.document.identity = true
    · have hrevise : Delivers.revise e m =
          m.set e.document.identity (some e.document.copy) := by
        simp [Delivers.revise, hcopy h hk, Document.copy, hold]
      refine synced_of_heard hw ho hidle hh ha (fun s hs => ?_) (hrevise ▸ ha.set hk hx)
      refine hs.elim ((relay.changed_ends h _ _).mono fun _ _ => ?_)
      exact Delivers.of_changed_known hw.open_link hv hc hk
    · refine synced_of_heard hw ho hidle hh ha (fun s hs => ?_) (ha.announce hx)
      refine hs.elim ((relay.changed_ends h _ _).mono fun _ _ => ?_)
      exact Delivers.of_changed_unknown hw.open_link hv (by simpa using hk)
  · exact synced_of_aside hw ho hidle hh (relay.changed_aside h) (bring_aside ha hx h)

/-- Announcing an open document if need be keeps the copies right. -/
theorem agrees_used {x : Document} {t : Tracker} (ha : Agrees relay none m t w)
    (hx : ∀ d, w.Shelved d → (w.doc d).identity = x.identity → w.doc d = x) :
    Agrees relay none (if t.knows x.identity then m else m.set x.identity (some x.copy))
      (if t.knows x.identity then t else t.insert x.identity) w := by
  split
  · exact ha
  · exact (ha.leave _).announce hx

/-- A document that was saved. -/
theorem synced_of_saved {x : Document} (hw : SetUp relay w) (ho : Orderly w)
    (hidle : ¬w.Registered → w.tracker.known = []) (hv : x.VersionFits)
    (hx : ∀ d, w.Shelved d → (w.doc d).identity = x.identity → w.doc d = x)
    (ha : Agrees relay none m w.tracker w) (hh : Heard (relay.saved x) w w') :
    Onward relay m w w' := by
  by_cases h : x.takesPart relay.schemes = true
  · let g (m : Mirror) : Mirror :=
      if w.tracker.knows x.identity then m else m.set x.identity (some x.copy)
    refine synced_of_heard (g := g) hw ho hidle hh ha (fun s hs => ?_) (agrees_used ha hx)
    have hr : w.link.recording = false → Json.Writable relay.formatting := by simp [hw.recording]
    refine hs.elim ((relay.saved_ends h hr _).mono fun _ _ => ?_)
    exact Delivers.of_used hw.open_link hv
  · exact synced_of_aside hw ho hidle hh (relay.saved_aside h) ha

/-! ### Editing -/

/-- What does not come to anything leaves the invariant as it is. -/
theorem Comes.onward {α : Type} {N : Prop} {P : Workbench → Prop} {r : Except Failure α}
    (h : Comes N P w r w') (hr : ∀ f, r = .error f → f.isExit = false) (hs : Synced relay m w)
    (hP : P w' → Onward relay m w w') : Onward relay m w w' := by
  rcases h hr with ⟨rfl, -⟩ | h
  · exact hs.onward
  · exact hP h

/-- The limits of what is opened; open documents have names of their own. -/
def OpeningFits (w : Workbench) (o : Opening) : Prop :=
  ∀ u, o.Means w u → w.shelf.lookup u = none →
    ((o.document u).VersionFits ∧ (length16 o.text : Int) ≤ limit) ∧
      ∀ d, w.Shelved d → (w.doc d).identity ≠ (o.document u).identity

theorem openDocument_onward {o : Opening} (hs : Synced relay m w) (hfit : OpeningFits w o) :
    Ends (openDocument o) w fun r w' =>
      (∀ f, r = .error f → f.isExit = false) → Onward relay m w w' := by
  refine (openDocument_ends o hs.setUp).mono fun r w' h hr => h.onward hr hs ?_
  rintro ⟨u, hu, hl, hh⟩
  obtain ⟨hfits, hapart⟩ := hfit u hu hl
  refine synced_of_opened (w := w.withNew u (o.document u)) (hs.setUp.withNew u _)
    (hs.orderly.withNew rfl hapart hfits) hs.idle hfits.1 (fun d hd heq => ?_) ?_ hh
  · rcases shelved_withNew hs.orderly hd with ⟨-, h⟩ | ⟨hd, h⟩
    · exact h
    · exact absurd (h ▸ heq) (hapart d hd)
  · refine (hs.agrees.leave _).congr fun d hd hne => ?_
    rcases shelved_withNew hs.orderly hd with ⟨-, h⟩ | h
    · exact absurd (by rw [h]) hne
    · exact h

theorem editsFit_last {text : List Char} {es : List (Range × List Char)} (h : EditsFit text es) :
    (length16 ((es.map asDelta).foldl Delta.apply text) : Int) ≤ limit := by
  induction es generalizing text with
  | nil => exact h
  | cons e es ih => exact ih h.2.2

/-- The limits of an edit of an open document. -/
def EditFits (w : Workbench) (d : DocumentId) (edits : List (Range × List Char)) : Prop :=
  w.Shelved d ∧ EditsFit (w.doc d).text edits ∧ (w.doc d).version + 1 ≤ limit

/-- An edit of an open document was heard of. -/
theorem synced_of_edited {edits : List (Range × List Char)} {cs : List ContentChange}
    (hs : Synced relay m w) (hfit : EditFits w d edits) (hc : ∀ c ∈ cs, c.InLimits)
    (hmap : (cs.map fun c => Delta.part c.range c.text) = edits.map asDelta)
    (hh : Heard (relay.changed ⟨edited (w.doc d) edits, cs⟩)
      (w.withDoc d (edited (w.doc d) edits)) w') : Onward relay m w w' := by
  obtain ⟨hd, hedits, hversion⟩ := hfit
  have hlt := hs.orderly.shelved_lt hd
  have hfits : (edited (w.doc d) edits).VersionFits ∧
      (length16 (edited (w.doc d) edits).text : Int) ≤ limit := by
    refine ⟨?_, editsFit_last hedits⟩
    have hold := (hs.orderly.fits d hd).1.1
    constructor
    · show -2147483648 ≤ (w.doc d).version + 1
      omega
    · exact hversion
  have ho := hs.orderly.withDoc hlt (x := edited (w.doc d) edits) rfl hfits
  have hshelved := (shelved_withDoc hlt (x := edited (w.doc d) edits) rfl d).2 hd
  refine synced_of_changed (w := w.withDoc d (edited (w.doc d) edits)) (w.doc d)
    (hs.setUp.withDoc d _) ho hs.idle hfits.1 hc (fun d' hd' heq => ?_) ?_
    (fun htakes hk => ?_) ?_ hh
  · have hdoc := doc_withDoc hlt (edited (w.doc d) edits)
    have heq' := ho.eq_of_identity hshelved d' hd'
    rw [hdoc] at heq'
    exact heq' heq
  · show (cs.map fun c => Delta.part c.range c.text).foldl Delta.apply _ = _
    rw [hmap]
    rfl
  · exact hs.agrees.same d hd nofun htakes hk
  · refine (hs.agrees.leave _).congr fun d' hd' hne => ?_
    rcases doc_withDoc_cases (x := edited (w.doc d) edits) hlt d' with ⟨-, h⟩ | ⟨-, h⟩
    · exact absurd (by rw [h]) hne
    · exact ⟨(shelved_withDoc hlt (x := edited (w.doc d) edits) rfl d').1 hd', h⟩

theorem edit_onward {n : Name} {edits : List (Range × List Char)} (hs : Synced relay m w)
    (hfit : ∀ d, w.Names d n → EditFits w d edits) :
    Ends (edit n edits) w fun r w' =>
      (∀ f, r = .error f → f.isExit = false) → Onward relay m w w' := by
  have hsize (d : DocumentId) (hn : w.Names d n) := hs.orderly.shelved_lt (hfit d hn).1
  refine (edit_ends n edits hs.setUp fun d hn => ⟨hsize d hn, (hfit d hn).2.1⟩).mono
    fun r w' h hr => h.onward hr hs ?_
  rintro ⟨d, cs, hn, hc, hmap, hh⟩
  exact synced_of_edited hs (hfit d hn) hc hmap hh

/-- The limits of a replacement of the whole text of an open document. -/
def ReplacementFits (w : Workbench) (d : DocumentId) (text : List Char) : Prop :=
  w.Shelved d ∧ (length16 ((asDelta ((w.doc d).fullRange, text)).apply (w.doc d).text) : Int) ≤ limit ∧
    (w.doc d).version + 1 ≤ limit

theorem ReplacementFits.edit {text : List Char} (ho : Orderly w) (h : ReplacementFits w d text) :
    EditFits w d [((w.doc d).fullRange, text)] := by
  obtain ⟨hd, hlen, hversion⟩ := h
  have hfits := (ho.fits d hd).2
  exact ⟨hd, ⟨hfits, Document.fullRange_inLimits hfits, hlen⟩, hversion⟩

theorem replaceAll_onward {n : Name} {text : List Char} (hs : Synced relay m w)
    (hfit : ∀ d, w.Names d n → ReplacementFits w d text) :
    Ends (replaceAll n text) w fun r w' =>
      (∀ f, r = .error f → f.isExit = false) → Onward relay m w w' := by
  have hedit (d : DocumentId) (hn : w.Names d n) := (hfit d hn).edit hs.orderly
  refine (replaceAll_ends n text hs.setUp fun d hn =>
    ⟨hs.orderly.shelved_lt (hfit d hn).1, (hedit d hn).2.1⟩).mono fun r w' h hr => h.onward hr hs ?_
  rintro ⟨d, cs, hn, hc, hmap, hh⟩
  exact synced_of_edited hs (hedit d hn) hc hmap hh

theorem save_onward {n : Name} (hs : Synced relay m w) (hopen : ∀ d, w.Names d n → w.Shelved d) :
    Ends (save n) w fun r w' =>
      (∀ f, r = .error f → f.isExit = false) → Onward relay m w w' := by
  refine (save_ends n hs.setUp).mono fun r w' h hr => h.onward hr hs ?_
  rintro ⟨d, hn, hh⟩
  have hd := hopen d hn
  have hlt := hs.orderly.shelved_lt hd
  rw [doc_withDoc hlt] at hh
  have hfits := hs.orderly.fits d hd
  have ho := hs.orderly.withDoc hlt (x := (w.doc d).save) rfl hfits
  have hshelved := (shelved_withDoc hlt (x := (w.doc d).save) rfl d).2 hd
  refine synced_of_saved (w := w.withDoc d (w.doc d).save) (x := (w.doc d).save)
    (hs.setUp.withDoc d _) ho hs.idle hfits.1 (fun d' hd' heq => ?_)
    ⟨hs.agrees.held, fun d' hd' _ htakes hk => ?_⟩ hh
  · have heq' := ho.eq_of_identity hshelved d' hd'
    rw [doc_withDoc hlt] at heq'
    exact heq' heq
  · rw [shelved_withDoc hlt (x := (w.doc d).save) rfl] at hd'
    rcases doc_withDoc_cases (x := (w.doc d).save) hlt d' with ⟨rfl, h⟩ | ⟨-, h⟩
    · rw [h] at htakes hk ⊢
      exact hs.agrees.same d' hd' nofun htakes hk
    · rw [h] at htakes hk ⊢
      exact hs.agrees.same d' hd' nofun htakes hk

theorem close_onward {n : Name} (hs : Synced relay m w) (hopen : ∀ d, w.Names d n → w.Shelved d) :
    Ends (close n) w fun r w' =>
      (∀ f, r = .error f → f.isExit = false) → Onward relay m w w' := by
  refine (close_ends n hs.setUp).mono fun r w' h hr => h.onward hr hs ?_
  rintro ⟨d, hn, hh⟩
  have hd := hopen d hn
  rw [show (w.withoutDoc d).doc d = _ from doc_withDoc (hs.orderly.shelved_lt hd) _] at hh
  have hother {d' : DocumentId} (h : (w.withoutDoc d).Shelved d') :
      d' ≠ d ∧ w.Shelved d' ∧ (w.withoutDoc d).doc d' = w.doc d' := by
    obtain ⟨hne, hd'⟩ := (shelved_withoutDoc hs.orderly hd).1 h
    exact ⟨hne, hd', doc_withoutDoc_of_ne (Ne.symm hne)⟩
  refine synced_of_closed (w := w.withoutDoc d) (hs.setUp.withoutDoc d)
    (hs.orderly.withoutDoc hd) hs.idle (fun d' hd' heq => ?_) ?_ hh
  · obtain ⟨hne, hs', hdoc⟩ := hother hd'
    rw [hdoc] at heq
    exact hne (hs.orderly.apart d' d hs' hd heq)
  · exact (hs.agrees.leave _).congr fun d' hd' _ => (hother hd').2

end Workbench

end EditorBridge
