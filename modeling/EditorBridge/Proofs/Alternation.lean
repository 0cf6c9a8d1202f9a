/-
Openings and closings take turns, as long as the events do.

Whatever is sent because a document is needed goes through the tracker, and the tracker
never announces what is open.  An announcement because a document was opened and a closing
because it was closed are sent without asking it: the editor is taken at its word.  So the
announcements and closings of a document take turns exactly as long as nothing is opened
that the server has open and nothing is closed that it does not have open
(`Run.alternate_iff`), and an editor can do both: a document that was closed can be edited
on, and opened again by its name, or be closed once more.

`Marked` says what a step does to one document, with the announcements and closings as
marks.  It needs one invariant only: what is open is known.
-/
import Mathlib.Data.List.Chain
import Mathlib.Data.List.DropRight
import EditorBridge.Proofs.Faithful

namespace EditorBridge

open Act (Ends Keeps)
open Tracker (Announced)

/-! ### Marks -/

namespace Told

/-- The mark of an announcement is `true`, and that of a closing is `false`. -/
def mark? (uri : String) : Told → Option Bool
  | opened u _ _ => if u = uri then some true else none
  | closed u => if u = uri then some false else none
  | _ => none

/-- The announcements and closings of a document since the server stopped last, in order. -/
def marks (uri : String) (told : List Told) : List Bool :=
  (told.rtakeWhile (· ≠ .forgotten)).filterMap (mark? uri)

theorem marks_concat (uri : String) (told : List Told) (t : Told) : marks uri (told ++ [t]) =
    if t = .forgotten then [] else marks uri told ++ (mark? uri t).toList := by
  unfold marks
  rw [List.rtakeWhile_concat]
  by_cases h : t = .forgotten
  · simp [h]
  · cases hm : mark? uri t <;> simp [h, hm]

/-- What is told goes on, and the server does not stop in between. -/
theorem marks_append {news : List Told} (h : .forgotten ∉ news) (uri : String)
    (told : List Told) : marks uri (told ++ news) = marks uri told ++ news.filterMap (mark? uri) := by
  induction news using List.reverseRecOn with
  | nil => simp
  | append_singleton news t ih =>
    simp only [List.mem_append, List.mem_singleton, not_or] at h
    rw [← List.append_assoc, marks_concat, if_neg (Ne.symm h.2), ih h.1]
    cases hm : mark? uri t <;> simp [hm]

theorem marks_mentioned (uri u : String) (n : Nat) :
    (List.replicate n (mentioned u)).filterMap (mark? uri) = [] := by
  simp [List.filterMap_replicate, mark?]

end Told

open Told (mark? marks marks_concat marks_append marks_mentioned)

/-- Marks alternate, and the first one is an announcement. -/
def Alternate (ms : List Bool) : Prop := ms.head? ≠ some false ∧ ms.IsChain (· ≠ ·)

/-- An announcement must not follow on another one, and a closing must. -/
theorem alternate_concat {ms : List Bool} {b : Bool} :
    Alternate (ms ++ [b]) ↔ Alternate ms ∧ (b = true ↔ ms.getLast? ≠ some true) := by
  unfold Alternate
  rw [List.isChain_append]
  cases ms using List.reverseRecOn with
  | nil => cases b <;> simp
  | append_singleton ms b' =>
    have hhead : (ms ++ [b'] ++ [b]).head? = (ms ++ [b']).head? := by cases ms <;> simp
    rw [hhead]
    cases b <;> cases b' <;> simp

/-- A document is open exactly if the last mark is an announcement. -/
theorem isOpen_iff {uri : String} {told : List Told} :
    IsOpen uri told ↔ (marks uri told).getLast? = some true := by
  induction told using List.reverseRecOn with
  | nil => simp [not_isOpen_nil, marks]
  | append_singleton told t ih =>
    rw [isOpen_append_singleton, marks_concat, ih]
    cases t with
    | opened u text version =>
      by_cases h : u = uri <;> simp [Told.opens, Told.ends, mark?, h]
    | closed u => by_cases h : u = uri <;> simp [Told.opens, Told.ends, mark?, h]
    | changed | mentioned | forgotten => simp [Told.opens, Told.ends, mark?]

/-! ### What a step does to a document

A step may be the event that a document was opened (`o`), or closed (`c`), or neither.
-/

/-- What is told of a document in a step, and whether it is known afterwards. -/
inductive Marked (o c : Prop) (t : Tracker) (uri : String) : List Bool → Tracker → Prop
  | nothing {t' : Tracker} (ho : ¬o) (hc : ¬c) (hk : t.knows uri = true → t'.knows uri = true) :
    Marked o c t uri [] t'
  /-- It is announced because it is needed. -/
  | needed {t' : Tracker} (ho : ¬o) (hc : ¬c) (hk : t.knows uri = false)
    (hk' : t'.knows uri = true) : Marked o c t uri [true] t'
  | opened {t' : Tracker} (ho : o) (hc : ¬c) (hk' : t'.knows uri = true) :
    Marked o c t uri [true] t'
  | closed {t' : Tracker} (hc : c) (ho : ¬o) : Marked o c t uri [false] t'

/-- What is told in a step, of every document. -/
def Brings (o c : String → Prop) (s s' : Tracker × Link) : Prop :=
  ∃ news, Link.Tells news s.2 s'.2 ∧ .forgotten ∉ news ∧
    ∀ uri, Marked (o uri) (c uri) s.1 uri (news.filterMap (mark? uri)) s'.1

/-- Documents are announced because they are needed, and nothing is opened or closed. -/
abbrev Needs : Tracker × Link → Tracker × Link → Prop := Brings (fun _ => False) fun _ => False

namespace Brings

variable {d : Document} {e : ChangeEvent} {t t' : Tracker} {l l' : Link}
  {s s' s'' : Tracker × Link} {o c : String → Prop}

theorem knows_mono {uri u : String} (h : t.knows u = true) : (t.insert uri).knows u = true :=
  Tracker.knows_iff.2 (Tracker.mem_insert.2 (.inl (Tracker.knows_iff.1 h)))

theorem knows_insert {uri : String} : (t.insert uri).knows uri = true :=
  Tracker.knows_iff.2 (Tracker.mem_insert.2 (.inr rfl))

/-- Nothing is told of any document, and all that was known still is. -/
theorem of_quiet (h : Link.Quiet l l') (hk : ∀ u, t.knows u = true → t'.knows u = true) :
    Needs (t, l) (t', l') :=
  ⟨[], h, by simp, fun u => .nothing id id (hk u)⟩

theorem refl (s : Tracker × Link) : Needs s s := of_quiet (.refl s.2) fun _ => id

theorem trans (h : Needs s s') (h' : Needs s' s'') : Needs s s'' := by
  obtain ⟨news, ht, hn, hm⟩ := h
  obtain ⟨more, ht', hn', hm'⟩ := h'
  refine ⟨news ++ more, ht.trans ht', by simp [hn, hn'], fun uri => ?_⟩
  have h₁ := hm uri
  have h₂ := hm' uri
  rw [List.filterMap_append]
  generalize news.filterMap (mark? uri) = ms at h₁ ⊢
  generalize more.filterMap (mark? uri) = ms' at h₂ ⊢
  -- a document that was announced is known, and so it is not announced again
  cases h₁ with
  | nothing _ _ hk =>
    cases h₂ with
    | nothing _ _ hk' => exact .nothing id id (hk' ∘ hk)
    | needed _ _ hu hk' =>
      refine .needed id id ?_ hk'
      cases ht : s.1.knows uri with
      | false => rfl
      | true => simp [hk ht] at hu
    | opened ho => exact ho.elim
    | closed hc => exact hc.elim
  | needed _ _ hu hk =>
    cases h₂ with
    | nothing _ _ hk' => exact .needed id id hu (hk' hk)
    | needed _ _ hu' => simp [hk] at hu'
    | opened ho => exact ho.elim
    | closed hc => exact hc.elim
  | opened ho => exact ho.elim
  | closed hc => exact hc.elim

/-- One document is announced because it is needed, and then it is only spoken of. -/
theorem of_announcement {more : List Told} (hk : t.knows d.identity = false)
    (ht : Link.Tells (d.opening :: more) l l') (hf : .forgotten ∉ more)
    (hm : ∀ uri, more.filterMap (mark? uri) = []) : Needs (t, l) (t.insert d.identity, l') := by
  refine ⟨_, ht, by simpa [Document.opening] using hf, fun uri => ?_⟩
  by_cases hu : d.identity = uri
  · subst hu
    have hmark : (d.opening :: more).filterMap (mark? d.identity) = [true] := by
      simp [Document.opening, mark?, hm]
    exact hmark ▸ .needed id id hk knows_insert
  · have hmark : (d.opening :: more).filterMap (mark? uri) = [] := by
      simp [Document.opening, mark?, hm, hu]
    exact hmark ▸ .nothing id id knows_mono

theorem of_announced {x : Except Failure Bool} (h : Announced d t l x s) : Needs (t, l) s := by
  cases h with
  | known => exact refl _
  | told hk ht => exact of_announcement hk ht (by simp) (by simp)
  | refused _ ht => exact of_quiet ht fun _ => id
  | unfit => exact of_quiet (.refl l) fun _ => knows_mono

theorem of_mentions {uri : String} (h : Mentions uri s s') : Needs s s' := by
  obtain ⟨ht, n, hn⟩ := h
  refine ⟨_, hn, by simp [List.mem_replicate], fun u => ?_⟩
  rw [marks_mentioned, ht]
  exact .nothing id id id

theorem of_used (h : Used d t l s) : Needs (t, l) s := by
  cases h with
  | mentioned hq ha hm =>
    exact (of_quiet hq fun _ => id).trans ((of_announced ha).trans (of_mentions hm))
  | failed hq ha => exact (of_quiet hq fun _ => id).trans (of_announced ha)

theorem of_changed {x : Except Failure Unit} (h : Relay.Changed e t l x s) : Needs (t, l) s := by
  cases h with
  | delta _ ht => exact ⟨_, ht, by simp, fun uri => .nothing id id id⟩
  | anew hk ht => exact of_announcement hk ht (by simp) fun uri => rfl
  | refused _ ht | unopened _ ht => exact of_quiet ht fun _ => id
  | halfway hk ht => exact of_announcement hk ht (by simp) (by simp)
  | unsendable => exact refl _
  | unfit => exact of_quiet (.refl l) fun _ => knows_mono

/-- A document that was opened is announced, unless there is no announcement of it. -/
theorem of_opened {x : Except Failure Unit} (hl : Open l) (h : Relay.Opened d t l x s) :
    Brings (fun uri => d.VersionFits ∧ d.identity = uri) (fun _ => False) (t, l) s := by
  cases h with
  | told ht hv =>
    refine ⟨_, ht, by simp [Document.opening], fun uri => ?_⟩
    by_cases hu : d.identity = uri
    · subst hu
      have hmark : [d.opening].filterMap (mark? d.identity) = [true] := by
        simp [Document.opening, mark?]
      exact hmark ▸ .opened ⟨hv, rfl⟩ id knows_insert
    · have hmark : [d.opening].filterMap (mark? uri) = [] := by
        simp [Document.opening, mark?, hu]
      exact hmark ▸ .nothing (fun h => hu h.2) id knows_mono
  | refused _ hf => exact (Delivers.not_refused hl hf).elim
  | unfit hv => exact ⟨[], .refl l, by simp, fun uri => .nothing (fun h => hv h.1) id id⟩

theorem of_closed {x : Except Failure Unit} (hl : Open l) (h : Relay.Closed d t l x s) :
    Brings (fun _ => False) (fun uri => d.identity = uri) (t, l) s := by
  cases h with
  | told ht =>
    refine ⟨_, ht, by simp, fun uri => ?_⟩
    by_cases hu : d.identity = uri
    · have hmark : [Told.closed d.identity].filterMap (mark? uri) = [false] := by simp [mark?, hu]
      exact hmark ▸ .closed hu id
    · have hmark : [Told.closed d.identity].filterMap (mark? uri) = [] := by simp [mark?, hu]
      refine hmark ▸ .nothing id hu fun hk => ?_
      exact Tracker.knows_iff.2 (Tracker.mem_erase.2 ⟨Tracker.knows_iff.1 hk, Ne.symm hu⟩)
  | refused _ hf => exact (Delivers.not_refused hl hf).elim

/-- It does not matter how it is said what is opened and what is closed. -/
theorem congr {o' c' : String → Prop} (h : Brings o c s s') (ho : ∀ uri, o' uri ↔ o uri)
    (hc : ∀ uri, c' uri ↔ c uri) : Brings o' c' s s' := by
  obtain rfl : o' = o := funext fun uri => propext (ho uri)
  obtain rfl : c' = c := funext fun uri => propext (hc uri)
  exact h

end Brings

/-! ### The relay and the queries -/

section Handlers

variable {r : Relay} {s : Tracker × Link}

theorem Relay.opened_brings (d : Document) (hl : Open s.2) : Ends (r.opened d) s fun _ =>
    Brings (fun uri => d.takesPart r.schemes = true ∧ d.VersionFits ∧ d.identity = uri)
      (fun _ => False) s := by
  by_cases h : d.takesPart r.schemes = true
  · refine (r.opened_ends h s.1 s.2).mono fun _ _ ho => ?_
    exact (Brings.of_opened hl ho).congr (by simp [h]) fun _ => .rfl
  · rw [r.opened_aside h]
    exact .pure ((Brings.refl s).congr (by simp [h]) fun _ => .rfl)

theorem Relay.closed_brings (d : Document) (hl : Open s.2) : Ends (r.closed d) s fun _ =>
    Brings (fun _ => False) (fun uri => d.takesPart r.schemes = true ∧ d.identity = uri) s := by
  by_cases h : d.takesPart r.schemes = true
  · refine (r.closed_ends h s.1 s.2).mono fun _ _ hc => ?_
    exact (Brings.of_closed hl hc).congr (fun _ => .rfl) (by simp [h])
  · rw [r.closed_aside h]
    exact .pure ((Brings.refl s).congr (fun _ => .rfl) (by simp [h]))

theorem Relay.changed_needs (e : ChangeEvent) : Ends (r.changed e) s fun _ => Needs s := by
  by_cases h : e.document.takesPart r.schemes = true
  · exact (r.changed_ends h s.1 s.2).mono fun _ _ => .of_changed
  · rw [r.changed_aside h]
    exact .pure (.refl s)

theorem Relay.saved_needs (d : Document) (hl : Open s.2) :
    Ends (r.saved d) s fun _ => Needs s := by
  by_cases h : d.takesPart r.schemes = true
  · have hr : s.2.recording = false → Json.Writable r.formatting := by simp [hl.1]
    exact (r.saved_ends h hr s.1).mono fun _ _ => .of_used
  · rw [r.saved_aside h]
    exact .pure (.refl s)

theorem Query.tracedAsk_needs (schemes : List String) (q : Query) (d : Document) (p : Position)
    (token : Option TokenId) : Ends (Query.tracedAsk schemes q d p token) s fun _ => Needs s := by
  by_cases h : d.takesPart schemes = true
  · exact (Query.tracedAsk_ends h s.1 s.2).mono fun _ _ => .of_used
  · exact (Query.tracedAsk_aside h s).mono fun _ _ hs => hs.2 ▸ .refl s

end Handlers

/-! ### The operations -/

namespace Workbench

variable {relay : Relay} {w w₁ w' : Workbench} {q : Question} {o c : String → Prop} {n : Name}

/-- The bridge stays set up, and a step has brought something. -/
def Turns (relay : Relay) (o c : String → Prop) (w w' : Workbench) : Prop :=
  SetUp relay w' ∧ Brings o c (w.tracker, w.link) (w'.tracker, w'.link)

/-- Nothing was opened or closed. -/
abbrev Spares (relay : Relay) : Workbench → Workbench → Prop :=
  Turns relay (fun _ => False) fun _ => False

namespace Spares

theorem refl (hw : SetUp relay w) : Spares relay w w := ⟨hw, .refl _⟩

theorem trans (h : Spares relay w w₁) (h' : Spares relay w₁ w') : Spares relay w w' :=
  ⟨h'.1, h.2.trans h'.2⟩

theorem of_noted (hw : SetUp relay w) (h : Noted w w') : Spares relay w w' := by
  obtain ⟨noted, rfl⟩ := h
  exact ⟨hw.noted ⟨noted, rfl⟩, .refl _⟩

theorem of_rewritten (hw : SetUp relay w) (h : Rewritten w w') : Spares relay w w' := by
  obtain ⟨documents, shelf, rfl⟩ := h
  exact ⟨⟨hw.1, hw.2, hw.3, hw.4, hw.5, hw.6, hw.7, hw.8, hw.9, hw.10, hw.11⟩, .refl _⟩

theorem of_quiet {l : Link} (hw : SetUp relay w) (h : Link.Quiet w.link l) :
    Spares relay w { w with link := l } :=
  ⟨⟨h.recording.trans hw.1, h.refusals.trans hw.2, hw.3, hw.4, hw.5, hw.6, hw.7, hw.8, hw.9,
    hw.10, hw.11⟩, .of_quiet h fun _ => id⟩

end Spares

/-- What was done to the tracker and the link was done to the bridge. -/
theorem turns_of_brings {s : Tracker × Link} (hw : SetUp relay w)
    (h : Brings o c (w.tracker, w.link) s) (noted : List Sighting) :
    Turns relay o c w { w with
      sightings := noted, trackers := w.trackers.setIfInBounds 0 s.1, link := s.2 } := by
  have htracker : Workbench.tracker { w with
      sightings := noted, trackers := w.trackers.setIfInBounds 0 s.1, link := s.2 } = s.1 :=
    tracker_of_set hw.trackers rfl
  rw [Turns, htracker]
  obtain ⟨news, ht, hm⟩ := h
  exact ⟨⟨ht.recording.trans hw.1, ht.refusals.trans hw.2, by simpa using hw.3, hw.4, hw.5, hw.6,
    hw.7, hw.8, hw.9, hw.10, hw.11⟩, news, ht, hm⟩

/-- An event brings what the relay makes of it, if the relay listens. -/
theorem turns_of_heard {a : Act (Tracker × Link) Unit} (hw : SetUp relay w)
    (ha : Ends a (w.tracker, w.link) fun _ => Brings o c (w.tracker, w.link))
    (hh : Heard a w w') :
    Turns relay (fun uri => w.Registered ∧ o uri) (fun uri => w.Registered ∧ c uri) w w' := by
  rcases hh with ⟨hreg, noted, s, hs, rfl⟩ | ⟨hreg, hnoted⟩
  · have hbrings : Brings (fun uri => w.Registered ∧ o uri) (fun uri => w.Registered ∧ c uri)
        (w.tracker, w.link) s := (hs.elim ha).congr (by simp [hreg]) (by simp [hreg])
    exact turns_of_brings hw hbrings noted
  · obtain ⟨hw', hneeds⟩ := Spares.of_noted hw hnoted
    exact ⟨hw', hneeds.congr (by simp [hreg]) (by simp [hreg])⟩

/-- An event that opens and closes nothing. -/
theorem spares_of_heard {a : Act (Tracker × Link) Unit} (hw : SetUp relay w)
    (ha : Ends a (w.tracker, w.link) fun _ => Needs (w.tracker, w.link)) (hh : Heard a w w') :
    Spares relay w w' := by
  obtain ⟨hw', h⟩ := turns_of_heard hw ha hh
  exact ⟨hw', h.congr (by simp) (by simp)⟩

/-- What is done to documents before an event. -/
private theorem rewriting_ends {α β : Type} {a : Act Workbench α} {f : α → Act Workbench β}
    [ha : Keeps Rewritten a] (hw : SetUp relay w) (hr : Rewritten w w₁)
    (hf : ∀ x w₂, Rewritten w w₂ → Ends (f x) w₂ (Comes True (Spares relay w) w)) :
    Ends (a >>= f) w₁ (Comes True (Spares relay w) w) := by
  refine .bind ((ha.ends w₁).mono fun r w₂ h => ?_)
  have hr' := trans_of Rewritten hr h
  cases r with
  | error f => exact fun _ => .inr (.of_rewritten hw hr')
  | ok x => exact hf x w₂ hr'

/-- Whatever document is edited, and however far the edits get. -/
theorem edit_spares (n : Name) (edits : List (Range × List Char)) (hw : SetUp relay w) :
    Ends (edit n edits) w (Comes True (Spares relay w) w) := by
  refine .read (.traced (rewriting_ends hw (refl_of Rewritten w) fun d _ h => ?_))
  refine rewriting_ends hw h fun cs _ h => rewriting_ends hw h fun _ w₂ h => .read ?_
  have hw₂ := (Spares.of_rewritten hw h).1
  refine .of_happened (fire_changed_ends d hw₂ cs) fun w' hh => ?_
  exact (Spares.of_rewritten hw h).trans (spares_of_heard hw₂ (Relay.changed_needs _) hh)

theorem replaceAll_spares (n : Name) (text : List Char) (hw : SetUp relay w) :
    Ends (replaceAll n text) w (Comes True (Spares relay w) w) := by
  refine .bind ((resolve_ends n w).mono fun r w' h => ?_)
  obtain ⟨rfl, -⟩ := h
  cases r with
  | error f => exact fun _ => .inl ⟨rfl, trivial⟩
  | ok d => exact .read (edit_spares _ _ hw)

/-! ### Queries -/

theorem askProxy_spares (kind : Query) (d : DocumentId) (p : Position) (token : Option TokenId)
    (hw : SetUp relay w) : Ends (askProxy 0 kind d p token) w fun _ => Spares relay w := by
  refine .read (.read ?_)
  rw [hw.proxy_eq]
  exact .on ((Query.tracedAsk_needs _ _ _ _ _).mono fun _ s h => turns_of_brings hw h w.sightings)

theorem ask_spares {r : Registration} (kind : Query) (q : Question)
    (hr : ∀ n, r.provider = .proxy n → n = 0) (hw : SetUp relay w) :
    Ends (ask r kind q) w fun _ => Spares relay w := by
  unfold ask
  cases hp : r.provider with
  | external n => exact (askInformant_ends n q w).mono fun _ _ h => .of_noted hw h
  | proxy n =>
    cases hr n hp
    exact askProxy_spares _ _ _ _ hw

/-- Asking one provider after the other. -/
theorem asking_spares {rs : List Registration} (kind : Query) (hrs : Known rs) (r : Registration)
    (hr : r ∈ rs) (w₁ : Workbench) (h : Spares relay w w₁) :
    Ends (ask r kind q) w₁ fun _ => Spares relay w :=
  (ask_spares kind q (hrs r hr) h.1).mono fun _ _ h' => h.trans h'

theorem askHover_spares (q : Question) (hw : SetUp relay w) :
    Ends (askHover q) w fun _ => Spares relay w :=
  .read (moreHovers_ends (asking_spares .hover (known_serving hw _ _)) (.refl hw) _)

theorem askCompletion_spares (q : Question) (trigger : Option String) (hw : SetUp relay w) :
    Ends (askCompletion q trigger) w fun _ => Spares relay w := by
  refine .read (moreCompletions_ends (asking_spares .completion fun r hr => ?_) (.refl hw) _)
  exact known_serving hw _ _ r (List.mem_filter.1 hr).1

/-- What is left of a query. -/
def OfQuery : Resumption → Prop
  | .traced _ _ | .answered _ _ | .converted _ => True
  | .hovers _ rest _ | .completions _ rest _ => Known rest
  | _ => False

theorem resume_spares {k : Resumption} (hk : OfQuery k) (r : Except Failure Reply)
    (hw : SetUp relay w) : Ends (resume k r) w fun _ => Spares relay w := by
  cases k with
  | traced l call =>
    have hkeeps : Keeps Eq (Step.afterCall l call r : Act Workbench Step) := inferInstance
    exact (hkeeps.ends w).mono fun _ _ h => h ▸ .refl hw
  | answered method token =>
    have hkeeps : Keeps Link.Quiet (Query.answered method token r) := inferInstance
    show Ends (onLink (Query.answered method token r)) w _
    unfold onLink
    exact .on ((hkeeps.ends w.link).mono fun _ _ => .of_quiet hw)
  | converted kind =>
    have hkeeps : Keeps Eq (Query.converted kind r : Act Workbench Step) := inferInstance
    exact (hkeeps.ends w).mono fun _ _ h => h ▸ .refl hw
  | hovers soFar rest q =>
    refine .bind (.ofExcept ?_)
    cases r with
    | error f => exact .refl hw
    | ok reply => exact moreHovers_ends (asking_spares .hover hk) (.refl hw) _
  | completions soFar rest q =>
    refine .bind (.ofExcept ?_)
    cases r with
    | error f => exact .refl hw
    | ok reply => exact moreCompletions_ends (asking_spares .completion hk) (.refl hw) _
  | _ => cases hk

/-! ### Opening and closing -/

/-- Closing a document does not rename it. -/
theorem uri_withoutDoc (d : DocumentId) : ((w.withoutDoc d).doc d).uri = (w.doc d).uri := by
  by_cases h : d < w.documents.size <;> simp [withoutDoc, withDoc, doc, h]

namespace Operation

/-- The relay hears that a document was opened, and there is an announcement of it. -/
def Opens (relay : Relay) (w : Workbench) (uri : String) : Operation → Prop
  | opening o => w.Registered ∧ ∃ u, o.Means w u ∧ w.shelf.lookup u = none ∧
    (o.document u).takesPart relay.schemes = true ∧ (o.document u).VersionFits ∧
    (o.document u).identity = uri
  | _ => False

/-- The relay hears that a document was closed. -/
def Closes (relay : Relay) (w : Workbench) (uri : String) : Operation → Prop
  | close n => w.Registered ∧ ∃ d, w.Names d n ∧ (w.doc d).takesPart relay.schemes = true ∧
    (w.doc d).identity = uri
  | _ => False

/-- What goes on is a query. -/
def Proper : Operation → Prop
  | resume k _ => OfQuery k
  | _ => True

variable {x : Operation}

theorem openDocument_turns (o : Opening) (hw : SetUp relay w) :
    Ends (openDocument o) w (Comes False
      (Turns relay (fun uri => (opening o).Opens relay w uri) (fun _ => False) w) w) := by
  refine (openDocument_ends o hw).mono fun r w' h hr => .inr ?_
  rcases h hr with ⟨rfl, hnone⟩ | ⟨u, hu, hl, hh⟩
  · refine ⟨hw, (Brings.refl _).congr (fun uri => ⟨?_, False.elim⟩) fun _ => .rfl⟩
    rintro ⟨-, u, hu, hl, -⟩
    exact hnone u hu hl
  · have hturns := turns_of_heard (hw.withNew u (o.document u))
      (Relay.opened_brings (o.document u) hw.open_link) hh
    refine ⟨hturns.1, Brings.congr hturns.2 (fun uri => ⟨?_, ?_⟩) (by simp)⟩
    · rintro ⟨hreg, u', hu', -, h⟩
      rw [hu'.unique hu] at h
      exact ⟨hreg, h⟩
    · exact fun h => ⟨h.1, u, hu, hl, h.2⟩

theorem close_turns (n : Name) (hw : SetUp relay w) :
    Ends (Workbench.close n) w (Comes False
      (Turns relay (fun _ => False) (fun uri => (close n).Closes relay w uri) w) w) := by
  refine (close_ends n hw).mono fun r w' h hr => .inr ?_
  rcases h hr with ⟨rfl, hnone⟩ | ⟨d, hd, hh⟩
  · refine ⟨hw, (Brings.refl _).congr (fun _ => .rfl) fun uri => ⟨?_, False.elim⟩⟩
    rintro ⟨-, d, hd, -⟩
    exact hnone d hd
  · have hturns := turns_of_heard (hw.withoutDoc d)
      (Relay.closed_brings ((w.withoutDoc d).doc d) hw.open_link) hh
    refine ⟨hturns.1, Brings.congr hturns.2 (by simp) fun uri => ?_⟩
    rw [Document.takesPart, Document.identity, uri_withoutDoc]
    refine ⟨?_, fun h => ⟨h.1, d, hd, h.2⟩⟩
    rintro ⟨hreg, d', hd', h⟩
    cases hd'.unique hd
    exact ⟨hreg, h⟩

/-- **Every operation** brings what it should: only opening and closing documents opens and
closes them. -/
theorem act_turns (hw : SetUp relay w) (hx : x.Proper) : Ends x.act w fun r w' =>
    (∀ f, r = .error f → f.isExit = false) →
      Turns relay (fun uri => x.Opens relay w uri) (fun uri => x.Closes relay w uri) w w' := by
  have hcomes {α : Type} {a : Act Workbench α} {N : Prop} {o c : String → Prop}
      (hN : N → Turns relay o c w w) (h : Ends a w (Comes N (Turns relay o c w) w)) :
      Ends (do let _ ← a) w fun r w' => (∀ f, r = .error f → f.isExit = false) →
        Turns relay o c w w' := by
    refine .bind (h.mono fun r w' h => ?_)
    have hturns (hr : ∀ f, r = .error f → f.isExit = false) : Turns relay o c w w' := by
      rcases h hr with ⟨rfl, hn⟩ | h
      · exact hN hn
      · exact h
    cases r with
    | ok _ => exact .pure fun _ => hturns nofun
    | error f => exact fun hf => hturns fun f' hf' => hf f' (by cases hf'; rfl)
  have hspares {α : Type} {a : Act Workbench α} (h : Ends a w fun _ => Spares relay w) :
      Ends (do let _ ← a) w fun r w' => (∀ f, r = .error f → f.isExit = false) →
        Spares relay w w' :=
    (Ends.ignore h).mono fun _ _ h _ => h
  have hrefl : True → Spares relay w w := fun _ => .refl hw
  cases x with
  | opening o => exact hcomes False.elim (openDocument_turns o hw)
  | close n => exact hcomes False.elim (close_turns n hw)
  | edit n edits => exact hcomes hrefl (edit_spares n edits hw)
  | insert n p text => exact hcomes hrefl (edit_spares n _ hw)
  | replaceAll n text => exact hcomes hrefl (replaceAll_spares n text hw)
  | save n =>
    refine hcomes hrefl ((save_ends n hw).mono fun r w' h hr => ?_)
    rcases h hr with ⟨rfl, -⟩ | ⟨d, -, hh⟩
    · exact .inl ⟨rfl, trivial⟩
    · have hsaved := spares_of_heard (hw.withDoc d _) (Relay.saved_needs _ hw.open_link) hh
      exact .inr ⟨hsaved.1, hsaved.2⟩
  | register =>
    refine (registerRelay_ends w).mono fun r w' h _ => ?_
    rcases h with rfl | rfl
    · exact Spares.refl hw
    · exact ⟨hw.listening, Brings.refl _⟩
  | askHover q => exact hspares (askHover_spares q hw)
  | askCompletion q trigger => exact hspares (askCompletion_spares q trigger hw)
  | askProxy kind d p token => exact hspares (askProxy_spares kind d p token hw)
  | resume k r => exact hspares (resume_spares hx r hw)

/-! ### Runs -/

/-- Something that was done: the operation, the bridge it was done to, and what the server had been
told by then. -/
structure Moment where
  workbench : Workbench
  told : List Told
  operation : Operation

/-- A document was opened that the server had open, or closed though the server did not have it
open. -/
def Moment.Misplaced (relay : Relay) (uri : String) (m : Moment) : Prop :=
  m.operation.Opens relay m.workbench uri ∧ IsOpen uri m.told ∨
    m.operation.Closes relay m.workbench uri ∧ ¬IsOpen uri m.told

/-- A run of the editor, what the server was told in it, and what was done in it since the server
stopped last. -/
inductive Course (relay : Relay) : Workbench → List Told → List Moment → Prop
  /-- The server knows nothing.  Documents may be open, and the relay may listen already. -/
  | start {w : Workbench} (hw : SetUp relay w) (hk : w.tracker.known = []) : Course relay w [] []
  /-- A request to end the program ends the run. -/
  | does {w : Workbench} {told : List Told} {past : List Moment} (h : Course relay w told past)
    (x : Operation) (hx : x.Proper) (j : Journal)
    (hend : ∀ f, (x.act ⟨j, w⟩).1 = .error f → f.isExit = false) :
    Course relay (x.act ⟨j, w⟩).2.state (told ++ w.link.news (x.act ⟨j, w⟩).2.state.link)
      (past ++ [⟨w, told, x⟩])
  /-- The server stops. -/
  | stopped {w : Workbench} {told : List Told} {past : List Moment} (h : Course relay w told past)
    (j : Journal) : Course relay (clearTracker 0 ⟨j, w⟩).2.state (told ++ [.forgotten]) []
  /-- Answers come, tokens are cancelled, time passes. -/
  | meanwhile {w : Workbench} {told : List Told} {past : List Moment} (h : Course relay w told past)
    {l : Link} (hl : Open l) (hheard : l.heard .recorder = w.link.heard .recorder) :
    Course relay { w with link := l } told past

variable {told : List Told} {past : List Moment}

/-- In a run, what is open is known. -/
structure Kept (relay : Relay) (told : List Told) (w : Workbench) : Prop where
  setUp : SetUp relay w
  knows : ∀ uri, IsOpen uri told → w.tracker.knows uri = true

/-- One step keeps it, and the marks go on taking turns unless it is misplaced. -/
theorem Kept.step (uri : String) (hk : Kept relay told w)
    (h : Turns relay (fun uri => x.Opens relay w uri) (fun uri => x.Closes relay w uri) w w') :
    Kept relay (told ++ w.link.news w'.link) w' ∧
      (Alternate (marks uri (told ++ w.link.news w'.link)) ↔
        Alternate (marks uri told) ∧ ¬Moment.Misplaced relay uri ⟨w, told, x⟩) := by
  obtain ⟨hw', news, ht, hf, hmarks⟩ := h
  rw [ht.news_eq hk.setUp.recording]
  -- a step says the same of every document, so both parts look at one
  have hone (uri : String) : (IsOpen uri (told ++ news) → w'.tracker.knows uri = true) ∧
      (Alternate (marks uri (told ++ news)) ↔
        Alternate (marks uri told) ∧ ¬Moment.Misplaced relay uri ⟨w, told, x⟩) := by
    have hknown := hk.knows uri
    have hm := hmarks uri
    unfold Moment.Misplaced
    rw [isOpen_iff] at hknown ⊢
    rw [isOpen_iff, marks_append hf]
    generalize news.filterMap (mark? uri) = ms at hm ⊢
    cases hm with
    | nothing ho hc hkeep => simpa [ho, hc] using fun h => hkeep (hknown h)
    | needed ho hc hu hu' =>
      have hclosed : (marks uri told).getLast? ≠ some true := fun h => by simp [hknown h] at hu
      rw [alternate_concat]
      simp [ho, hc, hu', hclosed]
    | opened ho hc hu' =>
      rw [alternate_concat]
      simp [ho, hc, hu']
    | closed hc ho =>
      rw [alternate_concat]
      simp [ho, hc]
  exact ⟨⟨hw', fun u => (hone u).1⟩, (hone uri).2⟩

theorem Course.kept (h : Course relay w told past) : Kept relay told w := by
  induction h with
  | start hw hk => exact ⟨hw, fun uri h => absurd h (not_isOpen_nil uri)⟩
  | does h x hx j hend ih => exact (ih.step "" (act_turns ih.setUp hx j hend)).1
  | @stopped w told past h j ih =>
    obtain ⟨-, hw'⟩ := clearTracker_ends 0 w j
    have hw := ih.setUp
    rw [hw']
    refine ⟨⟨hw.1, hw.2, by simpa using hw.3, hw.4, hw.5, hw.6, hw.7, hw.8, hw.9, hw.10, hw.11⟩,
      fun uri h => ?_⟩
    simp [isOpen_append_singleton, Told.opens, Told.ends] at h
  | meanwhile h hl hheard ih =>
    have hw := ih.setUp
    exact ⟨⟨hl.1, hl.2, hw.3, hw.4, hw.5, hw.6, hw.7, hw.8, hw.9, hw.10, hw.11⟩, ih.knows⟩

/-- **Announcements and closings alternate**, beginning with an announcement, exactly as long as no
document is opened that the server has open and none is closed that it does not have open.
Whatever is announced because it is needed, by a change, a save or a query, is in place. -/
theorem Course.alternate_iff (h : Course relay w told past) (uri : String) :
    Alternate (marks uri told) ↔ ∀ m ∈ past, ¬m.Misplaced relay uri := by
  induction h with
  | start => simp [marks, Alternate]
  | does h x hx j hend ih =>
    rw [(h.kept.step uri (act_turns h.kept.setUp hx j hend)).2, ih]
    simp [or_imp, forall_and]
  | stopped h j ih => simp [marks_concat, Alternate]
  | meanwhile h hl hheard ih => exact ih

/-- Operations, one after the other, if all of them come back. -/
def perform (r : Workbench × List Told × List Moment) :
    List Operation → Option (Workbench × List Told × List Moment)
  | [] => some r
  | x :: xs =>
    match x.act ⟨{}, r.1⟩ with
    | (.error _, _) => none
    | (.ok _, e) =>
      perform (e.state, r.2.1 ++ r.1.link.news e.state.link, r.2.2 ++ [⟨r.1, r.2.1, x⟩]) xs

theorem Course.perform {xs : List Operation} {r r' : Workbench × List Told × List Moment}
    (h : Course relay r.1 r.2.1 r.2.2) (hx : ∀ x ∈ xs, x.Proper)
    (hr : Operation.perform r xs = some r') : Course relay r'.1 r'.2.1 r'.2.2 := by
  induction xs generalizing r with
  | nil =>
    cases hr
    exact h
  | cons x xs ih =>
    obtain ⟨hx, hxs⟩ := List.forall_mem_cons.1 hx
    rw [Operation.perform] at hr
    split at hr
    · cases hr
    · rename_i u e heq
      have hdoes := h.does x hx {} fun f hf => by rw [heq] at hf; cases hf
      rw [heq] at hdoes
      exact ih hdoes hxs hr

/-- A run of the bare bridge, by the marks of a document. -/
theorem exists_course (uri : String) (xs : List Operation) (ms : List Bool)
    (hx : ∀ x ∈ xs, x.Proper)
    (hms : (perform (bare, [], []) xs).map (fun r => marks uri r.2.1) = some ms) :
    ∃ w told past, Course { schemes := ["file"], formatting := .null } w told past ∧
      marks uri told = ms := by
  obtain ⟨r, hr, hms⟩ := Option.map_eq_some_iff.1 hms
  exact ⟨r.1, r.2.1, r.2.2, (Course.start setUp_bare rfl).perform hx hr, hms⟩

/-- A file is opened by its name. -/
def openFile : Operation :=
  opening { name := .uri { scheme := "file", path := "/x" }, text := ['b'] }

/-- A file that was closed and then edited on is announced twice when it is opened again, and one
that is closed once more is closed twice. -/
theorem not_alternate_editedOn :
    (∃ w told past, Course { schemes := ["file"], formatting := .null } w told past ∧
      marks "file:///x" told = [true, false, true, true] ∧
      ¬Alternate (marks "file:///x" told)) ∧
    ∃ w told past, Course { schemes := ["file"], formatting := .null } w told past ∧
      marks "file:///x" told = [true, false, false] ∧ ¬Alternate (marks "file:///x" told) := by
  constructor
  · obtain ⟨w, told, past, h, hms⟩ := exists_course "file:///x"
      [register, openFile, close (.document 0), insert (.document 0) ⟨0, 0⟩ ['a'], openFile]
      [true, false, true, true] (by simp [Proper, openFile]) (by decide +kernel)
    exact ⟨w, told, past, h, hms, by simp [hms, Alternate]⟩
  · obtain ⟨w, told, past, h, hms⟩ := exists_course "file:///x"
      [register, openFile, close (.document 0), close (.document 0)]
      [true, false, false] (by simp [Proper, openFile]) (by decide +kernel)
    exact ⟨w, told, past, h, hms, by simp [hms, Alternate]⟩

/-- Editing a file after it was closed, and closing it again, is in place. -/
theorem alternate_iff_editedOn :
    ∃ w told past, Course { schemes := ["file"], formatting := .null } w told past ∧
      marks "file:///x" told = [true, false, true, false] ∧
      ∀ m ∈ past, ¬m.Misplaced { schemes := ["file"], formatting := .null } "file:///x" := by
  obtain ⟨w, told, past, h, hms⟩ := exists_course "file:///x"
    [register, openFile, close (.document 0), insert (.document 0) ⟨0, 0⟩ ['a'],
      close (.document 0)]
    [true, false, true, false] (by simp [Proper, openFile]) (by decide +kernel)
  exact ⟨w, told, past, h, hms, (h.alternate_iff _).1 (by simp [hms, Alternate])⟩

end Operation

end Workbench

end EditorBridge
