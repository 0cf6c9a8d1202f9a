/-
A tracker that is shared keeps the server informed.

The relay and the queries work on one tracker, in any order, and any of their messages may
be refused.  Each of them lets the tracker follow what was told (`Goes`), with one
exception: a document that is announced only because it is needed must have a version the
protocol knows.  So the rule of the protocol holds of every run, as long as all documents
that may be announced that way have such a version, and it does not hold otherwise
(`openBeforeUse_iff`).
-/
import EditorBridge.Proofs.Handlers

namespace EditorBridge

open Act (Keeps Ends)
open Tracker (Follows Announced)

/-- Something was told, and the tracker followed, provided that a condition holds. -/
def Goes (p : Prop) (s s' : Tracker × Link) : Prop :=
  ∃ news, Link.Tells news s.2 s'.2 ∧ (p → s.1.Follows news s'.1)

namespace Goes

variable {p q : Prop} {s s' s'' : Tracker × Link} {t t' : Tracker} {l l' : Link} {d : Document}

theorem of_quiet (h : Link.Quiet l l') : Goes p (t, l) (t, l') := ⟨[], h, fun _ => .refl t⟩

theorem refl (s : Tracker × Link) : Goes p s s := of_quiet (.refl s.2)

theorem trans (h : Goes p s s') (h' : Goes p s' s'') : Goes p s s'' := by
  obtain ⟨news, ht, hf⟩ := h
  obtain ⟨more, ht', hf'⟩ := h'
  exact ⟨news ++ more, ht.trans ht', fun hp => (hf hp).trans (hf' hp)⟩

instance : IsPreorder (Tracker × Link) (Goes p) where
  refl := refl
  trans _ _ _ := trans

/-- A condition may be replaced by a stronger one. -/
theorem mono (h : Goes p s s') (hqp : q → p) : Goes q s s' := by
  obtain ⟨news, ht, hf⟩ := h
  exact ⟨news, ht, fun hq => hf (hqp hq)⟩

/-- An act on the link that is quiet says nothing that the tracker would have to follow. -/
instance onChannel {α : Type} (a : Act Link α) [Keeps Link.Quiet a] :
    Keeps (Goes p) (Tracker.onChannel a) := by
  refine Keeps.on (T := Link.Quiet) fun s l h => ?_
  exact of_quiet h

theorem of_opening (ht : Link.Tells [d.opening] l l') : Goes p (t, l) (t.insert d.identity, l') :=
  ⟨_, ht, fun _ => .announce⟩

/-- A document that is known may be mentioned any number of times. -/
theorem of_mentions {uri : String} (h : Mentions uri s s') (hk : uri ∈ s.1.known) :
    Goes p s s' := by
  obtain ⟨ht, n, hn⟩ := h
  refine ⟨_, hn, fun _ => ?_⟩
  rw [ht]
  clear hn
  induction n with
  | zero => exact .refl s.1
  | succ n ih =>
    rw [List.replicate_succ']
    refine ih.trans (.use (fun u hu => ?_) fun u hu => hu)
    cases hu
    exact hk

/-- **An announcement** lets the tracker follow, if the version of the document fits. -/
theorem of_announced {r : Except Failure Bool} (h : Announced d t l r s) :
    Goes d.VersionFits (t, l) s := by
  cases h with
  | known => exact refl _
  | told _ ht => exact of_opening ht
  | refused _ ht => exact of_quiet ht
  | unfit _ hv => exact ⟨[], .refl l, fun hv' => absurd hv' hv⟩

/-- A document that was announced is known. -/
theorem known_of_announced {b : Bool} (h : Announced d t l (.ok b) s) :
    d.identity ∈ s.1.known := by
  cases h with
  | known h => exact Tracker.knows_iff.1 h
  | told => exact Tracker.mem_insert.2 (.inr rfl)

theorem of_used (h : Used d t l s) : Goes d.VersionFits (t, l) s := by
  cases h with
  | mentioned hq ha hm =>
    exact (of_quiet hq).trans ((of_announced ha).trans (of_mentions hm (known_of_announced ha)))
  | failed hq ha => exact (of_quiet hq).trans (of_announced ha)

theorem of_opened {r : Except Failure Unit} (h : Relay.Opened d t l r s) : Goes p (t, l) s := by
  cases h with
  | told ht => exact of_opening ht
  | refused ht => exact of_quiet ht
  | unfit => exact refl _

theorem of_changed {e : ChangeEvent} {r : Except Failure Unit} (h : Relay.Changed e t l r s) :
    Goes e.document.VersionFits (t, l) s := by
  cases h with
  | delta hk ht =>
    refine ⟨_, ht, fun _ => .use (fun u hu => ?_) fun u hu => hu⟩
    cases hu
    exact Tracker.knows_iff.1 hk
  | anew _ ht =>
    have huse : Follows (t.insert e.document.identity)
        [.changed e.document.identity e.document.version [.whole e.document.text]]
        (t.insert e.document.identity) := by
      refine .use (fun u hu => ?_) fun u hu => hu
      cases hu
      exact Tracker.mem_insert.2 (.inr rfl)
    exact ⟨_, ht, fun _ => .trans .announce huse⟩
  | refused _ ht | unopened _ ht => exact of_quiet ht
  | halfway _ ht => exact of_opening ht
  | unsendable => exact refl _
  | unfit _ hv => exact ⟨[], .refl l, fun hv' => absurd hv' hv⟩

theorem of_closed {r : Except Failure Unit} (h : Relay.Closed d t l r s) : Goes p (t, l) s := by
  cases h with
  | told ht => exact ⟨_, ht, fun _ => .close⟩
  | refused ht => exact of_quiet ht

end Goes

/-! ### The relay and the queries -/

section Handlers

variable {p : Prop} {d : Document} {s : Tracker × Link}

theorem Relay.opened_goes (r : Relay) (d : Document) (s : Tracker × Link) :
    Ends (r.opened d) s fun _ => Goes p s := by
  by_cases h : d.takesPart r.schemes = true
  · exact (r.opened_ends h s.1 s.2).mono fun _ _ => .of_opened
  · rw [r.opened_aside h]
    exact .pure (.refl _)

theorem Relay.changed_goes (r : Relay) (e : ChangeEvent) (s : Tracker × Link) :
    Ends (r.changed e) s fun _ =>
      Goes (e.document.takesPart r.schemes = true → e.document.VersionFits) s := by
  by_cases h : e.document.takesPart r.schemes = true
  · exact (r.changed_ends h s.1 s.2).mono fun _ _ hc => (Goes.of_changed hc).mono fun hv => hv h
  · rw [r.changed_aside h]
    exact .pure (.refl _)

theorem Relay.saved_goes (r : Relay) (d : Document)
    (hr : s.2.recording = false → Json.Writable r.formatting) :
    Ends (r.saved d) s fun _ => Goes (d.takesPart r.schemes = true → d.VersionFits) s := by
  by_cases h : d.takesPart r.schemes = true
  · exact (r.saved_ends h hr s.1).mono fun _ _ hu => (Goes.of_used hu).mono fun hv => hv h
  · rw [r.saved_aside h]
    exact .pure (.refl _)

theorem Relay.closed_goes (r : Relay) (d : Document) (s : Tracker × Link) :
    Ends (r.closed d) s fun _ => Goes p s := by
  by_cases h : d.takesPart r.schemes = true
  · exact (r.closed_ends h s.1 s.2).mono fun _ _ => .of_closed
  · rw [r.closed_aside h]
    exact .pure (.refl _)

theorem Query.tracedAsk_goes (schemes : List String) (q : Query) (d : Document) (pos : Position)
    (token : Option TokenId) (s : Tracker × Link) :
    Ends (Query.tracedAsk schemes q d pos token) s fun _ =>
      Goes (d.takesPart schemes = true → d.VersionFits) s := by
  by_cases h : d.takesPart schemes = true
  · refine (Query.tracedAsk_ends h s.1 s.2).mono fun _ _ hu => ?_
    exact (Goes.of_used hu).mono fun hv => hv h
  · exact (Query.tracedAsk_aside h s).mono fun _ _ hs => hs.2 ▸ .refl _

end Handlers

/-! ### Runs -/

/-- What happens to those who share a tracker. -/
inductive Happening where
  | opened (r : Relay) (d : Document)
  | changed (r : Relay) (e : ChangeEvent)
  | saved (r : Relay) (d : Document)
  | closed (r : Relay) (d : Document)
  | asked (schemes : List String) (q : Query) (d : Document) (p : Position)
    (token : Option TokenId)
  /-- The answer to a query came. -/
  | answered (q : Query) (token : TokenId) (r : Except Failure Reply)

namespace Happening

/-- What is done when something happens. -/
def act : Happening → Act (Tracker × Link) Unit
  | opened r d => r.opened d
  | changed r e => r.changed e
  | saved r d => r.saved d
  | closed r d => r.closed d
  | asked schemes q d p token => do
    let _ ← Query.tracedAsk schemes q d p token
  | answered q token r => do
    let _ ← Step.calling (Query.onLink (Query.answered q.method token r)) (.converted q)
      (Query.converted q)

/-- The document that has to be known, and is announced if it is not. -/
def needs : Happening → Option Document
  | changed r e => if e.document.takesPart r.schemes then some e.document else none
  | saved r d => if d.takesPart r.schemes then some d else none
  | asked schemes _ d _ _ => if d.takesPart schemes then some d else none
  | _ => none

/-- A run, and what the server was told in it.  Documents of one kind only are announced because
they are needed. -/
inductive Run (P : Document → Prop) : Tracker × Link → List Told → Prop
  | start {l : Link} (h : l.recording = true) : Run P ({}, l) []
  | happens {s : Tracker × Link} {told : List Told} (h : Run P s told) (x : Happening)
    (hx : ∀ d ∈ x.needs, P d) (j : Journal) :
    Run P (x.act ⟨j, s⟩).2.state (told ++ s.2.news (x.act ⟨j, s⟩).2.state.2)
  /-- The server has stopped, or the extension is deactivated. -/
  | cleared {s : Tracker × Link} {told : List Told} (h : Run P s told) (j : Journal) :
    Run P ((Tracker.on Tracker.clear : Act (Tracker × Link) Unit) ⟨j, s⟩).2.state
      (told ++ [.forgotten])
  /-- Anything else: answers come, queries are cancelled, and it is decided anew which messages
  are refused. -/
  | meanwhile {t : Tracker} {l l' : Link} {told : List Told} (h : Run P (t, l) told)
    (hrec : l'.recording = true) (hheard : l'.heard .recorder = l.heard .recorder) :
    Run P (t, l') told

variable {P : Document → Prop} {s : Tracker × Link} {told : List Told} {x : Happening}

/-- **Whatever happens**, the tracker follows, if the version of the document in need fits. -/
theorem act_goes (x : Happening) (hrec : s.2.recording = true) :
    Ends x.act s fun _ => Goes (∀ d ∈ x.needs, d.VersionFits) s := by
  cases x with
  | opened r d => exact r.opened_goes d s
  | changed r e =>
    refine (r.changed_goes e s).mono fun _ _ hg => hg.mono fun hx h => ?_
    exact hx e.document (by simp [needs, h])
  | saved r d =>
    have hr : s.2.recording = false → Json.Writable r.formatting := by simp [hrec]
    refine (r.saved_goes d hr).mono fun _ _ hg => hg.mono fun hx h => ?_
    exact hx d (by simp [needs, h])
  | closed r d => exact r.closed_goes d s
  | asked schemes q d p token =>
    refine .ignore ((Query.tracedAsk_goes schemes q d p token s).mono fun _ _ hg => ?_)
    exact hg.mono fun hx h => hx d (by simp [needs, h])
  | answered q token r =>
    have hquiet {p : Prop} : Keeps (Goes p) (Query.onLink (Query.answered q.method token r)) := by
      unfold Query.onLink
      infer_instance
    have hall {p : Prop} : Keeps (Goes p) (answered q token r).act := by
      unfold act
      infer_instance
    exact hall.ends s

theorem clear_ends (s : Tracker × Link) :
    Ends (Tracker.on Tracker.clear) s fun _ s' => s' = ({}, s.2) :=
  .on ((Tracker.clear_ends s.1).mono fun _ _ h => by rw [h.2])

/-- In a run the recorder is never taken away. -/
theorem Run.recording (h : Run P s told) : s.2.recording = true := by
  induction h with
  | start h => exact h
  | @happens s told h x hx j ih =>
    obtain ⟨news, ht, -⟩ := act_goes x ih j
    exact ht.recording.trans ih
  | @cleared s told h j ih =>
    rw [clear_ends s j]
    exact ih
  | meanwhile h hrec => exact hrec

/-- In a run the tracker knows open documents only, and the rule was kept. -/
theorem Run.sound (hP : ∀ d, P d → d.VersionFits) (h : Run P s told) :
    s.1.Covers told ∧ OpenBeforeUse told := by
  induction h with
  | start h => exact ⟨Tracker.covers_empty [], openBeforeUse_nil⟩
  | @happens s told h x hx j ih =>
    obtain ⟨news, ht, hf⟩ := act_goes x h.recording j
    rw [ht.news_eq h.recording]
    exact hf (fun d hd => hP d (hx d hd)) told ih.1 ih.2
  | @cleared s told h j ih =>
    rw [clear_ends s j]
    exact Follows.forget (t := s.1) told ih.1 ih.2
  | meanwhile h hrec hheard ih => exact ih

/-! ### The exact condition -/

/-- A run goes on with what is known of how an act ends. -/
theorem Run.happened {Q : Except Failure Unit → Tracker × Link → Prop} (h : Run P s told)
    (hx : ∀ d ∈ x.needs, P d) (he : Ends x.act s Q) :
    ∃ r s', Q r s' ∧ Run P s' (told ++ s.2.news s'.2) :=
  ⟨_, _, he {}, h.happens x hx {}⟩

/-- A relay that takes note of documents with the scheme of one, and does not format them. -/
def relayOf (d : Document) : Relay :=
  { schemes := [d.uri.scheme], formatOnSave := false, formatting := .null }

theorem takesPart_relayOf (d : Document) : d.takesPart (relayOf d).schemes = true := by
  simp [Document.takesPart, relayOf]

/-- Saving a document that cannot be announced tells nothing, but has it known afterwards. -/
theorem saved_unfit {d : Document} {t : Tracker} {l : Link} (hv : ¬d.VersionFits)
    (hk : t.knows d.identity = false) (hrec : l.recording = true)
    (hfails : l.recorder.sendFails = []) :
    Ends ((relayOf d).saved d) (t, l) fun _ s => s.1 = t.insert d.identity ∧ Link.Quiet l s.2 := by
  have hr : l.recording = false → Json.Writable (relayOf d).formatting := by simp [hrec]
  refine (Relay.saved_ends (takesPart_relayOf d) hr t).mono fun _ s hs => ?_
  cases hs with
  | mentioned hq ha hm =>
    cases ha with
    | known hk' => simp [hk] at hk'
    | told _ _ hv' => exact absurd hv' hv
  | failed hq ha =>
    cases ha with
    | refused _ _ hf =>
      have hlookup := hf (hq.recording.trans hrec)
      rw [hq.refusals, hfails] at hlookup
      cases hlookup
    | unfit => exact ⟨rfl, hq⟩

/-- Saving it once more mentions a document that was never announced. -/
theorem exists_run_unfit {d : Document} (hd : P d) (hv : ¬d.VersionFits) :
    ∃ s, Run P s [.mentioned d.identity] := by
  have hneeds : ∀ x ∈ (saved (relayOf d) d).needs, P x := by
    simp [needs, takesPart_relayOf d, hd]
  obtain ⟨-, s₁, ⟨hk₁, hq₁⟩, h₁⟩ := (Run.start (P := P) (l := { recording := true }) rfl).happened
    hneeds (saved_unfit hv rfl rfl rfl)
  rw [hq₁.news_eq rfl] at h₁
  have hrec : s₁.2.recording = true := hq₁.recording
  have hknown : s₁.1.knows d.identity = true := by
    rw [Tracker.knows_iff, hk₁]
    exact Tracker.mem_insert.2 (.inr rfl)
  obtain ⟨r, s₂, ⟨-, hs₂⟩, h₂⟩ := h₁.happened hneeds
    (Relay.saved_known_ends (takesPart_relayOf d) rfl hknown)
  cases hs₂ with
  | sent ht =>
    rw [ht.news_eq hrec, d.told_mentioning _ (by decide)] at h₂
    exact ⟨s₂, h₂⟩
  | refused _ hf =>
    have hlookup := hf hrec
    rw [hq₁.refusals] at hlookup
    cases hlookup

/-- **Open before use** holds of all runs exactly if every document that is announced because it
is needed has a version that the protocol knows. -/
theorem openBeforeUse_iff {P : Document → Prop} :
    (∀ s told, Run P s told → OpenBeforeUse told) ↔ ∀ d, P d → d.VersionFits := by
  refine ⟨fun hall d hd => Classical.byContradiction fun hv => ?_, fun hP s told h => ?_⟩
  · obtain ⟨s, h⟩ := exists_run_unfit hd hv
    exact not_isOpen_nil _ (hall s _ h [] _ [] rfl d.identity rfl)
  · exact (h.sound hP).2

end Happening

end EditorBridge
