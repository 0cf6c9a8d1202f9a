/-
The bridge while one activation lasts.

An activation makes a tracker, and the relay and the query proxy that go with it.  As long
as it is the only one there was, there is one tracker, and whoever tells the server
something tells it in step with that one.  `Workbench.Sound` is the invariant of the client
with this tracker, and what it takes to keep it: who works on which tracker (`Wired`), and
that the documents can be announced.

`Moves` is what nearly everything keeps: no document is changed, no start is begun, and the
invariant holds afterwards if it did before.  It says nothing once the activation is over,
and so it has to say that an activation that is over does not come back.

Hearing and asking move the bridge in this way while the server comes and goes.  Whatever the
relay hears of and whatever the editor asks, the tracker follows what is told, since every
document can be announced.  The other listeners and providers are from outside and tell the
server nothing.
-/
import EditorBridge.Proofs.Editor.Operations
import EditorBridge.Proofs.OpenBeforeUse
import EditorBridge.Proofs.Server.Stopping

namespace EditorBridge

open Act (Keeps Ends Reads Only Plain Steps Stepped)
open Json (Writable)

/-- Whatever may be set about formatting can be written. -/
theorem Relay.writable_formattingOptions {n : Int} {b : Bool} {v : Value}
    (h : Relay.formattingOptions n b = .ok v) : Writable v := by
  have hs : Wire.struct? "FormattingOptions" = some ⟨"FormattingOptions",
    [Wire.need "tabSize" .uint, Wire.need "insertSpaces" .flag,
      Wire.may "trimTrailingWhitespace" .flag, Wire.may "insertFinalNewline" .flag,
      Wire.may "trimFinalNewlines" .flag]⟩ := rfl
  unfold Relay.formattingOptions Wire.make at h
  simp only [hs, bind_ok_iff, mapError_ok_iff, Wire.assemble_ok_iff] at h
  obtain ⟨w, ⟨hfits, rfl⟩, h⟩ := h
  cases h
  have hn : 0 ≤ n ∧ n ≤ 2147483647 := hfits (Wire.need "tabSize" .uint) (.head _) _ _ _ rfl rfl
  show Writable (Value.table [("tabSize", .int n), ("insertSpaces", .bool b)])
  exact .table (by simp [Writable.int (Position.fit_of_inLimits hn), Writable.bool])

namespace Workbench

variable {c c' c'' : Option Turn} {u : Turn} {w w' w'' : Workbench} {l' : Link}

/-! ### The invariant -/

/-- The extension is active, for the first time. -/
def Active (w : Workbench) : Prop :=
  w.extension.tracker = some 0 ∧ w.extension.relay.isSome = true

/-- The extension was not activated yet, or is active for the first time. -/
def Lasting (w : Workbench) : Prop := w.trackers.size = 0 ∨ w.Active

/-- Every document can be announced. -/
def Fit (w : Workbench) : Prop := ∀ d, (w.doc d).VersionFits

/-- Whoever tells the server something works on the one tracker, and it is cleared when the server
stops. -/
structure Wired (w : Workbench) : Prop where
  relays : ∀ n, (w.relays.getD n default).tracker = 0 ∧
    Writable (w.relays.getD n default).relay.formatting
  proxies : ∀ n, (w.proxies.getD n default).tracker = 0
  nodup : w.onStop.listeners.Nodup
  heeds : w.Active → .extension ∈ w.onStop.listeners
  unset : w.trackers.size = 0 → w.extension.relay = none

/-- **The invariant of the bridge.** -/
structure Sound (c : Option Turn) (w : Workbench) : Prop where
  link : w.link.Settled c w.tracker
  wired : w.Wired
  fit : w.Fit

/-- Nobody is wired to the link itself. -/
theorem Sound.withLink (h : w.Sound c) (hl : l'.Settled c' w.tracker) :
    Sound c' { w with link := l' } := by
  obtain ⟨hrelays, hproxies, hnodup, hheeds, hunset⟩ := h.wired
  exact ⟨hl, ⟨hrelays, hproxies, hnodup, hheeds, hunset⟩, h.fit⟩

/-- There is no server, and nothing is known of one. -/
def Idle (w : Workbench) : Prop := w.link.client.peer = none ∧ w.tracker.known = []

/-- How many starts were begun. -/
def startCount (w : Workbench) : Nat := w.link.spawned.length

/-! ### What keeps it -/

/-- No document is changed and no start is begun, and the invariant is kept. -/
structure Moves (c c' : Option Turn) (w w' : Workbench) : Prop where
  documents : w'.documents = w.documents
  lasting : w'.Lasting → w.Lasting
  sound : w'.Lasting → w.Sound c →
    w'.Sound c' ∧ w'.startCount = w.startCount ∧ (w.Idle → w'.Idle)

namespace Moves

theorem refl (w : Workbench) : Moves c c w w := ⟨rfl, id, fun _ h => ⟨h, rfl, id⟩⟩

theorem trans (h : Moves c c' w w') (h' : Moves c' c'' w' w'') : Moves c c'' w w'' where
  documents := h'.documents.trans h.documents
  lasting := h.lasting ∘ h'.lasting
  sound hl hw := by
    obtain ⟨hw', hs, hi⟩ := h.sound (h'.lasting hl) hw
    obtain ⟨hw'', hs', hi'⟩ := h'.sound hl hw'
    exact ⟨hw'', hs'.trans hs, hi' ∘ hi⟩

instance : IsPreorder Workbench (Moves c c) where
  refl := refl
  trans _ _ _ := trans

/-- Only the link is changed. -/
theorem of_settled (h : w.Sound c → l'.Settled c' w.tracker ∧
      l'.spawned.length = w.link.spawned.length ∧
      (w.link.client.peer = none → l'.client.peer = none)) :
    Moves c c' w { w with link := l' } where
  documents := rfl
  lasting := id
  sound _ hw := by
    obtain ⟨hl, hs, hp⟩ := h hw
    exact ⟨hw.withLink hl, hs, fun hi => ⟨hp hi.1, hi.2⟩⟩

theorem of_link (h : Link.Steady c c' w.link l') : Moves c c' w { w with link := l' } :=
  of_settled fun hw => h w.tracker hw.link

instance onLink {α : Type} (a : Act Link α) [h : Keeps (Link.Steady c c) a] :
    Keeps (Moves c c) (onLink a) :=
  Keeps.on (T := Link.Steady c c) fun _ _ => of_link

/-- Of a tracker that is replaced, no more becomes known than it knows. -/
theorem known_of_set {t : Tracker} {n : Nat} {trackers : Array Tracker} (hn : n = 0) {uri : String}
    (h : uri ∈ ((trackers.setIfInBounds n t).getD 0 default).known) : uri ∈ t.known := by
  subst hn
  by_cases hsize : 0 < trackers.size
  · simpa [hsize] using h
  · have hnil : (trackers.setIfInBounds 0 t).getD 0 default = default := by simp [hsize]
    rw [hnil] at h
    cases h

/-- **The tracker follows** what is told. -/
theorem of_tracker {n : Nat} {s : Tracker × Link}
    (h : w.Sound c → n = 0 ∧ Goes True (w.tracker, w.link) s) :
    Moves c c w { w with trackers := w.trackers.setIfInBounds n s.1, link := s.2 } where
  documents := rfl
  lasting := Or.imp (fun h => by simpa using h) id
  sound _ hw := by
    obtain ⟨hn, news, ht, hf⟩ := h hw
    have hf := hf trivial
    have hless : s.1.Follows [] { w with
        trackers := w.trackers.setIfInBounds n s.1, link := s.2 }.tracker :=
      .silence fun _ => known_of_set hn
    refine ⟨⟨(hw.link.told ht hf).told (.refl _) hless, ?_, hw.fit⟩, ht.spawned, fun hi => ?_⟩
    · refine ⟨hw.wired.relays, hw.wired.proxies, hw.wired.nodup, hw.wired.heeds, fun h => ?_⟩
      exact hw.wired.unset (by simpa using h)
    · refine ⟨ht.peer.trans hi.1, hless.known_eq_nil ?_⟩
      have hnobody : w.link.ear = .nobody := by rw [Link.ear_eq hw.link.recording, hi.1]
      rw [ht.news_of_nobody hnobody] at hf
      exact hf.known_eq_nil hi.2

/-- What is neither said nor wired does not matter. -/
theorem of_rest (hlink : w'.link = w.link) (hdocs : w'.documents = w.documents)
    (hsize : w'.trackers.size = w.trackers.size) (hknown : w'.tracker = w.tracker)
    (hproxies : w'.proxies = w.proxies)
    (hrelays : ∀ n, (w'.relays.getD n default).tracker = (w.relays.getD n default).tracker ∧
      (w'.relays.getD n default).relay = (w.relays.getD n default).relay)
    (hstop : w'.onStop = w.onStop)
    (hextension : w'.extension.tracker = w.extension.tracker ∧
      w'.extension.relay = w.extension.relay) : Moves c c w w' := by
  obtain ⟨htracker, hrelay⟩ := hextension
  have hactive : w'.Active → w.Active := by
    unfold Active
    rw [htracker, hrelay]
    exact id
  refine ⟨hdocs, Or.imp (hsize ▸ id) hactive, fun _ hw => ⟨⟨?_, ?_, ?_⟩, ?_, ?_⟩⟩
  · rw [hlink, hknown]
    exact hw.link
  · refine ⟨fun n => ?_, hproxies ▸ hw.wired.proxies, hstop ▸ hw.wired.nodup, fun h => ?_, ?_⟩
    · rw [(hrelays n).1, (hrelays n).2]
      exact hw.wired.relays n
    · rw [hstop]
      exact hw.wired.heeds (hactive h)
    · rw [hsize, hrelay]
      exact hw.wired.unset
  · intro d
    rw [doc, hdocs]
    exact hw.fit d
  · rw [startCount, hlink]
    rfl
  · unfold Idle
    rw [hlink, hknown]
    exact id

end Moves

/-! ### Beginning a start -/

/-- A start was begun in a turn, and all is as it has to be if the tracker knows nothing. -/
structure Begins (u : Turn) (p : PeerId) (w w' : Workbench) : Prop where
  documents : w'.documents = w.documents
  lasting : w'.Lasting → w.Lasting
  sound : w'.Lasting → w.Sound (some u) → w.startCount < w'.startCount ∧
    (w.Idle → w'.tracker.known = []) ∧
    (w'.tracker.known = [] → w'.Sound (some { u with starts := p :: u.starts }))

theorem Begins.after (p : PeerId) (w w₁ w₂ : Workbench) (h : Moves (some u) (some u) w w₁)
    (h' : Begins u p w₁ w₂) : Begins u p w w₂ where
  documents := h'.documents.trans h.documents
  lasting := h.lasting ∘ h'.lasting
  sound hl hw := by
    obtain ⟨hw₁, hs, hi⟩ := h.sound (h'.lasting hl) hw
    obtain ⟨hs', hi', hw₂⟩ := h'.sound hl hw₁
    exact ⟨hs ▸ hs', hi' ∘ hi, hw₂⟩

theorem Begins.of_link {p : PeerId} (h : Link.Begins u p w.link l') :
    Begins u p w { w with link := l' } where
  documents := rfl
  lasting := id
  sound _ hw := by
    obtain ⟨hs, hl⟩ := h w.tracker hw.link
    exact ⟨hs, And.right, fun hk => hw.withLink (hl hk)⟩

/-- A step on the link begins a start for all if it does there. -/
theorem steps_onLink {a : Act Link Step}
    (h : Steps (Link.Steady (some u) (some u)) (Link.Begins u) a) :
    Steps (Moves (some u) (some u)) (Begins u) (onLink a) := by
  refine fun w => .on ((h w.link).mono fun r l hr => ?_)
  cases hr with
  | plain hR hx => exact .plain (.of_link hR) hx
  | start hx hks hS => exact .start hx hks (.of_link hS)

instance only_onLink {P : Resumption → Bool} (a : Act Link Step) [Only P a] : Only P (onLink a) :=
  Only.on _ _ a

instance plain_onTracker (n : Nat) (a : Act (Tracker × Link) Step) [Plain a] :
    Plain (onTracker n a) := by
  unfold onTracker
  infer_instance

/-! ### Hearing and asking -/

section Asking

variable {c : Option Turn} {w : Workbench} {d : DocumentId}

/-- What is done to the one tracker is followed by it. -/
theorem onTracker_moves {α : Type} {n : Nat} {a : Act (Tracker × Link) α}
    (h : w.Sound c → n = 0 ∧ Ends a (w.tracker, w.link) fun _ => Goes True (w.tracker, w.link)) :
    Ends (onTracker n a) w fun _ => Moves c c w := by
  intro j
  refine .of_tracker fun hw => ?_
  obtain ⟨rfl, ha⟩ := h hw
  exact ⟨rfl, ha j⟩

/-! ### Listeners -/

instance keeps_notice (s : Sighting) : Keeps (Moves c c) (notice s) :=
  Keeps.change fun _ => .of_rest rfl rfl rfl rfl rfl (fun _ => ⟨rfl, rfl⟩) rfl ⟨rfl, rfl⟩

instance keeps_observe (n : Nat) (o : Occasion) (d : DocumentId) :
    Keeps (Moves c c) (observe n o d) := by
  unfold observe
  refine .andThen fun w => .andThen fun x => .andThen fun _ => ?_
  split <;> infer_instance

/-- A relay does to the one tracker what it has to do. -/
theorem relay_moves {n : Nat} {name : String} {argument : Value}
    {a : Relay → Act (Tracker × Link) Unit}
    (h : w.Sound c → Ends (a (w.relays.getD n default).relay) (w.tracker, w.link) fun _ =>
      Goes True (w.tracker, w.link)) :
    Ends (relay n name argument a) w fun _ => Moves c c w :=
  .read (.traced (onTracker_moves fun hw => ⟨(hw.wired.relays n).1, h hw⟩))

instance keeps_hearOpened (d : DocumentId) (k : Listener) :
    Keeps (Moves c c) (hearOpened d k) := by
  cases k with
  | external n => exact keeps_observe n .opened d
  | relay n => exact .of_ends fun w => .read (relay_moves fun _ => Relay.opened_goes _ _ _)

instance keeps_hearChanged (d : DocumentId) (cs : List ContentChange) (k : Listener) :
    Keeps (Moves c c) (hearChanged d cs k) := by
  cases k with
  | external n => exact keeps_observe n .changed d
  | relay n =>
    refine .of_ends fun w => .read (relay_moves fun hw => ?_)
    exact (Relay.changed_goes _ _ _).mono fun _ _ hg => hg.mono fun _ _ => hw.fit d

instance keeps_hearSaved (d : DocumentId) (k : Listener) : Keeps (Moves c c) (hearSaved d k) := by
  cases k with
  | external n => exact keeps_observe n .saved d
  | relay n =>
    refine .of_ends fun w => .read (relay_moves fun hw => ?_)
    refine (Relay.saved_goes _ _ fun _ => (hw.wired.relays n).2).mono fun _ _ hg => ?_
    exact hg.mono fun _ _ => hw.fit d

instance keeps_hearClosed (d : DocumentId) (k : Listener) :
    Keeps (Moves c c) (hearClosed d k) := by
  cases k with
  | external n => exact keeps_observe n .closed d
  | relay n => exact .of_ends fun w => .read (relay_moves fun _ => Relay.closed_goes _ _ _)

/-- An event keeps what every listener keeps. -/
instance keeps_fire (e : Event Listener) (hear : Listener → Act Workbench Unit)
    [∀ k, Keeps (Moves c c) (hear k)] : Keeps (Moves c c) (fire e hear) := by
  unfold fire Event.dispatch
  refine .andThen fun rs => @Keeps.bind _ _ _ _ _ _ _ (@Keeps.forIn _ _ _ _ _ rs _ _ fun r b => ?_)
    fun _ => inferInstance
  split <;> infer_instance

/-! ### Providers -/

instance keeps_askProxy (n : Nat) (kind : Query) (d : DocumentId) (p : Position)
    (token : Option TokenId) : Keeps (Moves c c) (askProxy n kind d p token) := by
  refine .of_ends fun w => .read (.read (onTracker_moves fun hw => ⟨hw.wired.proxies n, ?_⟩))
  exact (Query.tracedAsk_goes _ _ _ _ _ _).mono fun _ _ hg => hg.mono fun _ _ => hw.fit d

instance keeps_askInformant (n : Nat) (q : Question) : Keeps (Moves c c) (askInformant n q) := by
  unfold askInformant
  refine .andThen fun w => .andThen fun x => .andThen fun b => .andThen fun _ => ?_
  dsimp only
  split <;> infer_instance

instance keeps_ask (r : Registration) (kind : Query) (q : Question) :
    Keeps (Moves c c) (ask r kind q) := by
  unfold ask
  split <;> infer_instance

instance keeps_moreHovers (q : Question) (soFar : Hover) (rs : List Registration) :
    Keeps (Moves c c) (moreHovers q soFar rs) := by
  induction rs generalizing soFar with
  | nil => exact Keeps.pure _
  | cons r rs ih =>
    unfold moreHovers
    infer_instance

instance keeps_moreCompletions (q : Question) (soFar : Option CompletionList)
    (rs : List Registration) : Keeps (Moves c c) (moreCompletions q soFar rs) := by
  induction rs generalizing soFar with
  | nil => exact Keeps.pure _
  | cons r rs ih =>
    unfold moreCompletions
    infer_instance

instance keeps_askHover (q : Question) : Keeps (Moves c c) (askHover q) := by
  unfold askHover serving
  infer_instance

instance keeps_askCompletion (q : Question) (trigger : Option String) :
    Keeps (Moves c c) (askCompletion q trigger) := by
  unfold askCompletion serving
  infer_instance

/-! ### Asking is plain -/

instance plain_ask (r : Registration) (kind : Query) (q : Question) : Plain (ask r kind q) := by
  have hproxy (n : Nat) (d : DocumentId) (p : Position) (token : Option TokenId) :
      Plain (askProxy n kind d p token) := by
    unfold askProxy
    infer_instance
  have hinformant (n : Nat) : Plain (askInformant n q) := by
    unfold askInformant
    refine .andThen fun w => .andThen fun x => .andThen fun b => .andThen fun _ => ?_
    dsimp only
    split <;> infer_instance
  unfold ask
  split <;> infer_instance

instance plain_moreHovers (q : Question) (soFar : Hover) (rs : List Registration) :
    Plain (moreHovers q soFar rs) := by
  induction rs generalizing soFar with
  | nil => exact Only.done _
  | cons r rs ih =>
    unfold moreHovers
    infer_instance

instance plain_moreCompletions (q : Question) (soFar : Option CompletionList)
    (rs : List Registration) : Plain (moreCompletions q soFar rs) := by
  induction rs generalizing soFar with
  | nil => exact Only.done _
  | cons r rs ih =>
    unfold moreCompletions
    infer_instance

end Asking

end Workbench

end EditorBridge
