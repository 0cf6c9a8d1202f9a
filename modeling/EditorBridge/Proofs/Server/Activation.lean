/-
Activating, deactivating, and the end of the server.

The first activation makes the one tracker, and there is no way back to it: whoever sets up
a second one, or forgets the first, ends what is said here.  The tracker is cleared by the
extension when it hears that the server has stopped, and that is what makes up for the
client no longer having an end.
-/
import EditorBridge.Proofs.Server.Moves

namespace EditorBridge.Workbench

open Act (Keeps Ends Only Reads Plain Steps)
open Resumption (AllPlain)

variable {c : Option Turn} {u : Turn} {w w' : Workbench}

/-! ### Setting up -/

instance keeps_logExtension (text : String) : Keeps (Moves c c) (logExtension text) := by
  unfold logExtension
  infer_instance

/-- The bridge with one more tracker. -/
def withTracker (w : Workbench) : Workbench :=
  { w with
    trackers := w.trackers.push {}
    extension := { w.extension with tracker := some w.trackers.size } }

/-- The bridge with one more relay and query proxy, for the newest tracker. -/
def withRelay (w : Workbench) (r : Relay) : Workbench :=
  { w.withTracker with
    relays := w.relays.push { relay := r, tracker := w.trackers.size }
    proxies := w.proxies.push { schemes := r.schemes, tracker := w.trackers.size }
    extension := { w.withTracker.extension with
      relay := some w.relays.size
      proxy := some w.proxies.size }
    onStop := w.onStop.add .extension }

theorem getD_push {α : Type} [Inhabited α] (xs : Array α) (x : α) (n : Nat) :
    (xs.push x).getD n default = if n = xs.size then x else xs.getD n default := by
  by_cases hn : n = xs.size
  · simp [hn]
  · simp [Array.getElem?_push, hn]

/-- There is one tracker more, so an activation that lasts is the first. -/
theorem size_of_withTracker (h : w.withTracker.Lasting) : w.trackers.size = 0 := by
  rcases h with h | h
  · simp [withTracker] at h
  · simpa [withTracker] using h.1

theorem moves_withTracker (w : Workbench) : Moves c c w w.withTracker where
  documents := rfl
  lasting h := .inl (size_of_withTracker h)
  sound h hw := by
    have hnone := hw.wired.unset (size_of_withTracker h)
    rcases h with h | h
    · simp [withTracker] at h
    · simp [Active, withTracker, hnone] at h

/-- **The first activation** wires everything to the tracker it makes. -/
theorem moves_withRelay (w : Workbench) {r : Relay} (hr : Json.Writable r.formatting) :
    Moves c c w (w.withRelay r) := by
  have hlasting (h : (w.withRelay r).Lasting) : w.trackers.size = 0 := by
    rcases h with h | h
    · simp [withRelay, withTracker] at h
    · simpa [withRelay, withTracker] using h.1
  refine ⟨rfl, fun h => .inl (hlasting h), fun h hw => ?_⟩
  have hsize := hlasting h
  have hknown : (w.withRelay r).tracker = w.tracker := by
    have hnone : w.trackers.getD 0 default = {} := by
      simp [hsize]
      rfl
    show (w.trackers.push {}).getD 0 default = w.trackers.getD 0 default
    rw [getD_push, if_pos hsize.symm, hnone]
  refine ⟨⟨?_, ?_, hw.fit⟩, rfl, ?_⟩
  · rw [hknown]
    exact hw.link
  · constructor
    · intro n
      show ((w.relays.push _).getD n default).tracker = 0 ∧ _
      unfold withRelay
      rw [getD_push]
      split
      · exact ⟨hsize, hr⟩
      · exact hw.wired.relays n
    · intro n
      show ((w.proxies.push _).getD n default).tracker = 0
      rw [getD_push]
      split
      · exact hsize
      · exact hw.wired.proxies n
    · exact Event.nodup_add hw.wired.nodup
    · exact fun _ => Event.mem_add.2 (.inr rfl)
    · intro h
      simp [withRelay, withTracker] at h
  · unfold Idle
    rw [hknown]
    exact id

instance keeps_setUp : Keeps (Moves c c) setUp := by
  refine .of_ends fun w => .bind (.log (.read ?_))
  refine .bind (.read (.change_bind (.pure (.change_bind (.bind (.ofExcept ?_))))))
  cases hf : Relay.formattingOptions (Config.tabSize w.extension.config)
      (Config.insertSpaces w.extension.config) with
  | error f => exact moves_withTracker w
  | ok v =>
    refine .bind (.read (.change_bind (.pure (.bind (.read (.change_bind (.pure ?_)))))))
    refine .change_bind (.change ?_)
    exact moves_withRelay w (r := { schemes := _, formatOnSave := _, formatting := v })
      (Relay.writable_formattingOptions hf)

/-! ### Registering -/

instance keeps_setRegistered (n : Nat) (b : Bool) : Keeps (Moves c c) (setRegistered n b) :=
  Keeps.change fun _ => .of_rest rfl rfl rfl rfl rfl
    (fun k => ⟨Link.getD_modify RelayState.tracker rfl k, Link.getD_modify RelayState.relay rfl k⟩)
    rfl ⟨rfl, rfl⟩

instance keeps_onListeners (f : Event Listener → Event Listener) :
    Keeps (Moves c c) (onListeners f) :=
  Keeps.change fun _ => .of_rest rfl rfl rfl rfl rfl (fun _ => ⟨rfl, rfl⟩) rfl ⟨rfl, rfl⟩

instance keeps_registerRelay (n : Nat) : Keeps (Moves c c) (registerRelay n) := by
  unfold registerRelay
  infer_instance

instance keeps_unregisterRelay (n : Nat) : Keeps (Moves c c) (unregisterRelay n) := by
  unfold unregisterRelay
  infer_instance

instance keeps_onRegistrations (q : Query) (f : List Registration → List Registration) :
    Keeps (Moves c c) (onRegistrations q f) := by
  refine Keeps.change fun _ => ?_
  cases q <;> exact .of_rest rfl rfl rfl rfl rfl (fun _ => ⟨rfl, rfl⟩) rfl ⟨rfl, rfl⟩

/-- Whatever of the extension is not its tracker or its relay does not matter. -/
theorem keeps_onExtension {f : Extension → Extension} (ht : ∀ e, (f e).tracker = e.tracker)
    (hr : ∀ e, (f e).relay = e.relay) : Keeps (Moves c c) (onExtension f) :=
  Keeps.change fun _ => .of_rest rfl rfl rfl rfl rfl (fun _ => ⟨rfl, rfl⟩) rfl ⟨ht _, hr _⟩

instance keeps_triggers (triggers : List String) :
    Keeps (Moves c c) (onExtension fun e => { e with triggers }) :=
  keeps_onExtension (fun _ => rfl) fun _ => rfl

instance keeps_provide (q : Query) (r : Registration) : Keeps (Moves c c) (provide q r) := by
  have : Keeps (Moves c c) (onExtension fun e =>
      { e with registrations := e.registrations ++ [(q, r)] }) :=
    keeps_onExtension (fun _ => rfl) fun _ => rfl
  unfold provide register
  infer_instance

instance keeps_unregister (q : Query) (r : Registration) : Keeps (Moves c c) (unregister q r) := by
  unfold unregister
  infer_instance

instance keeps_required {α : Type} (part : String) (a : Option α) :
    Keeps (Moves c c) (required part a) := by
  unfold required
  split <;> infer_instance

instance keeps_listen : Keeps (Moves c c) listen := by
  unfold listen theRelay theProxy
  infer_instance

/-! ### The end of an activation -/

/-- An activation that is forgotten is over. -/
theorem moves_over (hlink : w'.link = w.link) (hdocs : w'.documents = w.documents)
    (hsize : w'.trackers.size = w.trackers.size) (hproxies : w'.proxies = w.proxies)
    (hrelays : w'.relays = w.relays)
    (hstop : w.onStop.listeners.Nodup → w'.onStop.listeners.Nodup)
    (hextension : w'.extension.tracker = none ∧ w'.extension.relay = none) : Moves c c w w' := by
  have hactive : ¬w'.Active := fun h => by simp [Active, hextension.1] at h
  have hlasting (h : w'.Lasting) : w.trackers.size = 0 := hsize ▸ h.resolve_right hactive
  refine ⟨hdocs, fun h => .inl (hlasting h), fun h hw => ?_⟩
  have hknown : w'.tracker = w.tracker := by
    simp [tracker, hsize, hlasting h]
  refine ⟨⟨?_, ?_, ?_⟩, ?_, ?_⟩
  · rw [hlink, hknown]
    exact hw.link
  · exact ⟨hrelays ▸ hw.wired.relays, hproxies ▸ hw.wired.proxies, hstop hw.wired.nodup,
      fun h => absurd h hactive, fun _ => hextension.2⟩
  · intro d
    rw [doc, hdocs]
    exact hw.fit d
  · rw [startCount, hlink]
    rfl
  · unfold Idle
    rw [hlink, hknown]
    exact id

instance keeps_forgetActivation : Keeps (Moves c c) forgetActivation := by
  refine .of_ends fun w => .change_bind (.read ?_)
  have hstop : w.onStop.listeners.Nodup → (w.onStop.remove .extension).listeners.Nodup :=
    fun h => List.filter_sublist.nodup h
  split
  · refine .bind ((clearTracker_ends _ _).mono fun r w' h => ?_)
    obtain ⟨rfl, rfl⟩ := h
    exact .change (moves_over rfl rfl (by simp) rfl rfl hstop ⟨rfl, rfl⟩)
  · exact .change (moves_over rfl rfl rfl rfl rfl hstop ⟨rfl, rfl⟩)

instance keeps_stopped (r : Except Failure Reply) : Keeps (Moves c c) (stopped r) := by
  unfold stopped
  infer_instance

instance keeps_deactivate : Keeps (Moves c c) deactivate := by
  have : Keeps (Moves c c) (onExtension fun e => { e with registrations := [] }) :=
    keeps_onExtension (fun _ => rfl) fun _ => rfl
  have hrest : Keeps (Moves c c) (do
      let rs := (← Act.state).extension.registrations
      onExtension fun e => { e with registrations := [] }
      for (q, r) in rs do unregister q r
      Step.calling (onLink Link.disconnect) .stopped stopped) := by
    refine .andThen fun w => .andThen fun _ => ?_
    refine @Keeps.bind _ _ _ _ _ _ _ (@Keeps.forIn _ _ _ _ _ _ _ _ fun x b => ?_)
      fun _ => inferInstance
    cases x
    infer_instance
  unfold deactivate
  refine .andThen fun w => ?_
  split
  · exact .andThen fun _ => hrest
  · exact hrest

instance keeps_tracedDeactivate : Keeps (Moves c c) tracedDeactivate := by
  unfold tracedDeactivate
  infer_instance

instance keeps_giveUp (f : Failure) : Keeps (Moves c c) (giveUp f) := by
  unfold giveUp failed
  infer_instance

instance keeps_ready (r : Except Failure Reply) : Keeps (Moves c c) (ready r) := by
  have : Keeps Link.Quiet Link.serverGreeting := by
    unfold Link.serverGreeting
    infer_instance
  unfold ready theProxy
  split <;> infer_instance

instance keeps_started (r : Except Failure Reply) : Keeps (Moves c c) (started r) := by
  unfold started
  refine .andThen fun x => ?_
  split <;> infer_instance

/-! ### Plain steps and starts -/

instance plain_stopped (r : Except Failure Reply) : Plain (stopped r) := by
  unfold stopped
  infer_instance

instance plain_tracedDeactivate : Plain tracedDeactivate := by
  unfold tracedDeactivate deactivate
  refine @Only.traced _ _ _ _ _ _ _ (.andThen fun w => ?_)
  split <;> infer_instance

instance plain_giveUp (f : Failure) : Plain (giveUp f) := by
  unfold giveUp failed
  infer_instance

instance plain_ready (r : Except Failure Reply) : Plain (ready r) := by
  unfold ready
  split <;> infer_instance

instance plain_started (r : Except Failure Reply) : Plain (started r) := by
  unfold started
  refine .andThen fun x => ?_
  split <;> infer_instance

/-- Setting up is followed by a start. -/
theorem steps_startUp (u : Turn) : Steps (Moves (some u) (some u)) (Begins u) startUp :=
  .bind Begins.after fun _ =>
    .calling Begins.after (steps_onLink (Link.steps_connect u)) fun _ => .of_plain

theorem steps_cleared (u : Turn) (r : Except Failure Reply) :
    Steps (Moves (some u) (some u)) (Begins u) (cleared r) :=
  .bind Begins.after fun _ => steps_startUp u

/-- **An activation** begins a start, at once or after what undoes an earlier one. -/
theorem steps_tracedActivate (u : Turn) :
    Steps (Moves (some u) (some u)) (Begins u) tracedActivate := by
  refine .traced Begins.after (.bind Begins.after fun w => ?_)
  split
  · exact .calling Begins.after .of_plain (steps_cleared u)
  · exact steps_startUp u

/-! ### The end of the server -/

/-- Nothing but noting happens, in which case the tracker is as it was. -/
def Ignored (w w' : Workbench) : Prop := ∃ l', Link.Quiet w.link l' ∧ w' = { w with link := l' }

/-- The extension has forgotten what the server knew. -/
def Forgotten (w w' : Workbench) : Prop := ∃ l', Link.Quiet w.link l' ∧ w' = { w with
  link := l'
  trackers := w.extension.tracker.elim w.trackers fun t => w.trackers.setIfInBounds t {} }

theorem hearStopped_observer_ends (w : Workbench) :
    Ends (hearStopped .observer) w fun _ => Ignored w := by
  have hquiet : Link.Quiet w.link { w.link with stops := w.link.stops + 1 } :=
    Link.quiet_rest rfl rfl rfl ⟨rfl, rfl, rfl⟩
  refine .bind (.on (.change (.read ?_)))
  split
  · exact .throw ⟨_, hquiet, rfl⟩
  · exact .pure ⟨_, hquiet, rfl⟩

theorem hearStopped_extension_ends (w : Workbench) :
    Ends (hearStopped .extension) w fun _ => Forgotten w := by
  refine .read ?_
  split
  · rename_i t ht
    refine .bind (.log ((clearTracker_ends t w).mono fun r w' h => ?_))
    refine ⟨w.link, .refl _, ?_⟩
    rw [h.2, ht]
    rfl
  · rename_i ht
    refine .pure ⟨w.link, .refl _, ?_⟩
    rw [Option.eq_none_iff_forall_ne_some.2 ht]
    rfl

/-- **Everybody hears that the server has stopped**, and the extension forgets what it knew. -/
theorem fireStopped_ends (hn : w.onStop.listeners.Nodup) : Ends fireStopped w fun r w' =>
    (∀ f, r = .error f → f.isExit = true) ∧
      ∀ xs, r = .ok xs → if .extension ∈ w.onStop.listeners then Forgotten w w' else Ignored w w' := by
  have hw : Ignored w w := ⟨w.link, .refl _, rfl⟩
  unfold fireStopped Event.dispatch
  refine .read ?_
  refine Event.callEach_ends (J := Forgotten w) hn ?_ ?_ ?_ hw
  · rintro k - hk w' ⟨l', hl, rfl⟩
    cases k with
    | extension => exact absurd rfl hk
    | observer =>
      refine (hearStopped_observer_ends _).mono fun r w'' h => ?_
      obtain ⟨l'', hl', rfl⟩ := h
      exact ⟨l'', hl.trans hl', rfl⟩
  · rintro k - hk w' ⟨l', hl, rfl⟩
    cases k with
    | extension => exact absurd rfl hk
    | observer =>
      refine (hearStopped_observer_ends _).mono fun r w'' h => ?_
      obtain ⟨l'', hl', rfl⟩ := h
      exact ⟨l'', hl.trans hl', rfl⟩
  · rintro w' ⟨l', hl, rfl⟩
    refine (hearStopped_extension_ends _).mono fun r w'' h => ?_
    obtain ⟨l'', hl', rfl⟩ := h
    exact ⟨l'', hl.trans hl', rfl⟩

/-- In an activation that lasts it is the one tracker that is cleared. -/
theorem known_cleared (h : w.Lasting) : ((w.extension.tracker.elim w.trackers fun t =>
    w.trackers.setIfInBounds t {}).getD 0 default).known = [] := by
  rcases h with h | h
  · have hnil (xs : Array Tracker) (hxs : xs.size = 0) : (xs.getD 0 default).known = [] := by
      simp [hxs]
      rfl
    cases w.extension.tracker <;> exact hnil _ (by simpa using h)
  · rw [h.1]
    exact List.eq_nil_iff_forall_not_mem.2 fun u hu => nomatch Moves.known_of_set rfl hu

/-- Without an end everything is in order again once nothing is known. -/
theorem moves_forgotten {l' : Link} {trackers : Array Tracker} (hs : l'.spawned.length = w.startCount)
    (hp : l'.client.peer = none) (hl : w.Sound c → l'.Sound c w.tracker)
    (hsize : trackers.size = w.trackers.size)
    (hknown : w.Lasting → w.Sound c → (trackers.getD 0 default).known = []) :
    Moves c c w { w with
      link := l'
      trackers := trackers } := by
  have hlasting (h : Lasting { w with
      link := l'
      trackers := trackers }) : w.Lasting := h.imp (hsize ▸ id) id
  refine ⟨rfl, hlasting, fun h hw => ?_⟩
  have hnil := hknown (hlasting h) hw
  have hnone : w.tracker.Follows [] (trackers.getD 0 default) :=
    .silence fun u hu => by rw [hnil] at hu; cases hu
  refine ⟨⟨⟨(hl hw).told (.refl l') hnone, fun _ _ => hnil⟩, ?_, hw.fit⟩, hs, fun _ => ⟨hp, hnil⟩⟩
  refine ⟨hw.wired.relays, hw.wired.proxies, hw.wired.nodup, hw.wired.heeds, fun h => ?_⟩
  exact hw.wired.unset (hsize ▸ h)

/-- **The end of the server process**, once everybody has heard of it, keeps the invariant. -/
theorem serverGone_ends (hw : w.Sound c) (exited : FutureId) : Ends (serverGone exited) w fun r w' =>
    (∀ f, r = .error f → f.isExit = false) → Moves c c w w' := by
  refine .bind (.on ((Link.processGone_ends exited hw.link).mono fun r l₁ h₁ => ?_))
  obtain ⟨hs, h₁⟩ := h₁
  cases r with
  | error f => exact fun _ => .of_settled fun _ => ⟨h₁.1, hs, h₁.2⟩
  | ok _ =>
    refine .bind ((fireStopped_ends (w := { w with link := l₁ }) hw.wired.nodup).mono
      fun r w' h => ?_)
    cases r with
    | error f =>
      intro hf
      have hexit := h.1 f rfl
      rw [hf f rfl] at hexit
      cases hexit
    | ok rs =>
      have hfired := h.2 rs rfl
      refine (logFailures_ends Client.logger rs w').mono fun r w'' hl => ?_
      obtain ⟨rfl, rfl⟩ := hl
      intro _
      split at hfired
      · obtain ⟨l', hl, rfl⟩ := hfired
        refine moves_forgotten (hl.spawned.trans hs) (hl.peer.trans h₁.2)
          (fun _ => h₁.1.told hl (.refl _)) ?_ fun hlasting _ => known_cleared hlasting
        cases w.extension.tracker <;> simp
      · rename_i hnot
        obtain ⟨l', hl, rfl⟩ := hfired
        refine moves_forgotten (hl.spawned.trans hs) (hl.peer.trans h₁.2)
          (fun _ => h₁.1.told hl (.refl _)) rfl fun hlasting hw => ?_
        rcases hlasting with hsize | hactive
        · simp [hsize]
          rfl
        · exact absurd (hw.wired.heeds hactive) hnot

end EditorBridge.Workbench
