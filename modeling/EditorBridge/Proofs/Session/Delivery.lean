/-
What a session prints.

A step of a script that was played delivers its outcome: it is kept, and a line is printed
about it unless it has no result.  `Delivers os` says of two states that exactly these
outcomes were delivered in between, in this order.  Delivering is the only thing that a
session prints with; whatever else goes on, in the extension, the editor or below, delivers
nothing.

Most of that goes on `Offstage`: it concerns documents, what trackers know of them, and the
link, and so leaves alone what the extension has registered, too.  This is shown of whatever
is done with documents, of queries and of the end of the server, and then nothing is delivered
by switching the extension on or off.
-/
import EditorBridge.Proofs.Extension.AllOrNothing
import EditorBridge.Proofs.Json.OneLine

namespace EditorBridge

open Act (Ends Keeps Reads)

/-- Whether it neither plays a script nor switches the extension on or off. -/
@[reducible] def Resumption.offstage : Resumption → Bool
  | .activate | .cleared | .started | .ready | .failed _ | .deactivate | .stopped => false
  | .play _ | .waited .. | .interrupting .. | .queried .. => false
  | .session _ | .sessionActive _ | .sessionPlayed | .sessionOver _ => false
  | _ => true

/-- What is printed about an outcome: a line with its data, unless it has no result. -/
def Outcome.line (f : Format) (o : Outcome) : String :=
  if o.result.isNull then ""
  else match f.render o.toValue with
    | .ok s => if s = "" then "" else s ++ "\n"
    | .error _ => ""

/-- **An outcome is printed as one line**, or not at all. -/
theorem Outcome.line_json (o : Outcome) :
    o.line .json = "" ∨ ∃ s, o.line .json = s ++ "\n" ∧ '\n' ∉ s.toList := by
  unfold Outcome.line
  split
  · exact .inl rfl
  split
  · rename_i s hs
    split
    · exact .inl rfl
    · refine .inr ⟨s, rfl, ?_⟩
      exact Json.unbroken_write rfl (by decide) (by decide) 0 _ s (mapError_ok_iff.1 hs)
  · exact .inl rfl

namespace Workbench

variable {w w' w'' : Workbench} {os os' : List Outcome}

/-! ### Deliveries -/

/-- How outcomes are printed, and what has been printed; nothing without a console. -/
def printed (w : Workbench) : Option (Format × String) :=
  w.console.map fun c => (c.format.getD .json, c.out)

/-- **Exactly these outcomes were delivered**: they are kept, and their lines are printed. -/
structure Delivers (os : List Outcome) (w w' : Workbench) : Prop where
  outcomes : w'.outcomes = w.outcomes ++ os
  printed : w'.printed = w.printed.map fun p => (p.1, p.2 ++ String.join (os.map (·.line p.1)))

namespace Delivers

theorem of_eq (ho : w'.outcomes = w.outcomes) (hc : w'.console = w.console) :
    Delivers [] w w' where
  outcomes := by rw [ho, List.append_nil]
  printed := by
    rw [Workbench.printed, Workbench.printed, hc]
    cases w.console <;> simp

theorem trans (h : Delivers os w w') (h' : Delivers os' w' w'') :
    Delivers (os ++ os') w w'' where
  outcomes := by rw [h'.outcomes, h.outcomes, List.append_assoc]
  printed := by
    rw [h'.printed, h.printed]
    cases w.printed <;> simp [String.append_assoc]

end Delivers

instance : IsPreorder Workbench (Delivers []) where
  refl _ := .of_eq rfl rfl
  trans _ _ _ h h' := h.trans h'

/-- The journal is printed to the error stream. -/
theorem flushJournal_ends (w : Workbench) : Ends flushJournal w fun r w' => r = .ok () ∧
    ∃ say : Console → Console, (∀ c, (say c).format = c.format ∧ (say c).out = c.out) ∧
      w' = { w with console := w.console.map say } := by
  refine fun j => ⟨rfl, fun c => if c.logs then
    { c with err := c.err ++ String.join (j.records.map Record.line) } else c, fun c => ?_, rfl⟩
  dsimp only
  split <;> exact ⟨rfl, rfl⟩

/-- A console prints the line of an outcome; if it fails, then there is none. -/
def Prints (c : Console) (o : Outcome) : Except Failure Console → Prop
  | .error _ => o.line (c.format.getD .json) = ""
  | .ok c' => c'.format = c.format ∧ c'.out = c.out ++ o.line (c.format.getD .json)

/-- What is said about the progress does not count. -/
theorem Prints.of_progress {c : Console} {o : Outcome} {r : Except Failure Console}
    {message : String} (h : Prints (c.progress message) o r) : Prints c o r := by
  unfold Console.progress at h
  split at h <;> exact h

theorem prints_print (c : Console) (o : Outcome) :
    Prints c o (if o.result.isNull then pure c else c.print .json o.toValue) := by
  by_cases hnull : o.result.isNull = true
  · have hline (f : Format) : o.line f = "" := if_pos hnull
    rw [if_pos hnull]
    exact ⟨rfl, by rw [hline, String.append_empty]⟩
  rw [if_neg hnull, Console.print]
  unfold Prints Outcome.line
  rw [if_neg hnull]
  cases (c.format.getD .json).render o.toValue with
  | error f => rfl
  | ok s =>
    by_cases hs : s = ""
    · simp [hs]
    · simp [hs, String.append_assoc]

/-- **A step delivers its outcome**, and nothing else is changed. -/
theorem deliver_ends (o : Outcome) (w : Workbench) :
    Ends (deliver o) w fun _ w' => Delivers [o] w w' ∧ Aside w w' := by
  have hkept (console : Option Console) (hprinted : console.map (fun c => (c.format, c.out)) =
      w.console.map fun c => (c.format, c.out ++ o.line (c.format.getD .json))) :
      Delivers [o] w { w with
        outcomes := w.outcomes ++ [o]
        console } ∧ Aside w { w with
        outcomes := w.outcomes ++ [o]
        console } := by
    refine ⟨⟨rfl, ?_⟩, .of_eq rfl rfl (Nat.le_refl _) rfl rfl⟩
    have h := congrArg (Option.map fun p : Option Format × String => (p.1.getD .json, p.2)) hprinted
    simpa [printed, Function.comp_def] using h
  unfold deliver onConsole
  refine .change_bind (.read ?_)
  cases hc : w.console with
  | none => exact .pure (hc ▸ hkept none (by simp [hc]))
  | some c =>
    refine .bind ((flushJournal_ends _).mono fun r w₁ h => ?_)
    obtain ⟨rfl, say, hsay, rfl⟩ := h
    obtain ⟨hformat, hout⟩ := hsay c
    have hprinted (r : Except Failure Console) (hr : Prints (say c) o r) :
        Ends (do
          let c ← Act.ofExcept r
          Act.change fun w => { w with console := some c })
          { w with
            outcomes := w.outcomes ++ [o]
            console := some (say c) } fun _ w' => Delivers [o] w w' ∧ Aside w w' := by
      refine .bind (.ofExcept ?_)
      cases r with
      | error f => exact hkept (some (say c)) (by simp_all [Prints])
      | ok c' => exact .change (hkept (some c') (by simp_all [Prints]))
    refine .read ?_
    rw [Option.map_some]
    exact hprinted _ (prints_print _ o).of_progress

/-! ### Offstage -/

/-- Nothing is changed but documents, what trackers know of them, what was noted, and the link. -/
structure Offstage (w w' : Workbench) : Prop where
  extension : w'.extension = w.extension
  roster : w'.roster = w.roster
  trackers : w'.trackers.size = w.trackers.size
  relays : w'.relays = w.relays
  proxies : w'.proxies = w.proxies
  outcomes : w'.outcomes = w.outcomes
  console : w'.console = w.console

instance : IsPreorder Workbench Offstage where
  refl _ := ⟨rfl, rfl, rfl, rfl, rfl, rfl, rfl⟩
  trans _ _ _ h h' := ⟨h'.1.trans h.1, h'.2.trans h.2, h'.3.trans h.3, h'.4.trans h.4,
    h'.5.trans h.5, h'.6.trans h.6, h'.7.trans h.7⟩

theorem Offstage.aside (h : Offstage w w') : Aside w w' :=
  .of_eq h.extension h.roster (Nat.le_of_eq h.trackers.symm) h.relays h.proxies

theorem Offstage.delivers (h : Offstage w w') : Delivers [] w w' := .of_eq h.outcomes h.console

/-- Nothing is delivered offstage. -/
instance (priority := low) delivers_offstage {α : Type} (a : Act Workbench α)
    [h : Keeps Offstage a] : Keeps (Delivers []) a := h.mono fun _ _ h => h.delivers

instance offstage_onLink {α : Type} (a : Act Link α) : Keeps Offstage (onLink a) :=
  ⟨fun _ => ⟨rfl, rfl, rfl, rfl, rfl, rfl, rfl⟩⟩

instance offstage_onTracker {α : Type} (t : Nat) (a : Act (Tracker × Link) α) :
    Keeps Offstage (onTracker t a) :=
  ⟨fun _ => ⟨rfl, rfl, Array.size_setIfInBounds .., rfl, rfl, rfl, rfl⟩⟩

instance offstage_rewritten {α : Type} (a : Act Workbench α) [h : Keeps Rewritten a] :
    Keeps Offstage a := by
  refine h.mono fun w w' h => ?_
  obtain ⟨_, _, rfl⟩ := h
  exact ⟨rfl, rfl, rfl, rfl, rfl, rfl, rfl⟩

instance offstage_notice (s : Sighting) : Keeps Offstage (notice s) :=
  Keeps.change fun _ => ⟨rfl, rfl, rfl, rfl, rfl, rfl, rfl⟩

/-! ### Documents -/

instance offstage_observe (n : Nat) (o : Occasion) (d : DocumentId) :
    Keeps Offstage (observe n o d) := by
  refine .of_ends fun w => (observe_ends n o d w).mono fun _ w' h => ?_
  obtain ⟨_, rfl⟩ := h
  exact ⟨rfl, rfl, rfl, rfl, rfl, rfl, rfl⟩

instance offstage_relay (n : Nat) (call : String) (argument : Value)
    (a : Relay → Act (Tracker × Link) Unit) : Keeps Offstage (relay n call argument a) := by
  unfold relay
  infer_instance

instance offstage_hearOpened (d : DocumentId) (k : Listener) : Keeps Offstage (hearOpened d k) := by
  cases k <;> unfold hearOpened <;> infer_instance

instance offstage_hearChanged (d : DocumentId) (cs : List ContentChange) (k : Listener) :
    Keeps Offstage (hearChanged d cs k) := by
  cases k <;> unfold hearChanged <;> infer_instance

instance offstage_hearSaved (d : DocumentId) (k : Listener) : Keeps Offstage (hearSaved d k) := by
  cases k <;> unfold hearSaved <;> infer_instance

instance offstage_hearClosed (d : DocumentId) (k : Listener) : Keeps Offstage (hearClosed d k) := by
  cases k <;> unfold hearClosed <;> infer_instance

instance offstage_fire (e : Event Listener) (hear : Listener → Act Workbench Unit)
    [∀ k, Keeps Offstage (hear k)] : Keeps Offstage (fire e hear) := by
  have hdispatch : Keeps Offstage (e.dispatch (fun _ => return true) hear) := by
    unfold Event.dispatch
    infer_instance
  refine .andThen fun rs => .of_ends fun w => (logFailures_ends logger rs w).mono fun _ _ h => ?_
  exact h.2 ▸ refl_of Offstage w

instance offstage_call {α : Type} (name : String) (arguments : Workbench → List String)
    (a : Act Workbench α) [Keeps Offstage a] : Keeps Offstage (call name arguments a) := by
  unfold call
  infer_instance

instance offstage_openDocument (o : Opening) : Keeps Offstage (openDocument o) := by
  have hrest (u : Uri) : Keeps Offstage (openAt o u) := by
    unfold openAt
    refine .andThen fun found => ?_
    cases found with
    | some d => exact Keeps.pure d
    | none =>
      have (d : DocumentId) (x : Document) : Keeps Rewritten (Act.change fun w : Workbench =>
          { w with documents := w.documents.push x, shelf := w.shelf ++ [(u, d)] }) :=
        Keeps.change fun _ => ⟨_, _, rfl⟩
      exact .andThen fun _ => .andThen fun _ => inferInstance
  unfold openDocument
  refine @offstage_call _ _ _ _ ?_
  cases o.name with
  | text s => exact .andThen hrest
  | uri u => exact hrest u
  | document d => exact .andThen fun x => hrest x.uri

instance offstage_edit (n : Name) (edits : List (Range × List Char)) :
    Keeps Offstage (edit n edits) := by
  unfold edit
  infer_instance

instance offstage_replaceAll (n : Name) (text : List Char) :
    Keeps Offstage (replaceAll n text) := by
  unfold replaceAll
  infer_instance

instance offstage_save (n : Name) : Keeps Offstage (save n) := by
  unfold save
  infer_instance

instance offstage_close (n : Name) : Keeps Offstage (close n) := by
  unfold close
  infer_instance

/-! ### Queries -/

instance offstage_askInformant (n : Nat) (q : Question) : Keeps Offstage (askInformant n q) := by
  unfold askInformant
  refine .andThen fun w => .andThen fun d => .andThen fun b => .andThen fun _ => ?_
  split <;> infer_instance

instance offstage_askProxy (n : Nat) (kind : Query) (d : DocumentId) (p : Position)
    (token : Option TokenId) : Keeps Offstage (askProxy n kind d p token) := by
  unfold askProxy
  infer_instance

instance offstage_ask (r : Registration) (kind : Query) (q : Question) :
    Keeps Offstage (ask r kind q) := by
  unfold ask
  split <;> infer_instance

instance offstage_moreHovers (q : Question) (soFar : Hover) (rs : List Registration) :
    Keeps Offstage (moreHovers q soFar rs) := by
  induction rs generalizing soFar with
  | nil => exact Keeps.pure _
  | cons r rs ih =>
    unfold moreHovers
    infer_instance

instance offstage_moreCompletions (q : Question) (soFar : Option CompletionList)
    (rs : List Registration) : Keeps Offstage (moreCompletions q soFar rs) := by
  induction rs generalizing soFar with
  | nil => exact Keeps.pure _
  | cons r rs ih =>
    unfold moreCompletions
    infer_instance

instance offstage_askHover (q : Question) : Keeps Offstage (askHover q) := by
  unfold askHover serving
  infer_instance

instance offstage_askCompletion (q : Question) (trigger : Option String) :
    Keeps Offstage (askCompletion q trigger) := by
  unfold askCompletion serving
  infer_instance

instance offstage_converted (q : Query) (r : Except Failure Reply) :
    Keeps Offstage (Query.converted q r : Act Workbench Step) := by
  unfold Query.converted
  infer_instance

/-! ### The end of the server -/

instance offstage_logExtension (text : String) : Keeps Offstage (logExtension text) := by
  unfold logExtension
  infer_instance

instance offstage_clearTracker (n : Nat) : Keeps Offstage (clearTracker n) := by
  unfold clearTracker
  infer_instance

instance offstage_hearStopped (k : StopListener) : Keeps Offstage (hearStopped k) := by
  unfold hearStopped
  cases k with
  | observer =>
    refine .andThen fun _ => .andThen fun w => ?_
    split <;> infer_instance
  | extension =>
    refine .andThen fun w => ?_
    split <;> infer_instance

instance offstage_serverGone (exited : FutureId) : Keeps Offstage (serverGone exited) := by
  have hfire : Keeps Offstage fireStopped := by
    unfold fireStopped Event.dispatch
    infer_instance
  unfold serverGone
  refine .andThen fun _ => .andThen fun rs => .of_ends fun w => ?_
  exact (logFailures_ends Client.logger rs w).mono fun _ _ h => h.2 ▸ refl_of Offstage w

/-! ### What is left to do -/

/-- What is neither part of a script nor of switching the extension goes on offstage. -/
theorem resume_offstage {k : Resumption} (h : k.offstage = true) (r : Except Failure Reply) :
    Keeps Offstage (resume k r) := by
  cases k with
  | activate | cleared | started | ready | failed | deactivate | stopped => cases h
  | play | waited | interrupting | queried => cases h
  | session | sessionActive | sessionPlayed | sessionOver => cases h
  | _ =>
    unfold resume
    infer_instance

/-! ### The extension -/

instance delivers_onExtension (f : Extension → Extension) :
    Keeps (Delivers []) (onExtension f) := Keeps.change fun _ => .of_eq rfl rfl

instance delivers_onStop (f : Event StopListener → Event StopListener) : Keeps (Delivers [])
    (Act.change fun w : Workbench => { w with onStop := f w.onStop }) :=
  Keeps.change fun _ => .of_eq rfl rfl

instance delivers_onListeners (f : Event Listener → Event Listener) :
    Keeps (Delivers []) (onListeners f) := Keeps.change fun _ => .of_eq rfl rfl

instance delivers_setRegistered (n : Nat) (b : Bool) : Keeps (Delivers []) (setRegistered n b) :=
  Keeps.change fun _ => .of_eq rfl rfl

instance delivers_onRegistrations (q : Query) (f : List Registration → List Registration) :
    Keeps (Delivers []) (onRegistrations q f) := by
  refine Keeps.change fun _ => ?_
  cases q <;> exact .of_eq rfl rfl

instance delivers_newTracker : Keeps (Delivers []) newTracker :=
  .of_ends fun _ => .read (.change_bind (.pure (.of_eq rfl rfl)))

instance delivers_newRelay (r : Relay) (tracker : Nat) : Keeps (Delivers []) (newRelay r tracker) :=
  .of_ends fun _ => .read (.change_bind (.pure (.of_eq rfl rfl)))

instance delivers_newProxy (p : Proxy) : Keeps (Delivers []) (newProxy p) :=
  .of_ends fun _ => .read (.change_bind (.pure (.of_eq rfl rfl)))

instance delivers_required {α : Type} (part : String) (a : Option α) :
    Keeps (Delivers []) (required part a) := by
  unfold required
  split <;> infer_instance

instance delivers_registerRelay (n : Nat) : Keeps (Delivers []) (registerRelay n) := by
  unfold registerRelay
  infer_instance

instance delivers_unregisterRelay (n : Nat) : Keeps (Delivers []) (unregisterRelay n) := by
  unfold unregisterRelay
  infer_instance

instance delivers_register (q : Query) (r : Registration) : Keeps (Delivers []) (register q r) := by
  unfold register
  infer_instance

instance delivers_unregister (q : Query) (r : Registration) :
    Keeps (Delivers []) (unregister q r) := by
  unfold unregister
  infer_instance

instance delivers_provide (q : Query) (r : Registration) : Keeps (Delivers []) (provide q r) := by
  unfold provide
  infer_instance

instance delivers_setUp : Keeps (Delivers []) setUp := by
  unfold setUp
  refine .andThen fun _ => .andThen fun w => .andThen fun t => ?_
  refine .andThen fun _ => .andThen fun v => ?_
  refine .andThen fun r => .andThen fun p => .andThen fun _ => ?_
  infer_instance

instance delivers_listen : Keeps (Delivers []) listen := by
  unfold listen theRelay theProxy
  infer_instance

instance delivers_forgetActivation : Keeps (Delivers []) forgetActivation := by
  unfold forgetActivation
  refine .andThen fun _ => .andThen fun w => ?_
  split <;> infer_instance

instance delivers_stopped (r : Except Failure Reply) : Keeps (Delivers []) (stopped r) := by
  unfold stopped
  infer_instance

instance delivers_tracedDeactivate : Keeps (Delivers []) tracedDeactivate := by
  have hrest : Keeps (Delivers []) withdrawAll := by
    unfold withdrawAll
    refine .andThen fun w => .andThen fun _ => ?_
    refine @Keeps.bind _ _ _ _ _ _ _ (@Keeps.forIn _ _ _ _ _ _ _ _ fun x b => ?_)
      fun _ => inferInstance
    cases x
    infer_instance
  unfold tracedDeactivate
  refine @Keeps.tracedStep _ _ _ _ _ _ _ (.andThen fun w => ?_)
  split
  · exact .andThen fun _ => hrest
  · exact hrest

instance delivers_failed (f : Failure) (r : Except Failure Reply) :
    Keeps (Delivers []) (failed f r) := by
  unfold failed
  infer_instance

instance delivers_giveUp (f : Failure) : Keeps (Delivers []) (giveUp f) := by
  unfold giveUp
  infer_instance

instance delivers_ready (r : Except Failure Reply) : Keeps (Delivers []) (ready r) := by
  unfold ready theProxy
  split <;> infer_instance

instance delivers_started (r : Except Failure Reply) : Keeps (Delivers []) (started r) := by
  unfold started
  refine .andThen fun x => ?_
  split <;> infer_instance

instance delivers_startUp : Keeps (Delivers []) startUp := by
  unfold startUp
  infer_instance

instance delivers_cleared (r : Except Failure Reply) : Keeps (Delivers []) (cleared r) := by
  unfold cleared
  infer_instance

instance delivers_tracedActivate : Keeps (Delivers []) tracedActivate := by
  unfold tracedActivate activate
  infer_instance

/-- **Only scripts deliver**: whatever else is left to do, nothing is. -/
theorem resume_delivers {k : Resumption} (h : k.scripted = false) (r : Except Failure Reply) :
    Keeps (Delivers []) (resume k r) := by
  by_cases hk : k.offstage = true
  · have := resume_offstage hk r
    infer_instance
  · cases k with
    | play | waited | interrupting | queried => cases h
    | session | sessionActive | sessionPlayed | sessionOver => cases h
    | activate | cleared | started | ready | failed | deactivate | stopped =>
      unfold resume
      infer_instance
    | _ => exact absurd rfl hk

end Workbench

end EditorBridge
