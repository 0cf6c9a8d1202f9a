/-
Switching the extension on and off.

A call of `activate` or `deactivate` waits for the language client up to three times, and each
time it keeps what it has left to do.  That says how far it got: `Pending` gives for
everything that can be left to do of the extension's own the stage that the bridge is in.
Each of these things, whatever the client came to, leads from its stage to that of what is
left then, or ends the call.  So the induction is on what is left to do (`resumeAll_lands`),
and what the client has left to do in between does not matter.
-/
import EditorBridge.Editor.Run
import EditorBridge.Proofs.Extension.Wiring

namespace EditorBridge

open Act (Ends Only)

/-! ### What is left to do -/

namespace Resumption

/-- What the extension itself has left to do. -/
@[reducible] def own : Resumption → Bool
  | .cleared | .started | .ready | .failed _ | .stopped => true
  | _ => false

/-- What the language client has left to do when it is called by the extension. -/
@[reducible] def below : Resumption → Bool
  | .spawned .. | .reply | .inTime .. | .givenUp .. | .shutDown .. | .leaving .. | .left => true
  | .greeted _ | .traced .. => true
  | _ => false

theorem own_of_below {k : Resumption} (h : k.below = true) : k.own = false := by
  cases k <;> first | rfl | cases h

/-- Something that may be left to do, if the extension itself has so much left to do after it: the
client was called by somebody. -/
inductive Fits (fs : List Resumption) : Resumption → Prop
  | own {k : Resumption} (h : k.own = true) : Fits fs k
  | traced (l : Logger) (call : String) : Fits fs (.traced l call)
  | below {k : Resumption} (h : k.below = true) (hfs : fs ≠ []) : Fits fs k

/-- All that may be left to do, if the extension itself has so much left to do after it. -/
def Framed (fs : List Resumption) : List Resumption → Prop
  | [] => True
  | k :: ks => Fits (ks.filter own ++ fs) k ∧ Framed fs ks

variable {fs ks ks' : List Resumption}

theorem Framed.append (h : Framed (ks'.filter own ++ fs) ks) (h' : Framed fs ks') :
    Framed fs (ks ++ ks') := by
  induction ks with
  | nil => exact h'
  | cons k ks ih =>
    refine ⟨?_, ih h.2⟩
    show Fits ((ks ++ ks').filter own ++ fs) k
    rw [List.filter_append, List.append_assoc]
    exact h.1

theorem Framed.of_append (h : Framed fs (ks ++ ks')) : Framed fs ks' := by
  induction ks with
  | nil => exact h
  | cons k ks ih => exact ih h.2

theorem Framed.of_below (h : All below ks) (hfs : fs ≠ []) : Framed fs ks := by
  induction ks with
  | nil => trivial
  | cons k ks ih =>
    obtain ⟨hk, hks⟩ := List.forall_mem_cons.1 h
    exact ⟨.below hk (List.append_ne_nil_of_right_ne_nil _ hfs), ih hks⟩

theorem Framed.of_own {k : Resumption} (h : k.own = true) : Framed fs [k] := ⟨.own h, trivial⟩

end Resumption

open Resumption (All Fits Framed)

namespace Link

/-- What the server said when it was greeted. -/
def serverSaid (l : Link) : Wire :=
  if l.recording then (if l.recorder.started then l.recorder.greeting else .nothing)
  else l.client.greeted

instance reads_serverGreeting : Act.Reads serverGreeting serverSaid := ⟨fun _ => rfl⟩

instance below_connect : Only Resumption.below connect := by
  have hstart : Only Resumption.below start := by
    have hturn (p : PeerId) (f : FutureId) :
        Only Resumption.below (pure (.turn [.spawned p f]) : Act Link Step) :=
      .of_ends fun _ => .pure fun x hx => by cases hx; exact .singleton _
    unfold start
    infer_instance
  unfold connect tracedStart
  refine .andThen fun l => ?_
  split
  · refine .andThen fun _ => .andThen fun r => ?_
    split <;> infer_instance
  · infer_instance

instance below_connected : Only Resumption.below connected := by
  unfold connected
  infer_instance

instance below_disconnect : Only Resumption.below disconnect := by
  unfold disconnect
  infer_instance

end Link

namespace Workbench

variable {w w' : Workbench}

/-! ### How a step lands -/

section Landing

/-- What holds once a call that was begun comes to something: if it is over it is its result that
matters, and otherwise whatever it waits for can come to anything. -/
def Lands (D : List Resumption → Except Failure Reply → Workbench → Prop)
    (fs : List Resumption) : Except Failure Step → Workbench → Prop
  | .error f, w => D fs (.error f) w
  | .ok (.done r), w => D fs (.ok r) w
  | .ok (.wait _ ks), w | .ok (.turn ks), w =>
    Framed fs ks ∧ ∀ r, D (ks.filter Resumption.own ++ fs) r w

variable {D : List Resumption → Except Failure Reply → Workbench → Prop} {fs ks : List Resumption}
  {a : Act Workbench Step} {k : Resumption} {go : Except Failure Reply → Act Workbench Step}

/-- What is left of a call grows by what the caller has to do. -/
theorem Lands.append {ks' : List Resumption} (h : Framed ([k].filter Resumption.own ++ fs) ks' ∧
    ∀ r, D (ks'.filter Resumption.own ++ ([k].filter Resumption.own ++ fs)) r w)
    (hk : Framed fs [k]) : Framed fs (ks' ++ [k]) ∧
      ∀ r, D ((ks' ++ [k]).filter Resumption.own ++ fs) r w := by
  refine ⟨h.1.append hk, fun r => ?_⟩
  rw [List.filter_append, List.append_assoc]
  exact h.2 r

theorem lands_calling (ha : Ends a w (Lands D ([k].filter Resumption.own ++ fs)))
    (hk : Framed fs [k])
    (hgo : ∀ r w', D ([k].filter Resumption.own ++ fs) r w' → Ends (go r) w' (Lands D fs)) :
    Ends (Step.calling a k go) w (Lands D fs) := by
  refine .called (ha.mono fun r w' h => ?_)
  split
  · exact hgo _ _ h
  · exact hgo _ _ h
  · exact Lands.append h hk
  · exact Lands.append h hk

theorem lands_traced {l : Logger} {call : String} {arguments : Unit → List String}
    (ha : Ends a w (Lands D fs)) : Ends (Step.traced l call arguments a) w (Lands D fs) :=
  .recorded ha (fun _ _ => id) (fun _ _ _ h => Lands.append h ⟨.traced l call, trivial⟩)
    fun _ _ h => Lands.append h ⟨.traced l call, trivial⟩

/-- Whatever the client does and comes to, somebody of the extension waits for it. -/
theorem lands_onLink {a : Act Link Step} [ha : Only Resumption.below a] (hfs : fs ≠ [])
    (hD : ∀ l r, D fs r { w with link := l }) : Ends (onLink a) w (Lands D fs) := by
  have hnone {ks : List Resumption} (h : All Resumption.below ks) :
      ks.filter Resumption.own = [] :=
    List.filter_eq_nil_iff.2 fun k hk => by simp [Resumption.own_of_below (h k hk)]
  have hleft {l : Link} {ks : List Resumption} (h : All Resumption.below ks) :
      Framed fs ks ∧ ∀ r, D (ks.filter Resumption.own ++ fs) r { w with link := l } := by
    rw [hnone h]
    exact ⟨.of_below h hfs, fun r => hD l r⟩
  refine .on ((ha.ends w.link).mono fun r l h => ?_)
  match r, h with
  | .error f, _ => exact hD l _
  | .ok (.done x), _ => exact hD l _
  | .ok (.wait f ks), h => exact hleft (h _ rfl)
  | .ok (.turn ks), h => exact hleft (h _ rfl)

/-- **All that is left to do** is done one thing after the other. -/
theorem resumeAll_lands
    (h : ∀ k ks r w, Fits (ks.filter Resumption.own) k → D ((k :: ks).filter Resumption.own) r w →
      Ends (resume k r) w (Lands D (ks.filter Resumption.own)))
    {r : Except Failure Reply} (hks : Framed [] ks) (hD : D (ks.filter Resumption.own) r w) :
    Ends (resumeAll ks r) w (Lands D []) := by
  induction ks generalizing r w with
  | nil =>
    unfold resumeAll
    cases r with
    | ok x => exact .bind (.pure (.pure hD))
    | error f => exact .bind (.throw hD)
  | cons k ks ih =>
    have hfits := hks.1
    rw [List.append_nil] at hfits
    unfold resumeAll
    refine .bind (.outcome ((h k ks r w hfits hD).mono fun x w' hx => ?_))
    have hmore {more : List Resumption} (hm : Framed (ks.filter Resumption.own) more ∧
        ∀ r, D (more.filter Resumption.own ++ ks.filter Resumption.own) r w') :
        Framed [] (more ++ ks) ∧ ∀ r, D ((more ++ ks).filter Resumption.own ++ []) r w' := by
      refine ⟨.append (by rw [List.append_nil]; exact hm.1) hks.2, fun r => ?_⟩
      rw [List.append_nil, List.filter_append]
      exact hm.2 r
    dsimp only
    split
    · exact ih hks.2 hx
    · exact ih hks.2 hx
    · exact .pure (hmore hx)
    · exact .pure (hmore hx)

end Landing

/-! ### Stages of a call -/

/-- On or off. -/
inductive Switch where
  | on
  | off
  deriving DecidableEq, Repr

/-- The call that switches the extension on or off. -/
def Switch.act : Switch → Act Workbench Step
  | on => tracedActivate
  | off => tracedDeactivate

/-- The extension is active: it has one provider of hovers, one of proposals, one listener for each
event of a document and one for the end of the server, and its relay and its proxy share a
tracker, which was made after so many others. -/
def Engaged (config : Value) (since : Nat) (w : Workbench) : Prop :=
  ∃ t n p, since ≤ t ∧
    Stage config t n p [.hovering p] [.proposing p w.extension.triggers] [.relay n] w

/-- A deactivation is all that is left, or it is followed by a start or by a failure. -/
inductive Undoes : Switch → List Resumption → Prop
  | off : Undoes .off []
  | clearing : Undoes .on [.cleared]
  | failing (f : Failure) : Undoes .on [.failed f]

/-- The stage that a call is in, by what the extension has left to do and what comes of the call so
far.  There were so many trackers when the call began. -/
inductive Pending (config : Value) (since : Nat) (w : Workbench) :
    Switch → List Resumption → Except Failure Reply → Prop
  | active {r : Reply} (h : w.Engaged config since)
    (ht : w.extension.triggers = Link.triggersOf w.link.serverSaid) :
    Pending config since w .on [] (.ok r)
  | refused {f : Failure} (h : w.Inactive config) : Pending config since w .on [] (.error f)
  | undone {s : Switch} {fs : List Resumption} {r : Except Failure Reply} (hu : Undoes s fs)
    (h : w.Inactive config) : Pending config since w s fs r
  | stopping {s : Switch} {fs : List Resumption} {r : Except Failure Reply} (hu : Undoes s fs)
    (h : w.Stopping config) : Pending config since w s (.stopped :: fs) r
  | starting {r : Except Failure Reply} {t n p : Nat} (ht : since ≤ t)
    (h : w.Stage config t n p [] [] []) : Pending config since w .on [.started] r
  | waiting {r : Except Failure Reply} {t n p : Nat} (ht : since ≤ t)
    (h : w.Stage config t n p [.hovering p] [] [.relay n]) : Pending config since w .on [.ready] r

/-- What is due in a step of a call: the extension is discreet, and its stage is known. -/
structure Due (config : Value) (since : Nat) (w₀ : Workbench) (s : Switch) (fs : List Resumption)
    (r : Except Failure Reply) (w : Workbench) : Prop where
  discreet : Discreet w₀ w
  present : Present w
  since_le : since ≤ w.trackers.size
  pending : Pending config since w s fs r

section Steps

variable {config : Value} {since : Nat} {w₀ : Workbench} {s : Switch} {fs : List Resumption}
  {r : Except Failure Reply}

/-- Between two things that are left to do the client does what it likes. -/
theorem Due.link (h : Due config since w₀ s fs r w) (hfs : fs ≠ []) (l : Link)
    (r' : Except Failure Reply) : Due config since w₀ s fs r' { w with link := l } := by
  refine ⟨trans_of Discreet h.discreet (.of_link l), (Discreet.of_link l).present h.present,
    h.since_le, ?_⟩
  cases h.pending with
  | active | refused => exact absurd rfl hfs
  | undone hu hi => exact .undone hu ⟨hi.1, hi.2⟩
  | stopping hu hs => exact .stopping hu ⟨hs.1, hs.2, hs.3⟩
  | starting ht hs => exact .starting ht hs.link
  | waiting ht hs => exact .waiting ht hs.link

theorem Due.stopping (h : Due config since w₀ s (.stopped :: fs) r w) :
    Undoes s fs ∧ w.Stopping config := by
  cases h.pending with
  | undone hu _ => cases hu
  | stopping hu hs => exact ⟨hu, hs⟩

theorem Due.inactive (h : Due config since w₀ s fs r w) (hu : Undoes s fs) : w.Inactive config := by
  cases h.pending with
  | undone _ hi => exact hi
  | active | refused | stopping | starting | waiting => cases hu

/-- **A deactivation ends**, whatever came of stopping the client. -/
theorem stopped_lands (h : Due config since w₀ s (.stopped :: fs) r w) :
    Ends (stopped r) w (Lands (Due config since w₀ s) fs) := by
  obtain ⟨hu, hs⟩ := h.stopping
  unfold stopped
  refine .bind (hs.forgotten.mono fun x w' hx => ?_)
  obtain ⟨rfl, hd, hi⟩ := hx
  have hdue (r' : Except Failure Reply) : Due config since w₀ s fs r' w' :=
    ⟨trans_of Discreet h.discreet hd, hd.present h.present, Nat.le_trans h.since_le hd.size,
      .undone hu hi⟩
  cases r with
  | ok y => exact .bind (.pure (.pure (hdue _)))
  | error f => exact .bind (.throw (hdue _))

/-- **A deactivation** undoes whatever there is and stops the client. -/
theorem tracedDeactivate_lands (hu : Undoes s fs) (hd : Discreet w₀ w) (hp : Present w)
    (hsince : since ≤ w.trackers.size) (ha : w.Accounted) (hc : w.extension.config = config) :
    Ends tracedDeactivate w (Lands (Due config since w₀ s) fs) := by
  unfold tracedDeactivate
  refine lands_traced (ha.deactivate fun w' hd' hs => ?_)
  have hdue (r : Except Failure Reply) : Due config since w₀ s (.stopped :: fs) r w' :=
    ⟨trans_of Discreet hd hd', hd'.present hp, Nat.le_trans hsince hd'.size,
      .stopping hu (hc ▸ hs)⟩
  exact lands_calling (lands_onLink (List.cons_ne_nil _ _) fun l r =>
    (hdue r).link (List.cons_ne_nil _ _) l r) (.of_own rfl) fun r w'' h => stopped_lands h

theorem failed_lands {f : Failure} (h : Due config since w₀ .on [.failed f] r w) :
    Ends (failed f r) w (Lands (Due config since w₀ .on) []) := by
  have hdue (f' : Failure) : Due config since w₀ .on [] (.error f') w :=
    ⟨h.discreet, h.present, h.since_le, .refused (h.inactive (.failing f))⟩
  unfold failed
  cases r with
  | ok x => exact .bind (.pure (.throw (hdue f)))
  | error f' => exact .bind (.throw (hdue f'))

/-- **An activation that fails** is undone. -/
theorem giveUp_lands {f : Failure} (hd : Discreet w₀ w) (hp : Present w)
    (hsince : since ≤ w.trackers.size) (ha : w.Accounted) (hc : w.extension.config = config) :
    Ends (giveUp f) w (Lands (Due config since w₀ .on) []) :=
  lands_calling (tracedDeactivate_lands (.failing f) hd hp hsince ha hc) (.of_own rfl)
    fun _ _ h => failed_lands h

/-- **The server is ready**: proposals are registered with the characters that it asked for. -/
theorem ready_lands (h : Due config since w₀ .on [.ready] r w) :
    Ends (ready r) w (Lands (Due config since w₀ .on) []) := by
  obtain ⟨t, n, p, hsince, hs⟩ : ∃ t n p, since ≤ t ∧ w.Stage config t n p [.hovering p] [] [.relay n] := by
    cases h.pending with
    | undone hu _ => cases hu
    | waiting ht hs => exact ⟨_, _, _, ht, hs⟩
  unfold ready theProxy
  cases r with
  | error f => exact giveUp_lands h.discreet h.present h.since_le hs.accounted hs.config_eq
  | ok reply =>
    refine .read ?_
    generalize ht : Link.triggersOf w.link.serverSaid = triggers
    have hs' : Stage config t n p [.hovering p] [] [.relay n]
        { w with extension := { w.extension with triggers } } :=
      ⟨hs.1, hs.2, hs.3, hs.4, hs.5, hs.6, hs.7, hs.8, hs.9, hs.10, hs.11⟩
    have hd' : Discreet w { w with extension := { w.extension with triggers } } :=
      .of_roster rfl (fun hp => ⟨hp.proxies, hp.relays⟩) rfl rfl
    unfold onExtension
    refine .change_bind (.bind (.log (.bind (.read ?_))))
    rw [show w.extension.proxy = _ from hs.proxy]
    refine .pure (.bind ((hs'.provide (q := .completion) (r := .proposing p triggers) rfl).mono
      fun x w' hx => ?_))
    obtain ⟨rfl, hd'', hlink, htriggers, hs''⟩ := hx
    have hdiscreet := trans_of Discreet (trans_of Discreet h.discreet hd') hd''
    have hpresent := hd''.present (hd'.present h.present)
    refine .pure ⟨hdiscreet, hpresent, Nat.le_trans h.since_le (Nat.le_trans hd'.size hd''.size),
      .active ⟨t, n, p, hsince, ?_⟩ ?_⟩
    · rw [htriggers]
      exact hs''
    · rw [htriggers, hlink]
      exact ht.symm

/-- **The server is started**: documents are listened to and hovers are shown. -/
theorem started_lands (h : Due config since w₀ .on [.started] r w) :
    Ends (started r) w (Lands (Due config since w₀ .on) []) := by
  obtain ⟨t, n, p, hsince, hs⟩ : ∃ t n p, since ≤ t ∧ w.Stage config t n p [] [] [] := by
    cases h.pending with
    | undone hu _ => cases hu
    | starting ht hs => exact ⟨_, _, _, ht, hs⟩
  unfold started
  cases r with
  | error f =>
    exact .bind (.outcome (.bind (.throw
      (giveUp_lands h.discreet h.present h.since_le hs.accounted hs.config_eq))))
  | ok reply =>
    refine .bind (.outcome (.bind (.pure (hs.listen.mono fun x w' hx => ?_))))
    obtain ⟨rfl, hd, hs'⟩ := hx
    have hdue (r : Except Failure Reply) : Due config since w₀ .on [.ready] r w' :=
      ⟨trans_of Discreet h.discreet hd, hd.present h.present, Nat.le_trans h.since_le hd.size,
        .waiting hsince hs'⟩
    exact lands_calling (lands_onLink (List.cons_ne_nil _ _) fun l r =>
      (hdue r).link (List.cons_ne_nil _ _) l r) (.of_own rfl) fun r w'' h => ready_lands h

variable {v : Value}

/-- **An activation begins** with a new tracker, and the client is started. -/
theorem startUp_lands
    (hv : Relay.formattingOptions (Config.tabSize config) (Config.insertSpaces config) = .ok v)
    (hd : Discreet w₀ w) (hp : Present w) (hsince : since ≤ w.trackers.size)
    (hi : w.Inactive config) :
    Ends startUp w (Lands (Due config since w₀ .on) []) := by
  have hconfig : w.extension.config = config := congrArg Extension.config hi.extension
  unfold startUp
  refine .bind ((setUp_ends (hconfig ▸ hv)).mono fun x w' hx => ?_)
  obtain ⟨rfl, relay, rfl⟩ := hx
  obtain ⟨hd', hs⟩ := discreet_withRelay hp hi relay
  have hdue (r : Except Failure Reply) : Due config since w₀ .on [.started] r (w.withRelay relay) :=
    ⟨trans_of Discreet hd hd', hd'.present hp, Nat.le_trans hsince hd'.size, .starting hsince hs⟩
  exact lands_calling (lands_onLink (List.cons_ne_nil _ _) fun l r =>
    (hdue r).link (List.cons_ne_nil _ _) l r) (.of_own rfl) fun r w'' h => started_lands h

theorem cleared_lands
    (hv : Relay.formattingOptions (Config.tabSize config) (Config.insertSpaces config) = .ok v)
    (h : Due config since w₀ .on [.cleared] r w) :
    Ends (cleared r) w (Lands (Due config since w₀ .on) []) := by
  have hi := h.inactive .clearing
  unfold cleared
  cases r with
  | ok x => exact .bind (.pure (startUp_lands hv h.discreet h.present h.since_le hi))
  | error f => exact .bind (.throw ⟨h.discreet, h.present, h.since_le, .refused hi⟩)

/-- What the client has left to do and the records of calls change nothing about the stage. -/
theorem resume_below_lands {k : Resumption} (hk : Fits fs k) (hown : k.own = false)
    (h : Due config since w₀ s fs r w) : Ends (resume k r) w (Lands (Due config since w₀ s) fs) := by
  cases hk with
  | own hk => exact absurd hk (by simp [hown])
  | traced l call =>
    refine .afterCall ?_
    cases r <;> exact h
  | below hk hfs =>
    have hlink := h.link hfs
    cases k with
    | reply =>
      cases r with
      | ok x => exact .bind (.pure (.pure h))
      | error f => exact .bind (.throw h)
    | traced l call =>
      refine .afterCall ?_
      cases r <;> exact h
    | spawned | inTime | givenUp | shutDown | leaving | left | greeted =>
      simp only [resume]
      exact lands_onLink hfs hlink
    | _ => cases hk

/-- **One thing that is left to do**, from its stage to that of what is left then. -/
theorem resume_lands
    (hv : Relay.formattingOptions (Config.tabSize config) (Config.insertSpaces config) = .ok v)
    {k : Resumption} {ks : List Resumption} (hk : Fits (ks.filter Resumption.own) k)
    (h : Due config since w₀ s ((k :: ks).filter Resumption.own) r w) :
    Ends (resume k r) w (Lands (Due config since w₀ s) (ks.filter Resumption.own)) := by
  cases hown : k.own with
  | false =>
    rw [List.filter_cons_of_neg (by simp [hown])] at h
    exact resume_below_lands hk hown h
  | true =>
    rw [List.filter_cons_of_pos hown] at h
    generalize ks.filter Resumption.own = fs at *
    have hpending := h.pending
    cases k with
    | stopped => exact stopped_lands h
    | started =>
      cases hpending with
      | undone hu => cases hu
      | starting => exact started_lands h
    | ready =>
      cases hpending with
      | undone hu => cases hu
      | waiting => exact ready_lands h
    | cleared =>
      cases hpending with
      | undone hu =>
        cases hu
        exact cleared_lands hv h
    | failed f =>
      cases hpending with
      | undone hu =>
        cases hu
        exact failed_lands h
    | _ => cases hown

/-- **A call is begun** while the extension is active or while it is not. -/
theorem act_lands
    (hv : Relay.formattingOptions (Config.tabSize config) (Config.insertSpaces config) = .ok v)
    (hp : Present w) (h : w.Inactive config ∨ ∃ n, w.Engaged config n) (s : Switch) :
    Ends s.act w (Lands (Due config w.trackers.size w s) []) := by
  have hboth : w.Accounted ∧ w.extension.config = config := by
    rcases h with hi | ⟨_, t, n, p, -, hs⟩
    · exact ⟨hi.accounted, congrArg Extension.config hi.extension⟩
    · exact ⟨hs.accounted, hs.config_eq⟩
  cases s with
  | off => exact tracedDeactivate_lands .off (refl_of Discreet w) hp (Nat.le_refl _) hboth.1 hboth.2
  | on =>
    show Ends tracedActivate w _
    unfold tracedActivate activate
    refine lands_traced (.read ?_)
    split
    · exact lands_calling (tracedDeactivate_lands .clearing (refl_of Discreet w) hp (Nat.le_refl _) hboth.1 hboth.2)
        (.of_own rfl) fun _ _ h => cleared_lands hv h
    · rename_i hnone
      refine startUp_lands hv (refl_of Discreet w) hp (Nat.le_refl _) (h.resolve_right ?_)
      rintro ⟨_, t, n, p, -, hs⟩
      rw [hs.tracker] at hnone
      exact hnone rfl

end Steps

end Workbench

end EditorBridge
