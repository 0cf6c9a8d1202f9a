/-
One job of the loop.

A job gives an activity its turn, tells somebody that a future has ended, or lets a server
process do something.  A turn begins with what the link remembers of the activity and ends
when that is brought up to date, and nothing that happens in between is noticed by the other
activities.  The end of the server process is heard of in a job of its own.
-/
import EditorBridge.Proofs.Server.Resuming

namespace EditorBridge

open Act (Keeps Ends Reads)
open Resumption (Unscripted)

/-! ### Turns of the link -/

namespace Link

variable {c : Option Turn} {u : Turn} {t : Tracker} {l l' : Link} {ks : List Resumption}

theorem settleOpen_done (f : FutureId) (e : Ending Reply) (hf : f < l.loop.futures.size) :
    Ends (settleOpen f e) l fun _ l' => l'.loop.done f = true := by
  have hget : l.loop.futures[f]? = some l.loop.futures[f] := Array.getElem?_eq_getElem hf
  refine .read ?_
  split
  · rename_i lo hlo
    refine .change_bind (.pure ?_)
    simp only [Loop.settle?, hget] at hlo
    split at hlo
    · cases hlo
    · cases hlo
      exact Loop.done_iff.2 ⟨{ ending := some e }, by simp [hf], rfl⟩
  · rename_i hnone
    refine .pure (Loop.done_iff.2 ⟨_, hget, Classical.byContradiction fun hopen => ?_⟩)
    simp [Loop.settle?, hget, hopen] at hnone

/-- A turn is over when the activity has ended. -/
theorem endTurn_ends (u : Turn) (e : Ending Reply) :
    Ends (settleOpen u.outcome e) l fun _ => Steady (some u) none l := by
  refine Steady.ends fun t h => ?_
  have hlt : u.outcome < l.loop.futures.size := by
    obtain ⟨ht, ho⟩ := h.tasked.own u rfl
    exact ho ▸ h.tasked.outcomes _ ht
  refine ((settleOpen_done _ e hlt).and ((quiet_settleOpen _ e).ends l)).mono fun r l' h' => ?_
  obtain ⟨hd, hq⟩ := h'
  have hs := h.told hq (.refl t)
  have hover : Sound none t l' := { hs.toSound with tasked := hs.tasked.ended hd }
  exact ⟨⟨hover, hs.forgotten⟩, hq.spawned, hq.peer.trans⟩

/-- An activity that has not ended has its turn. -/
theorem steady_enter {i : TaskId} (hi : i < l.tasks.size)
    (ho : l.loop.done (l.tasks.getD i default).outcome = false) :
    Steady none (some (Turn.left ⟨i, (l.tasks.getD i default).outcome, []⟩
      (l.tasks.getD i default).rest)) l l := by
  intro t h
  exact ⟨⟨{ h.toSound with tasked := h.tasked.enter ⟨hi, .inr ho⟩ }, h.forgotten⟩, rfl, id⟩

/-- A turn is over when what the activity has left to do is remembered. -/
theorem steady_suspended {f : Task → Task} (ho : ∀ x, (f x).outcome = x.outcome)
    (hf : ∀ x, (f x).rest = ks) (hks : Unscripted ks) :
    Steady (some (u.left ks)) none l { l with tasks := l.tasks.modify u.task f } := by
  intro t h
  refine ⟨⟨{ h.toSound with
    tasked := h.tasked.suspended (u := u.left ks) ho (by rw [hf]; rfl)
    sendable := fun q hq => ?_
    unscripted := fun i hi k hk => ?_ }, h.forgotten⟩, rfl, id⟩
  · cases q <;> exact h.sendable _ hq
  · have hi : i < l.tasks.size := by simpa using hi
    by_cases heq : u.task = i
    · have hrest : ((l.tasks.modify u.task f).getD i default).rest = ks := by
        simp [heq, hi, Array.getElem_modify, hf]
      exact hks k (hrest ▸ hk)
    · have hrest : (l.tasks.modify u.task f).getD i default = l.tasks.getD i default := by
        simp [Array.getElem?_modify, heq]
      exact h.unscripted i hi k (hrest ▸ hk)

/-- A task may be changed, but neither what it has left to do nor the future of its outcome. -/
theorem quiet_modifyTask {i : TaskId} {f : Task → Task} (hr : ∀ x, (f x).rest = x.rest)
    (ho : ∀ x, (f x).outcome = x.outcome) :
    Quiet l { l with tasks := l.tasks.modify i f } := by
  refine .of_same rfl rfl rfl rfl ⟨.refl _, by simp, fun j hj => ?_, fun j hj hj' => ?_⟩
  · exact ⟨getD_modify Task.rest (hr _) j, getD_modify Task.outcome (ho _) j⟩
  · simp at hj'
    omega

end Link

/-! ### Tasks -/

namespace Workbench

variable {c : Option Turn} {u : Turn} {w w' : Workbench} {ks : List Resumption}

instance settles_onLink {α : Type} (a : Act Link α) [Keeps Link.Quiet a] :
    Keeps (Settles c c) (onLink a) :=
  Keeps.on (T := Link.Quiet) fun _ _ => .of_quiet

theorem settles_onTask {i : TaskId} {f : Task → Task} (hr : ∀ x, (f x).rest = x.rest)
    (ho : ∀ x, (f x).outcome = x.outcome) : Keeps (Settles c c) (onTask i f) := by
  unfold onTask onLink
  exact .of_ends fun w => .on (.change (.of_quiet (Link.quiet_modifyTask hr ho)))

/-- A turn is over when what is left to do is remembered. -/
theorem remember_ends {f : Task → Task} {a : Act Workbench Unit} (hf : ∀ x, (f x).rest = ks)
    (ho : ∀ x, (f x).outcome = x.outcome) (hks : Unscripted ks) [ha : Keeps (Settles none none) a] :
    Ends (onTask u.task f >>= fun _ => a) w fun _ => Settles (some (u.left ks)) none w := by
  unfold onTask onLink
  refine .bind (.on (.change ((ha.ends _).mono fun _ _ h => .trans ?_ h)))
  exact ⟨_, Link.steady_suspended ho hf hks, rfl, rfl⟩

/-- An activity waits for a future. -/
theorem suspend_ends (u : Turn) (f : FutureId) (hks : Unscripted ks) (w : Workbench) :
    Ends (suspend u.task f ks) w fun _ => Settles (some (u.left ks)) none w := by
  have hcancelled : Keeps (Settles none none)
      (onTask u.task fun task => { task with mustCancel := false }) :=
    settles_onTask (fun _ => rfl) fun _ => rfl
  unfold suspend
  exact remember_ends (fun _ => rfl) (fun _ => rfl) hks

/-- An activity lets the others have a turn, and is queued again. -/
theorem giveTurn_ends (u : Turn) (hks : Unscripted ks) (w : Workbench) :
    Ends (do
      onTask u.task fun task => { task with rest := ks }
      onLink (Link.soon (.step u.task))) w fun _ => Settles (some (u.left ks)) none w :=
  remember_ends (fun _ => rfl) (fun _ => rfl) hks

/-- An activity ends in its turn. -/
theorem endTask_ends (u : Turn) (r : Except Failure Reply) (w : Workbench) :
    Ends (endTask u.outcome r) w fun _ => Settles (some u) none w := by
  refine .bind (.on (((Link.endTurn_ends u _).and ((Link.quiet_settleOpen _ _).ends w.link)).mono
    fun x l h => ?_))
  have hs : Settles (some u) none w { w with link := l } := ⟨l, h.1, h.2.spawned, rfl⟩
  cases x with
  | error f => exact hs
  | ok b =>
    cases r with
    | ok reply => exact .pure hs
    | error f =>
      show Ends (if _ then _ else _) _ _
      split
      · exact .throw hs
      · exact .pure hs

instance reads_wakeUp (t : Task) : Reads (wakeUp t) fun w =>
    if t.mustCancel then .error .cancelled else match t.waitsFor with
      | none => .ok .nothing
      | some f => ((w.link.loop.ending? f).getD .cancelled).toExcept := by
  refine ⟨fun e => ?_⟩
  unfold wakeUp
  split
  · rfl
  · cases t.waitsFor <;> rfl

/-- What is done once an activity does not go on. -/
theorem turnOver_ends {i : TaskId} {x₀ : Task} {r : Except Failure Step}
    (hu : u = Turn.left ⟨i, x₀.outcome, []⟩ (remaining r))
    (hr : Unscripted (remaining r)) (w : Workbench) : Ends (do
      match r with
      | .ok (.done reply) =>
        if ((← Act.state).link.tasks.getD i default).mustCancel then
          endTask x₀.outcome (.error .cancelled)
        else endTask x₀.outcome (.ok reply)
      | .error f => endTask x₀.outcome (.error f)
      | .ok (.wait f rest) => suspend i f rest
      | .ok (.turn rest) =>
        onTask i fun task => { task with rest }
        onLink (Link.soon (.step i))) w fun _ => Settles (some u) none w := by
  subst hu
  cases r with
  | error f => exact endTask_ends _ (.error f) w
  | ok x =>
    cases x with
    | done reply =>
      refine .read ?_
      split <;> exact endTask_ends (Turn.left ⟨i, _, []⟩ []) _ w
    | wait f rest => exact suspend_ends ⟨i, x₀.outcome, []⟩ f hr w
    | turn rest => exact giveTurn_ends ⟨i, x₀.outcome, []⟩ hr w

/-- **A turn** of an activity, from its beginning to its end. -/
theorem stepTask_ends (i : TaskId) (hw : w.Sound none) :
    Ends (stepTask i) w fun _ => Proceeds none none w := by
  have hkeeps (c : Option Turn) : Keeps (Settles c c)
      (onTask i fun task => { task with waitsFor := none, mustCancel := false }) :=
    settles_onTask (fun _ => rfl) fun _ => rfl
  have hawake : Ends (onTask i fun task => { task with waitsFor := none, mustCancel := false }) w
      fun _ w' => ∀ c, Settles c c w w' := fun j c => (hkeeps c).ends w j
  refine .read (.read ?_)
  split
  · exact .pure (.moved (.refl w))
  rename_i hopen
  refine .read (.bind (hawake.mono fun r w₁ h₁ => ?_))
  cases r with
  | error f => exact .moved (h₁ none).moves
  | ok _ =>
  by_cases hi : i < w.link.tasks.size
  · -- The turn begins with what the link remembers.
    have henter := Link.steady_enter hi (by simpa using hopen)
    have hks : Unscripted (w.link.tasks.getD i default).rest := hw.link.unscripted i hi
    generalize w.link.tasks.getD i default = x at henter hks ⊢
    have hbegun : Moves none _ w w₁ := (Moves.of_link henter).trans (h₁ _).moves
    refine .bind (.outcome ((resumeAll_ends ⟨i, x.outcome, []⟩ hks _ w₁).mono fun r w₂ h₂ => ?_))
    refine (turnOver_ends rfl h₂.1 w₂).mono fun _ w₃ h₃ => ?_
    exact (Proceeds.after hbegun h₂.2).settles h₃
  · -- Nobody has this number, so there is nothing to be done.
    have hx : w.link.tasks.getD i default = default := by simp [hi]
    rw [hx]
    have hend (r : Except Failure Reply) :
        Ends (endTask (default : Task).outcome r) w₁ fun _ => Proceeds none none w := by
      have hkeeps : Keeps (Settles none none) (endTask (default : Task).outcome r) := by
        unfold endTask
        cases r <;> infer_instance
      exact (hkeeps.ends w₁).mono fun _ _ h₂ => .moved ((h₁ none).trans h₂).moves
    refine .bind (.outcome (.bind (.ofExcept (.pure (.read ?_)))))
    split <;> exact hend _

/-! ### Callbacks and jobs -/

/-- What comes of something that does not end the program. -/
def Unless (P : Workbench → Prop) (r : Except Failure Unit) (w' : Workbench) : Prop :=
  (∀ f, r = .error f → f.isExit = false) → P w'

instance keeps_copyEnding (source target : FutureId) :
    Keeps Link.Quiet (copyEnding source target) := by
  unfold copyEnding
  refine .andThen fun e => ?_
  cases e <;> infer_instance

instance keeps_formatted {σ : Type} {R : σ → σ → Prop} [IsPreorder σ R] (uri : String)
    (e : Ending Reply) : Keeps R (Relay.formatted uri e) := by
  unfold Relay.formatted
  split <;> infer_instance

/-- **Telling somebody that a future ended** keeps the invariant, or begins a start. -/
theorem callBack_ends (k : Callback) (f : FutureId) (hw : w.Sound none) :
    Ends (callBack k f) w (Unless (Proceeds none none w)) := by
  have hkeeps {a : Act Workbench Unit} (ha : Keeps (Moves none none) a) :
      Ends a w (Unless (Proceeds none none w)) :=
    (ha.ends w).mono fun _ _ h _ => .moved h
  cases k with
  | wake t => exact (stepTask_ends t hw).mono fun _ _ h _ => h
  | gone => exact (serverGone_ends hw f).mono fun _ _ h hr => .moved (h hr)
  | formatted uri =>
    refine hkeeps (.andThen fun e => ?_)
    cases e <;> infer_instance
  | unregister t n =>
    refine hkeeps ?_
    unfold callBack
    infer_instance
  | release waiter | copy outer | forgetCopy inner | pass target =>
    refine hkeeps ?_
    unfold callBack
    infer_instance

/-- **A job** keeps the invariant, or begins a start. -/
theorem doJob_ends (j : Job) (hw : w.Sound none) :
    Ends (doJob j) w (Unless (Proceeds none none w)) := by
  have hkeeps {a : Act Workbench Unit} (ha : Keeps (Moves none none) a) :
      Ends a w (Unless (Proceeds none none w)) :=
    (ha.ends w).mono fun _ _ h _ => .moved h
  cases j with
  | step t => exact (stepTask_ends t hw).mono fun _ _ h _ => h
  | call k f => exact callBack_ends k f hw
  | release f | react p script id | die p code =>
    refine hkeeps ?_
    unfold doJob
    infer_instance

/-- A job that fails concerns nobody else, unless it ends the program. -/
theorem attempt_ends (j : Job) (hw : w.Sound none) :
    Ends (attempt j) w (Unless (Proceeds none none w)) := by
  refine .bind (.outcome ((doJob_ends j hw).mono fun r w' h => ?_))
  cases r with
  | ok _ => exact .pure fun _ => h nofun
  | error f =>
    show Ends (if _ then _ else _) _ _
    by_cases hf : f.isExit = true
    · rw [if_pos hf]
      refine .throw fun hr => ?_
      rw [hr f rfl] at hf
      cases hf
    · rw [if_neg hf]
      refine .pure fun _ => h ?_
      rintro _ ⟨⟩
      simpa using hf

/-- The loop without a job. -/
theorem quiet_next? {l : Link} {j : Job} {lo : Loop Reply Callback Job}
    (h : l.loop.next? = some (j, lo)) : Link.Quiet l { l with loop := lo } := by
  refine Link.quiet_loop ?_
  unfold Loop.next? at h
  split at h
  · cases h
  · cases h
    exact .of_futures rfl

/-- **The next job**, if there is one. -/
theorem settle_one_ends (hw : w.Sound none) :
    Ends (settle 1) w (Unless (Proceeds none none w)) := by
  refine .read ?_
  split
  · exact .pure fun _ => .moved (.refl w)
  · rename_i j lo h
    have hq : Settles none none w { w with link := { w.link with loop := lo } } :=
      .of_quiet (quiet_next? h)
    refine .bind (.on (.change (.bind ((attempt_ends j (hq.sound hw)).mono fun r w' h => ?_))))
    have hall (hr : ∀ f, r = .error f → f.isExit = false) : Proceeds none none w w' :=
      .after hq.moves (h hr)
    cases r with
    | ok _ => exact .pure fun _ => hall nofun
    | error f => exact hall

end Workbench

end EditorBridge
