/-
The activities of a client take their turns.

Whatever an activity of a client does in its turn serves those who wait (`resumeAll_serves`),
and only what it has left to do afterwards is its own.  `Turned` says how a turn ends: the
activity is over, or it waits for a future and will be woken, or it is queued again.

Somebody who waits for a server to be ready is such an activity.  It waits for a future
that stands for readiness, and `Waiting` says that this future will end as soon as the
client's does.
-/
import EditorBridge.Proofs.Client.Queue
import EditorBridge.Proofs.Server.Jobs

namespace EditorBridge

open Act (Ends Keeps Only Reads)
open Resumption (All)

/-- A task of a link is changed. -/
def Link.rested (t : TaskId) (g : Task → Task) (l : Link) : Link :=
  { l with tasks := l.tasks.modify t g }

namespace Workbench

variable {w w' : Workbench} {t : TaskId}

/-- The link serves those who wait, and the same listen as before. -/
def Serves (w w' : Workbench) : Prop := w'.onStop = w.onStop ∧ w.link.Serves w'.link

instance : IsPreorder Workbench Serves where
  refl w := ⟨rfl, refl_of Link.Serves w.link⟩
  trans _ _ _ h h' := ⟨h'.1.trans h.1, trans_of Link.Serves h.2 h'.2⟩

instance serves_onLink {α : Type} (a : Act Link α) [Keeps Link.Serves a] : Keeps Serves (onLink a) :=
  Keeps.on (T := Link.Serves) fun _ _ h => ⟨rfl, h⟩

/-! ### Going on -/

/-- Whatever a client has left to do serves those who wait, and leaves no more than that. -/
theorem resume_serves {k : Resumption} (h : k.ofClient = true) (r : Except Failure Reply) :
    Keeps Serves (resume k r) ∧ Only Resumption.ofClient (resume k r) := by
  cases k with
  | traced | inTime | givenUp | reply | greet | greeted | await | stop | shutDown | leaving | left =>
    unfold resume
    exact ⟨inferInstance, inferInstance⟩
  | _ => cases h

theorem resumeAll_serves {rest : List Resumption} (h : All Resumption.ofClient rest)
    (r : Except Failure Reply) (w : Workbench) : Ends (resumeAll rest r) w fun x w' =>
      Serves w w' ∧ ∀ s, x = .ok s → All Resumption.ofClient s.rest := by
  induction rest generalizing r w with
  | nil =>
    unfold resumeAll
    refine .bind (.ofExcept ?_)
    cases r with
    | ok reply => exact .pure ⟨refl_of Serves w, by rintro s ⟨⟩; exact .nil⟩
    | error f => exact ⟨refl_of Serves w, fun s hs => by cases hs⟩
  | cons k ks ih =>
    obtain ⟨hk, hks⟩ := List.forall_mem_cons.1 h
    obtain ⟨hserves, honly⟩ := resume_serves hk r
    unfold resumeAll
    refine .bind (.outcome (((hserves.ends w).and (honly.ends w)).mono fun x w₁ h₁ => ?_))
    obtain ⟨h₁, hrest⟩ := h₁
    have hgo (r : Except Failure Reply) : Ends (resumeAll ks r) w₁ fun x w' =>
        Serves w w' ∧ ∀ s, x = .ok s → All Resumption.ofClient s.rest :=
      (ih hks r w₁).mono fun _ _ h₂ => ⟨trans_of Serves h₁ h₂.1, h₂.2⟩
    dsimp only
    split
    · exact hgo _
    · exact hgo _
    · exact .pure ⟨h₁, by rintro s ⟨⟩; exact (hrest _ rfl).append hks⟩
    · exact .pure ⟨h₁, by rintro s ⟨⟩; exact (hrest _ rfl).append hks⟩

/-! ### A turn -/

/-- A task is changed. -/
def rested (t : TaskId) (g : Task → Task) (w : Workbench) : Workbench :=
  { w with link := w.link.rested t g }

/-- An activity that came to this does not go on. -/
def Ceases : Except Failure Step → Prop
  | .error _ | .ok (.done _) => True
  | _ => False

/-- How a turn of an activity ends: the activity is over, or it waits for a future, or it is
queued again.  What is known of its steps is `Q`. -/
inductive Turned (t : TaskId) (Q : Except Failure Step → Workbench → Prop) (w w' : Workbench) : Prop
  | idle (hd : w.link.loop.done (w.link.tasks.getD t default).outcome = true) (h : w' = w)
  | ended {r : Except Failure Step} {w₁ : Workbench} (hQ : Q r w₁) (hr : Ceases r) (h : Serves w₁ w')
    (hd : (w.link.tasks.getD t default).outcome < w₁.link.loop.futures.size →
      w'.link.loop.done (w.link.tasks.getD t default).outcome = true)
  | waits {f : FutureId} {ks : List Resumption} {w₁ : Workbench} {g : Task → Task}
    (hQ : Q (.ok (.wait f ks)) w₁) (hg : ∀ x, (g x).rest = ks ∧ (g x).outcome = x.outcome)
    (h : Serves (rested t g w₁) w') (hwoken : (rested t g w₁).link.Orderly →
      f < w₁.link.loop.futures.size → w'.link.loop.Asks f (.wake t))
  | turns {ks : List Resumption} {w₁ : Workbench} {g : Task → Task}
    (hQ : Q (.ok (.turn ks)) w₁) (hg : ∀ x, (g x).rest = ks ∧ (g x).outcome = x.outcome)
    (h : Serves (rested t g w₁) w') (hqueued : Job.step t ∈ w'.link.loop.ready)

theorem serves_onTask {g : Task → Task} (hr : ∀ x, (g x).rest = x.rest)
    (ho : ∀ x, (g x).outcome = x.outcome) : Keeps Serves (onTask t g) := by
  have : Keeps Link.Serves (Act.change fun l : Link => { l with tasks := l.tasks.modify t g }) :=
    Keeps.change fun l => Link.serves_tasks (Array.size_modify ..) fun u =>
      ⟨Link.getD_modify Task.rest (hr _) u, Link.getD_modify Task.outcome (ho _) u⟩
  unfold onTask
  infer_instance

theorem onTask_rested (t : TaskId) (g : Task → Task) (w : Workbench) :
    Ends (onTask t g) w fun r w' => r = .ok () ∧ w' = rested t g w := fun _ => ⟨rfl, rfl⟩

/-- An activity is over. -/
theorem endTask_serves (outcome : FutureId) (r : Except Failure Reply) (w : Workbench) :
    Ends (endTask outcome r) w fun _ w' => Serves w w' ∧
      (outcome < w.link.loop.futures.size → w'.link.loop.done outcome = true) := by
  refine .bind (.on ((Link.settleOpen_evolves outcome _ w.link).mono fun x l h => ?_))
  obtain ⟨⟨b, rfl⟩, lo, hlo, hd, rfl⟩ := h
  have hs : Serves w { w with link := { w.link with loop := lo } } := ⟨rfl, Link.serves_loop hlo⟩
  cases r with
  | ok reply => exact .pure ⟨hs, hd⟩
  | error f =>
    show Ends (if _ then _ else _) _ _
    split
    · exact .throw ⟨hs, hd⟩
    · exact .pure ⟨hs, hd⟩

/-- An activity waits for a future, and will be woken. -/
theorem suspend_turned {Q : Except Failure Step → Workbench → Prop} {f : FutureId}
    {ks : List Resumption} {w₁ : Workbench} (hQ : Q (.ok (.wait f ks)) w₁) :
    Ends (suspend t f ks) w₁ fun _ => Turned t Q w := by
  have hcancelled : Keeps Serves (onTask t fun task => { task with mustCancel := false }) :=
    serves_onTask (fun _ => rfl) fun _ => rfl
  let g (x : Task) : Task := { x with rest := ks, waitsFor := some f }
  have hrest : Keeps Serves (do
      if ((← Act.state).link.tasks.getD t default).mustCancel then
        if ← onLink (Link.settleOpen f .cancelled) then
          onTask t fun task => { task with mustCancel := false }) := inferInstance
  unfold suspend
  refine .bind ((onTask_rested t g w₁).mono fun x w₂ h₂ => ?_)
  obtain ⟨rfl, rfl⟩ := h₂
  refine .bind (.on ((Link.whenDone_ends f (.wake t) _).mono fun x l h => ?_))
  obtain ⟨rfl, rfl⟩ := h
  refine (hrest.ends _).mono fun x w' h => ?_
  have hs : Serves (rested t g w₁) { rested t g w₁ with
      link := { (rested t g w₁).link with loop := w₁.link.loop.whenDone .call f (.wake t) } } :=
    ⟨rfl, Link.serves_loop (Loop.evolves_whenDone rfl)⟩
  refine .waits (g := g) hQ (fun _ => ⟨rfl, rfl⟩) (trans_of Serves hs h) fun ho hf => ?_
  have hasks := (h.2 (hs.2 ho).1).2.loop.asks f (.wake t) (Loop.asks_whenDone hf _)
  exact hasks.resolve_right id

/-- An activity is queued again. -/
theorem giveTurn_turned {Q : Except Failure Step → Workbench → Prop} {ks : List Resumption}
    {w₁ : Workbench} (hQ : Q (.ok (.turn ks)) w₁) : Ends (do
      onTask t fun task => { task with rest := ks }
      onLink (Link.soon (.step t))) w₁ fun _ => Turned t Q w := by
  let g (x : Task) : Task := { x with rest := ks }
  refine .bind ((onTask_rested t g w₁).mono fun x w₂ h₂ => ?_)
  obtain ⟨rfl, rfl⟩ := h₂
  refine .on (Link.ends_soon ?_)
  refine .turns (g := g) hQ (fun _ => ⟨rfl, rfl⟩) ⟨rfl, Link.serves_loop ?_⟩ ?_
  · exact Loop.evolves_soon (fun _ _ h => by cases h) (fun _ _ _ h => by cases h) _
  · exact List.mem_append_right _ (List.mem_singleton_self _)

/-- **A turn** of an activity ends as its steps do. -/
theorem stepTask_turned {Q : Except Failure Step → Workbench → Prop}
    (hQ : ∀ r w₁, Serves w w₁ → Ends (resumeAll (w.link.tasks.getD t default).rest r) w₁ Q) :
    Ends (stepTask t) w fun _ => Turned t Q w := by
  have hawake : Keeps Serves (onTask t fun task => { task with waitsFor := none, mustCancel := false }) :=
    serves_onTask (fun _ => rfl) fun _ => rfl
  refine .read (.read ?_)
  split
  · rename_i hd
    exact .pure (.idle hd rfl)
  refine .read (.bind (((hawake.ends w).and (onTask_rested _ _ w)).mono fun r w₁ h₁ => ?_))
  obtain ⟨h₁, rfl, -⟩ := h₁
  refine .bind (.outcome ((hQ _ w₁ h₁).mono fun r w₂ h₂ => ?_))
  have hend (r' : Except Failure Reply) (hr : Ceases r) :
      Ends (endTask (w.link.tasks.getD t default).outcome r') w₂ fun _ => Turned t Q w :=
    (endTask_serves _ r' w₂).mono fun _ _ h => .ended h₂ hr h.1 h.2
  cases r with
  | error f => exact hend (.error f) trivial
  | ok x =>
    cases x with
    | done reply =>
      refine .read ?_
      split <;> exact hend _ trivial
    | wait f ks => exact suspend_turned h₂
    | turn ks => exact giveTurn_turned h₂

end Workbench

end EditorBridge
