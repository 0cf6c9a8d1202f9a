/-
What tells nothing.

Nearly everything that goes on below the editor has nothing to do with documents:
futures, tokens, timers, answers, the streams of processes, stopping.  All of it is quiet.
For the acts that change the state themselves this is shown here; for the others it
follows from what they are put together from.
-/
import EditorBridge.Proofs.Link.Ear

namespace EditorBridge.Link

open Act (Keeps Ends Reads)

variable {l : Link}

/-! ### Changes -/

/-- What a change of one entry of an array leaves as it is, is as it was everywhere. -/
theorem getD_modify {α β : Type} [Inhabited α] {a : Array α} {i : Nat} {f : α → α} (g : α → β)
    (h : g (f (a.getD i default)) = g (a.getD i default)) (j : Nat) :
    g ((a.modify i f).getD j default) = g (a.getD j default) := by
  by_cases hj : j < a.size
  · by_cases hij : i = j
    · subst hij
      simpa [hj, Array.getElem_modify] using h
    · simp [hj, Array.getElem_modify, hij]
  · simp [hj]

/-- One entry of an array is changed twice. -/
theorem modify_modify {α : Type} (a : Array α) (i : Nat) (f g : α → α) :
    (a.modify i f).modify i g = a.modify i (g ∘ f) := by
  refine Array.ext (by simp) fun j h₁ h₂ => ?_
  simp only [Array.getElem_modify]
  split <;> rfl

/-- What a change does depends on what it finds only. -/
theorem modify_congr {α : Type} [Inhabited α] {a : Array α} {i : Nat} {f g : α → α}
    (h : f (a.getD i default) = g (a.getD i default)) : a.modify i f = a.modify i g := by
  refine Array.ext (by simp) fun j h₁ h₂ => ?_
  simp only [Array.getElem_modify]
  split
  · rename_i hij
    subst hij
    rw [Array.size_modify] at h₂
    simpa [h₂] using h
  · rfl

/-- A change that leaves what it finds leaves the array. -/
theorem modify_eq_self {α : Type} [Inhabited α] {a : Array α} {i : Nat} {f : α → α}
    (h : f (a.getD i default) = a.getD i default) : a.modify i f = a := by
  rw [modify_congr (g := id) h]
  refine Array.ext (by simp) fun j h₁ h₂ => ?_
  simp [Array.getElem_modify]

/-- Nothing but the loop is changed, and it only grows. -/
theorem quiet_loop {lo : Loop Reply Callback Job} (h : l.loop.Grows lo) :
    Quiet l { l with loop := lo } :=
  .of_same rfl rfl rfl rfl (.of_loop h rfl)

/-- Tasks may be cancelled. -/
theorem quiet_task {t : TaskId} {task : Task} (hr : task.rest = (l.tasks.getD t default).rest)
    (ho : task.outcome = (l.tasks.getD t default).outcome) :
    Quiet l { l with tasks := l.tasks.setIfInBounds t task } := by
  refine .of_same rfl rfl rfl rfl ⟨.refl _, by simp, fun u hu => ?_, fun u hu hu' => ?_⟩
  · by_cases h : t = u
    · subst h
      simp [hu, hr, ho]
    · simp [Array.getElem?_setIfInBounds_ne h]
  · simp at hu'
    omega

/-- What is neither wiring nor loop, nor something that is told, does not matter. -/
theorem quiet_rest {l' : Link} (hw : l'.wiring = l.wiring) (hl : l'.loop = l.loop)
    (ht : l'.tasks = l.tasks)
    (hh : l'.client.queued = l.client.queued ∧ l'.written = l.written ∧
      l'.recorder.notes.filterMap Note.told? = l.recorder.notes.filterMap Note.told?) :
    Quiet l l' :=
  .of_same hw hh.1 hh.2.2 hh.2.1 (.of_loop (hl ▸ .refl _) ht)

theorem quiet_change {f : Link → Link} (h : ∀ l, Quiet l (f l)) : Keeps Quiet (Act.change f) :=
  Keeps.change h

/-! ### Futures, tasks and tokens -/

theorem quiet_onLoop {f : Loop Reply Callback Job → Loop Reply Callback Job}
    (h : ∀ lo : Loop Reply Callback Job, lo.Grows (f lo)) : Keeps Quiet (onLoop f) :=
  quiet_change fun l => quiet_loop (h l.loop)

theorem ends_soon {j : Job} {Q : Except Failure Unit → Link → Prop}
    (h : Q (.ok ()) { l with loop := l.loop.soon j }) : Ends (soon j) l Q := Ends.change h

instance quiet_soon (j : Job) : Keeps Quiet (soon j) := quiet_onLoop fun _ => .of_futures rfl

instance quiet_whenDone (f : FutureId) (k : Callback) : Keeps Quiet (whenDone f k) :=
  quiet_onLoop (Loop.grows_whenDone Job.call f k)

instance quiet_forget (f : FutureId) (k : Callback) : Keeps Quiet (forget f k) :=
  quiet_onLoop (Loop.grows_forget f k)

instance quiet_dropTimer (n : Nat) : Keeps Quiet (onLoop (·.dropTimer n)) :=
  quiet_onLoop fun _ => .of_futures rfl

instance quiet_newFuture : Keeps Quiet newFuture :=
  .of_ends fun l => .read (.change_bind (.pure (quiet_loop l.loop.grows_create)))

instance quiet_later (delay : Nat) (j : Job) : Keeps Quiet (later delay j) :=
  .of_ends fun _ => .read (.change_bind (.pure (quiet_loop (.of_futures rfl))))

instance reads_ending? (f : FutureId) : Reads (ending? f) fun l => l.loop.ending? f :=
  ⟨fun _ => rfl⟩

instance reads_isDone (f : FutureId) : Reads (isDone f) fun l => l.loop.done f := ⟨fun _ => rfl⟩

theorem settleOpen_ends (f : FutureId) (e : Ending Reply) :
    Ends (settleOpen f e) l fun _ l' => ∃ lo, l.loop.Grows lo ∧ l' = { l with loop := lo } := by
  refine .read ?_
  split
  · rename_i lo h
    exact .change_bind (.pure ⟨lo, Loop.grows_settle? h, rfl⟩)
  · exact .pure ⟨l.loop, .refl _, rfl⟩

instance quiet_settleOpen (f : FutureId) (e : Ending Reply) : Keeps Quiet (settleOpen f e) := by
  refine .of_ends fun l => (settleOpen_ends f e).mono fun r l' h => ?_
  obtain ⟨lo, hlo, rfl⟩ := h
  exact quiet_loop hlo

instance quiet_settle (f : FutureId) (e : Ending Reply) : Keeps Quiet (settle f e) := by
  unfold settle
  infer_instance

theorem exists_settle? {lo : Loop Reply Callback Job} {f : FutureId} {e : Ending Reply}
    (hf : f < lo.futures.size) (hd : lo.done f = false) :
    ∃ lo', lo.settle? .call f e = some lo' := by
  have hget : lo.futures[f]? = some lo.futures[f] := Array.getElem?_eq_getElem hf
  have hopen : lo.futures[f].ending.isSome = false := by
    simpa [Loop.done, Loop.ending?, hget] using hd
  simp [Loop.settle?, hget, hopen]

/-- A future that has not ended can be ended. -/
theorem settle_ok {f : FutureId} (e : Ending Reply) (hf : f < l.loop.futures.size)
    (hd : l.loop.done f = false) : Ends (settle f e) l fun r _ => r = .ok () := by
  obtain ⟨lo, hlo⟩ := exists_settle? (e := e) hf hd
  refine .bind (.read ?_)
  rw [hlo]
  exact .change_bind (.pure (.pure rfl))

/-- An activity may be begun. -/
theorem quiet_startTask {entry : Resumption} (h : entry.plain = true) :
    Keeps Quiet (startTask entry) := by
  refine .of_ends fun l => .bind (.read (.change_bind (.pure (.read (.change_bind ?_)))))
  refine .bind (ends_soon (.pure ?_))
  refine .of_same rfl rfl rfl rfl ⟨?_, ?_, fun t ht => ?_, fun t ht ht' => ?_⟩
  · exact l.loop.grows_create.trans (.of_futures rfl)
  · simp
  · simp [Array.getElem?_push, Nat.ne_of_lt ht]
  · simp at ht'
    have : t = l.tasks.size := by omega
    subst this
    simp [Loop.soon, Resumption.AllPlain, h]

instance quiet_startTask_greet : Keeps Quiet (startTask .greet) := quiet_startTask rfl

instance reads_outcomeOf (t : TaskId) :
    Reads (outcomeOf t) fun l => (l.tasks.getD t default).outcome := ⟨fun _ => rfl⟩

instance quiet_cancelTask (t : TaskId) : Keeps Quiet (cancelTask t) := by
  refine .of_ends fun l => .read ?_
  split
  · exact .pure (.refl l)
  · rename_i task htask
    have hget : l.tasks.getD t default = task := by simp [htask]
    have hmust (lo : Loop Reply Callback Job) (h : l.loop.Grows lo) :
        Ends (Act.change fun l : Link => { l with
          tasks := l.tasks.setIfInBounds t { task with mustCancel := true } })
          { l with loop := lo } fun _ l' => Quiet l l' :=
      .change ((quiet_loop h).trans (quiet_task (by rw [hget]) (by rw [hget])))
    refine .read ?_
    split
    · exact .pure (.refl l)
    · split
      · refine .bind ((settleOpen_ends _ _).mono fun r l' h => ?_)
        obtain ⟨lo, hlo, rfl⟩ := h
        cases r with
        | error f => exact quiet_loop hlo
        | ok cancelled =>
          show Ends (if _ then _ else _) _ _
          split
          · exact hmust lo hlo
          · exact .pure (quiet_loop hlo)
      · exact .bind (.pure (hmust l.loop (.refl _)))

instance quiet_newToken : Keeps Quiet newToken :=
  .of_ends fun _ => .read (.change_bind (.pure (quiet_rest rfl rfl rfl ⟨rfl, rfl, rfl⟩)))

instance reads_isCancelled (t : TokenId) :
    Reads (isCancelled t) fun l => (l.tokens.getD t default).requested := ⟨fun _ => rfl⟩

instance quiet_setToken (t : TokenId) (token : Token Notice) : Keeps Quiet (setToken t token) :=
  quiet_change fun _ => quiet_rest rfl rfl rfl ⟨rfl, rfl, rfl⟩

instance quiet_shield (f : FutureId) : Keeps Quiet (shield f) := by
  unfold shield
  infer_instance

section Waiting

variable (f waiter : FutureId) (timer : Option Nat) (late : Bool) (r : Except Failure Reply)

instance quiet_awaiting (rest : Resumption) (go : Except Failure Reply → Act Link Step)
    [∀ r, Keeps Quiet (go r)] : Keeps Quiet (awaiting f rest go) := by
  unfold awaiting
  refine .andThen fun e => ?_
  split <;> infer_instance

instance quiet_afterGivingUp : Keeps Quiet (afterGivingUp f late) := by
  unfold afterGivingUp
  refine .andThen fun e => ?_
  split <;> infer_instance

instance quiet_givenUp : Keeps Quiet (givenUp f waiter timer late r) := by
  unfold givenUp
  refine .andThen fun _ => ?_
  cases timer <;> cases r <;> infer_instance

instance quiet_giveUp : Keeps Quiet (giveUp f timer late) := by
  unfold giveUp
  infer_instance

instance quiet_inTime (timer : Nat) : Keeps Quiet (inTime f waiter timer r) := by
  unfold inTime
  refine .andThen fun e => ?_
  split <;> infer_instance

instance quiet_waitFor (timeout : Option Int) : Keeps Quiet (waitFor f timeout) := by
  unfold waitFor
  split
  · infer_instance
  · split
    · refine .andThen fun e => ?_
      split <;> infer_instance
    · infer_instance

end Waiting

end EditorBridge.Link
