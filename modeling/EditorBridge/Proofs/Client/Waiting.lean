/-
Those who wait for a server to be ready.

An activity that waits for readiness is queued at first, and then asleep: it waits for a
future that stands for the one of the client, so that giving up harms nobody else.  It is
woken when that future ends, and that future ends when the client's does, so all that
has to be remembered is who asked whom (`Waiting`).  A job that is being done has left
the queue already, so whoever is told by it is in the hand of the loop.
-/
import EditorBridge.Proofs.Client.Stepping

namespace EditorBridge

open Act (Ends Keeps Reads)
open Resumption (All)

namespace Link

variable {l l' : Link} {hand : List Job} {W : List TaskId} {t u : TaskId} {g : Task → Task}

/-- What a task has left to do. -/
def rest (l : Link) (t : TaskId) : List Resumption := (l.tasks.getD t default).rest

/-- A task has ended. -/
def Over (l : Link) (t : TaskId) : Prop := l.loop.done (l.tasks.getD t default).outcome = true

/-- Somebody asked to be told of the end of a future, and was not told before. -/
def Hears (hand : List Job) (l : Link) (f : FutureId) (k : Callback) : Prop :=
  l.loop.Asks f k ∨ .call k f ∈ hand

/-- Somebody who waits for readiness has got an answer, or will get one once there is one. -/
inductive Waiting (hand : List Job) (l : Link) (t : TaskId) : Prop
  | ended (h : l.Over t)
  | queued (hr : l.rest t = [.await]) (hj : .step t ∈ l.loop.ready ∨ .step t ∈ hand)
  | asleep {o : FutureId} (hr : l.rest t = [.reply]) (hw : l.Hears hand o (.wake t))
    (hc : l.loop.done o = true ∨
      ∃ r, l.Hears hand r (.copy o) ∧ (l.loop.done r = true ∨ l.client.ready = some r))

/-- A task that has not ended does what a client has to do, and those of `W` wait for readiness. -/
structure Active (W : List TaskId) (hand : List Job) (l : Link) (t : TaskId) : Prop where
  tame : l.Over t ∨ All Resumption.ofClient (l.rest t)
  waits : t ∈ W → l.Waiting hand t

theorem Hears.mono (hlo : l.loop.Remembers l'.loop) {f : FutureId} {k : Callback}
    (h : l.Hears hand f k) : l'.Hears hand f k ∨ l'.loop.Idle k := by
  rcases h with h | h
  · exact (hlo.asks f k h).imp .inl id
  · exact .inl (.inr h)

/-- The future of readiness is the same one, or has ended. -/
def SameReady (l l' : Link) : Prop :=
  ∀ r, l.client.ready = some r → l'.loop.done r = true ∨ l'.client.ready = some r

theorem Carries.rest (h : Carries [] l l') (ht : t < l.tasks.size) : l'.rest t = l.rest t :=
  (h.kept t ht).1

theorem Over.mono (h : Carries [] l l') (ht : t < l.tasks.size) (ho : l.Over t) : l'.Over t := by
  rw [Over, (h.kept t ht).2]
  exact h.loop.done _ ho

theorem Waiting.mono (h : Carries [] l l') (hr : SameReady l l') (ht : t < l.tasks.size)
    (hw : l.Waiting hand t) : l'.Waiting hand t := by
  have hrest := h.rest ht
  cases hw with
  | ended ho => exact .ended (ho.mono h ht)
  | queued ha hj => exact .queued (hrest.trans ha) (hj.imp (h.loop.jobs _) id)
  | asleep ha hw hc =>
    refine .asleep (hrest.trans ha) ((hw.mono h.loop).resolve_right id) ?_
    rcases hc with hc | ⟨r, hcopy, hc⟩
    · exact .inl (h.loop.done _ hc)
    · rcases hcopy.mono h.loop with hcopy | hidle
      · exact .inr ⟨r, hcopy, hc.elim (fun hd => .inl (h.loop.done r hd)) (hr r)⟩
      · exact .inl hidle

theorem Active.mono (h : Carries [] l l') (hr : SameReady l l') (hW : ∀ t ∈ W, t < l.tasks.size)
    (ha : l.Active W hand t) : l'.Active W hand t where
  tame := by
    by_cases ht : t < l.tasks.size
    · exact ha.tame.imp (fun ho => ho.mono h ht) fun hall => h.rest ht ▸ hall
    · exact .inr (h.begun t (Nat.le_of_not_lt ht))
  waits hmem := (ha.waits hmem).mono h hr (hW t hmem)

/-! ### A task that is changed -/

theorem getD_rested (hu : u ≠ t) : (l.rested t g).tasks.getD u default = l.tasks.getD u default := by
  simp [rested, Array.getElem?_modify, Ne.symm hu]

theorem getD_rested_self (ht : t < l.tasks.size) :
    (l.rested t g).tasks.getD t default = g (l.tasks.getD t default) := by
  simp [rested, ht, Array.getElem_modify]

/-- Nobody else notices it. -/
theorem Active.rested (hu : u ≠ t) (ha : l.Active W hand u) : (l.rested t g).Active W hand u := by
  have hget := getD_rested (l := l) (g := g) hu
  refine ⟨?_, fun hmem => ?_⟩
  · rw [Over, rest, hget]
    exact ha.tame
  · cases ha.waits hmem with
    | ended ho => exact .ended (by rw [Over, hget]; exact ho)
    | queued hr hj => exact .queued (by rw [rest, hget]; exact hr) hj
    | asleep hr hw hc => exact .asleep (by rw [rest, hget]; exact hr) hw hc

/-- A link stays in order. -/
theorem Orderly.rested (h : l.Orderly) (ho : ∀ x, (g x).outcome = x.outcome) :
    (l.rested t g).Orderly where
  sane := h.sane
  scripts := h.scripts
  tables p := (h.tables p).mono (Nat.le_refl _) rfl rfl (Nat.le_refl _)
  outcomes u hu := by
    have heq : ((l.rested t g).tasks.getD u default).outcome = (l.tasks.getD u default).outcome :=
      getD_modify Task.outcome (ho _) u
    rw [heq]
    exact h.outcomes u (by simpa [Link.rested] using hu)
  owners := h.owners
  exits := h.exits
  told := h.told
  keepable q hq := (h.keepable q hq).mono (Nat.le_refl _)

/-! ### Falling asleep -/

/-- What waiting for readiness comes to: an answer, or a future that stands for readiness. -/
def Sleeps (ready : Option FutureId) (x : Except Failure Step) (l : Link) : Prop :=
  match x with
  | .ok (.wait o ks) => ks = [.reply] ∧ o < l.loop.futures.size ∧
    ∃ r, ready = some r ∧ l.loop.Asks r (.copy o)
  | .ok (.turn _) => False
  | _ => True

theorem ready_ends (hready : ∀ r, l.client.ready = some r → r < l.loop.futures.size) :
    Ends Link.ready l (Sleeps l.client.ready) := by
  unfold Link.ready
  refine .read ?_
  split
  · exact .throw trivial
  rename_i r hr
  have hgo (x : Except Failure Reply) (l' : Link) :
      Ends (do return .done (← Act.ofExcept x)) l' (Sleeps (some r)) := by
    refine .bind (.ofExcept ?_)
    cases x with
    | ok reply => exact .pure trivial
    | error f => trivial
  have hawaiting {o : FutureId} {l' : Link} (ho : o < l'.loop.futures.size)
      (hasks : l'.loop.done o = false → l'.loop.Asks r (.copy o)) :
      Ends (awaiting o .reply fun x => do return .done (← Act.ofExcept x)) l' (Sleeps (some r)) := by
    refine .read ?_
    split
    · exact hgo _ l'
    · rename_i hnone
      exact .pure ⟨rfl, ho, r, rfl, hasks (by rw [Loop.done, hnone]; rfl)⟩
  have hlt := hready r hr
  rw [hr]
  unfold shield
  refine .bind (.read ?_)
  split
  · rename_i hd
    exact .pure (hawaiting hlt fun hopen => by cases hd.symm.trans hopen)
  · refine .bind (newFuture_ends.mono fun x l₁ h₁ => ?_)
    obtain ⟨rfl, rfl⟩ := h₁
    refine .bind ((whenDone_ends r _ _).mono fun x l₂ h₂ => ?_)
    obtain ⟨rfl, rfl⟩ := h₂
    refine .bind ((whenDone_ends _ (.forgetCopy r) _).mono fun x l₃ h₃ => ?_)
    obtain ⟨rfl, rfl⟩ := h₃
    refine .pure (hawaiting ?_ fun _ => Loop.asks_whenDone_of_asks (Loop.asks_whenDone ?_ _))
    · have hgrows := (Loop.grows_whenDone Job.call r (.copy l.loop.futures.size) l.loop.create.2).trans
        (Loop.grows_whenDone Job.call l.loop.futures.size (.forgetCopy r) _)
      exact Nat.lt_of_lt_of_le (by simp [Loop.create]) hgrows.futures
    · exact Nat.lt_of_lt_of_le hlt l.loop.grows_create.futures

end Link

namespace Workbench

variable {w w' : Workbench}

theorem last_ends (r : Except Failure Reply) (ready : Option FutureId) (w : Workbench) :
    Ends (resumeAll [] r) w fun x w' => Link.Sleeps ready x w'.link := by
  refine .bind (.ofExcept ?_)
  cases r with
  | ok reply => exact .pure trivial
  | error f => trivial

/-- Somebody who waits for readiness is answered or falls asleep. -/
theorem await_ends (r : Except Failure Reply)
    (hready : ∀ r, w.link.client.ready = some r → r < w.link.loop.futures.size) :
    Ends (resumeAll [.await] r) w fun x w' => Link.Sleeps w.link.client.ready x w'.link := by
  unfold resumeAll
  refine .bind (.outcome (.bind (.ofExcept ?_)))
  cases r with
  | error f => exact last_ends _ _ w
  | ok _ =>
    refine .on ((Link.ready_ends hready).mono fun x l h => ?_)
    rcases x with f | ⟨reply | ⟨o, ks⟩ | ks⟩
    · exact last_ends _ _ _
    · exact last_ends _ _ _
    · obtain ⟨rfl, h⟩ := h
      exact .pure ⟨rfl, h⟩
    · exact h.elim

/-- Somebody who was asleep is answered. -/
theorem reply_ends (r : Except Failure Reply) (ready : Option FutureId) (w : Workbench) :
    Ends (resumeAll [.reply] r) w fun x w' => Link.Sleeps ready x w'.link := by
  unfold resumeAll
  refine .bind (.outcome (.bind (.ofExcept ?_)))
  cases r with
  | error f => exact last_ends _ _ w
  | ok reply => exact .pure (last_ends _ _ w)

end Workbench

end EditorBridge
