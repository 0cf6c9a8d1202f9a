/-
Whoever asks to be told that a future ends is told.

Somebody who asks is remembered twice: by the future, until it ends, and then by a job of
the queue.  `Asks` does not tell the two apart, and so it is what survives: whatever is
done with the loop, nobody who asked is forgotten (`Evolves`), but for those who have no
use for the answer any more (`Idle`).  A queue that is empty has told everybody who asked
for a future that has ended.

The end of the server process is heard of once, so the callbacks for it are counted.  A
callback that becomes a job is counted as before.
-/
import EditorBridge.Proofs.Rpc.Callbacks
import Mathlib

namespace EditorBridge

/-- Whether a callback is one that a client has. -/
def Callback.ofClient : Callback → Bool
  | .formatted _ => false
  | _ => true

/-- Whether a callback of a client is not the one for the end of the server process. -/
@[reducible] def Callback.common : Callback → Bool
  | .formatted _ | .gone => false
  | _ => true

theorem Callback.ofClient_of_common {k : Callback} (h : k.common = true) : k.ofClient = true := by
  cases k <;> first | rfl | cases h

/-- Whether a job tells of the end of the server process. -/
def Job.isGone : Job → Bool
  | .call .gone _ => true
  | _ => false

theorem Job.isGone_call (k : Callback) (f : FutureId) : (Job.call k f).isGone = (k == .gone) := by
  cases k <;> rfl

namespace Loop

variable {α : Type} {l l' l'' : Loop α Callback Job} {f : FutureId} {k : Callback}

/-- Somebody asked to be told of the end of a future, and was not told yet. -/
def Asks (l : Loop α Callback Job) (f : FutureId) (k : Callback) : Prop :=
  l.Calls f k ∨ .call k f ∈ l.ready

/-- Callbacks are those of a client and wait for futures that go on, jobs are about futures that
have ended, and a timer only releases somebody. -/
structure Sane (l : Loop α Callback Job) : Prop where
  jobs : ∀ f k, .call k f ∈ l.ready → l.done f = true ∧ k.ofClient = true
  calls : ∀ f k, l.Calls f k → l.done f = false ∧ k.ofClient = true
  timers : ∀ t ∈ l.timers, ∃ f, t.job = .release f
  reactions : ∀ n script id, .react n script id ∉ l.ready

/-- Nobody needs a callback any more. -/
def Idle (l : Loop α Callback Job) : Callback → Prop
  | .release _ => True
  | .copy outer => l.done outer = true
  | _ => False

/-! ### Counting -/

/-- How often a future is asked to tell of the end of the server process. -/
def goneCalls (fut : Future α Callback) : Nat := fut.callbacks.count .gone

/-- How often the end of the server process is still to be told. -/
def gones (l : Loop α Callback Job) : Nat :=
  l.ready.countP Job.isGone + (l.futures.toList.map goneCalls).sum

/-- Replacing one entry changes a sum by the difference. -/
theorem sum_set {β : Type} (g : β → Nat) (xs : List β) {i : Nat} {b : β} (h : xs[i]? = some b)
    (c : β) : ((xs.set i c).map g).sum + g b = (xs.map g).sum + g c := by
  induction xs generalizing i with
  | nil => cases h
  | cons x xs ih =>
    cases i with
    | zero =>
      cases h
      simp only [List.set_cons_zero, List.map_cons, List.sum_cons]
      omega
    | succ i =>
      have := ih (i := i) h
      simp only [List.set_cons_succ, List.map_cons, List.sum_cons]
      omega

/-- A future may be replaced, if as many callbacks become jobs as are lost. -/
theorem gones_set {fut fut' : Future α Callback} {jobs : List Job} (h : l.futures[f]? = some fut)
    (hc : jobs.countP Job.isGone + goneCalls fut' = l.ready.countP Job.isGone + goneCalls fut) :
    gones { l with futures := l.futures.setIfInBounds f fut', ready := jobs } = l.gones := by
  have hsum := sum_set goneCalls l.futures.toList (i := f) (by rw [Array.getElem?_toList, h]) fut'
  simp only [gones, Array.toList_setIfInBounds]
  omega

theorem countP_isGone (ks : List Callback) (f : FutureId) :
    (ks.map fun k => Job.call k f).countP Job.isGone = ks.count .gone := by
  rw [List.countP_map]
  exact List.countP_congr fun k _ => by rw [Function.comp_apply, Job.isGone_call]

/-! ### What becomes of a loop -/

/-- Nobody who asked is forgotten, and what has ended stays so. -/
structure Remembers (l l' : Loop α Callback Job) : Prop extends l.Grows l' where
  jobs : ∀ j ∈ l.ready, j ∈ l'.ready
  asks : ∀ f k, l.Asks f k → l'.Asks f k ∨ l'.Idle k
  sane : l.Sane → l'.Sane

/-- Nobody is forgotten, and nobody new asks for the end of the server process. -/
structure Evolves (l l' : Loop α Callback Job) : Prop extends l.Remembers l' where
  gones : l'.gones = l.gones

theorem Idle.mono (h : l.Idle k) (hg : l.Grows l') : l'.Idle k := by
  cases k with
  | copy outer => exact hg.done outer h
  | release => trivial
  | _ => exact h

namespace Remembers

theorem refl (l : Loop α Callback Job) : l.Remembers l := ⟨.refl l, fun _ => id, fun _ _ => .inl, id⟩

theorem trans (h : l.Remembers l') (h' : l'.Remembers l'') : l.Remembers l'' where
  toGrows := h.toGrows.trans h'.toGrows
  jobs j hj := h'.jobs j (h.jobs j hj)
  asks f k hk := by
    rcases h.asks f k hk with hk | hk
    · exact h'.asks f k hk
    · exact .inr (hk.mono h'.toGrows)
  sane := h'.sane ∘ h.sane

end Remembers

namespace Evolves

theorem refl (l : Loop α Callback Job) : l.Evolves l := ⟨.refl l, rfl⟩

theorem trans (h : l.Evolves l') (h' : l'.Evolves l'') : l.Evolves l'' :=
  ⟨h.toRemembers.trans h'.toRemembers, h'.gones.trans h.gones⟩

end Evolves

/-- Nothing is forgotten as long as the futures and the jobs stay. -/
theorem evolves_of_same (hf : l'.futures = l.futures) (hr : l'.ready = l.ready)
    (ht : ∀ t ∈ l'.timers, t ∈ l.timers ∨ ∃ f, t.job = .release f) : l.Evolves l' where
  toGrows := .of_futures hf
  jobs j hj := hr ▸ hj
  asks g k hk := by
    simp only [Asks, Calls, hf, hr]
    exact .inl hk
  sane h := by
    refine ⟨fun g k hk => ?_, fun g k hk => ?_, fun t htimer => ?_, ?_⟩
    · rw [done, ending?, hf]
      exact h.jobs g k (hr ▸ hk)
    · rw [done, ending?, hf]
      exact h.calls g k (by simpa only [Calls, hf] using hk)
    · exact (ht t htimer).elim (h.timers t) id
    · rw [hr]
      exact h.reactions
  gones := by simp only [Loop.gones, hf, hr]

/-- A future is asked of by nobody when it is made. -/
theorem evolves_create (l : Loop α Callback Job) : l.Evolves l.create.2 where
  toGrows := grows_create l
  jobs _ := id
  asks g k hk := by
    refine .inl (hk.imp (fun hc => ?_) id)
    obtain ⟨fut, hfut, hmem⟩ := hc
    have hlt := (Array.getElem?_eq_some_iff.1 hfut).1
    exact ⟨fut, by simpa [create, Array.getElem?_push, Nat.ne_of_lt hlt] using hfut, hmem⟩
  sane h := by
    refine ⟨fun g k hk => (h.jobs g k hk).imp ((grows_create l).done g) id, fun g k hk => ?_,
      h.timers, h.reactions⟩
    rw [done, ending?_create]
    exact h.calls g k (Calls.push rfl hk)
  gones := by simp [Loop.gones, create, goneCalls]

/-- A job that calls nobody may be queued. -/
theorem evolves_soon {j : Job} (h : ∀ k f, j ≠ .call k f) (hr : ∀ n script id, j ≠ .react n script id)
    (l : Loop α Callback Job) : l.Evolves (l.soon j) where
  toGrows := .of_futures rfl
  jobs _ := List.mem_append_left _
  asks g k hk := .inl (hk.imp id fun hj => List.mem_append_left _ hj)
  sane hs := by
    refine ⟨fun g k hk => ?_, hs.calls, hs.timers, fun n script id hmem => ?_⟩
    · rcases List.mem_append.1 hk with hk | hk
      · exact hs.jobs g k hk
      · exact absurd (List.mem_singleton.1 hk).symm (h k g)
    · rcases List.mem_append.1 hmem with hmem | hmem
      · exact hs.reactions n script id hmem
      · exact hr n script id (List.mem_singleton.1 hmem).symm
  gones := by
    have hj : j.isGone = false := by
      cases j with
      | call k f => exact absurd rfl (h k f)
      | _ => rfl
    simp [Loop.gones, soon, hj]

/-! ### Futures that end -/

section Replacing

variable {fut fut' : Future α Callback} {jobs : List Job} {g : FutureId}

/-- Replacing a future changes who asks of it. -/
theorem calls_set (h : l.futures[f]? = some fut) :
    Calls { l with futures := l.futures.setIfInBounds f fut', ready := jobs } g k ↔
      if f = g then k ∈ fut'.callbacks else l.Calls g k := by
  have hlt := (Array.getElem?_eq_some_iff.1 h).1
  unfold Calls
  by_cases hg : f = g
  · subst hg
    simp [hlt]
  · simp [Array.getElem?_setIfInBounds_ne hg, hg]

theorem done_set (h : l.futures[f]? = some fut) :
    done { l with futures := l.futures.setIfInBounds f fut', ready := jobs } g =
      if f = g then fut'.ending.isSome else l.done g := by
  have hlt := (Array.getElem?_eq_some_iff.1 h).1
  unfold done ending?
  by_cases hg : f = g
  · subst hg
    simp [hlt]
  · simp [Array.getElem?_setIfInBounds_ne hg, hg]

theorem calls_get (h : l.futures[f]? = some fut) : l.Calls f k ↔ k ∈ fut.callbacks := by
  simp [Calls, h]

theorem done_get (h : l.futures[f]? = some fut) : l.done f = fut.ending.isSome := by
  simp [done, ending?, h]

end Replacing

/-- **The end of a future** makes jobs of its callbacks. -/
theorem evolves_settle? {e : Ending α} (h : l.settle? .call f e = some l') : l.Evolves l' := by
  have hgrows := grows_settle? h
  unfold settle? at h
  split at h
  · cases h
  rename_i fut hfut
  split at h
  · cases h
  cases h
  refine ⟨⟨hgrows, fun _ => List.mem_append_left _, fun g k hk => .inl ?_, fun hs => ⟨fun g k hk => ?_,
    fun g k hk => ?_, hs.timers, fun n script id hmem => ?_⟩⟩, gones_set hfut ?_⟩
  · rcases hk with hk | hk
    · by_cases hg : f = g
      · subst hg
        exact .inr (List.mem_append_right _ (List.mem_map.2 ⟨k, (calls_get hfut).1 hk, rfl⟩))
      · exact .inl ((calls_set hfut).2 (by rwa [if_neg hg]))
    · exact .inr (List.mem_append_left _ hk)
  · rcases List.mem_append.1 hk with hk | hk
    · exact (hs.jobs g k hk).imp (hgrows.done g) id
    · obtain ⟨k', hmem, hk'⟩ := List.mem_map.1 hk
      cases hk'
      rw [done_set hfut, if_pos rfl]
      exact ⟨rfl, (hs.calls f k ((calls_get hfut).2 hmem)).2⟩
  · rw [calls_set hfut] at hk
    rw [done_set hfut]
    split at hk
    · cases hk
    · rename_i hg
      rw [if_neg hg]
      exact hs.calls g k hk
  · rcases List.mem_append.1 hmem with hmem | hmem
    · exact hs.reactions n script id hmem
    · obtain ⟨k, -, hk⟩ := List.mem_map.1 hmem
      cases hk
  · rw [List.countP_append, countP_isGone]
    simp [goneCalls]

/-- A future that is there can be told to end, and has ended then. -/
theorem done_settle? {e : Ending α} (h : l.settle? .call f e = some l') : l'.done f = true := by
  unfold settle? at h
  split at h
  · cases h
  rename_i fut hfut
  split at h
  · cases h
  cases h
  rw [done_set hfut, if_pos rfl]
  rfl

/-! ### Asking -/

/-- **Whoever asks** is remembered. -/
theorem asks_whenDone (hf : f < l.futures.size) (k : Callback) :
    (l.whenDone .call f k).Asks f k := by
  have hget : l.futures[f]? = some l.futures[f] := Array.getElem?_eq_getElem hf
  unfold whenDone
  rw [hget]
  dsimp only
  split
  · exact .inr (List.mem_append_right _ (List.mem_singleton_self _))
  · refine .inl ((calls_set hget).2 ?_)
    rw [if_pos rfl]
    exact List.mem_append_right _ (List.mem_singleton_self _)

theorem asks_whenDone_of_asks {g : FutureId} {k' : Callback} (h : l.Asks g k') :
    (l.whenDone .call f k).Asks g k' := by
  unfold whenDone
  split
  · exact h
  rename_i fut hfut
  split
  · exact h.imp id fun hj => List.mem_append_left _ hj
  refine h.imp (fun hc => (calls_set hfut).2 ?_) id
  split
  · rename_i hg
    subst hg
    exact List.mem_append_left _ ((calls_get hfut).1 hc)
  · exact hc

theorem ready_of_whenDone {j : Job} (h : j ∈ l.ready) : j ∈ (l.whenDone .call f k).ready := by
  unfold whenDone
  split
  · exact h
  · split
    · exact List.mem_append_left _ h
    · exact h

theorem sane_whenDone (hk : k.ofClient = true) (h : l.Sane) : (l.whenDone .call f k).Sane := by
  unfold whenDone
  split
  · exact h
  rename_i fut hfut
  split
  · rename_i hend
    refine ⟨fun g k' hk' => ?_, h.calls, h.timers, fun n script id hmem => ?_⟩
    · rcases List.mem_append.1 hk' with hk' | hk'
      · exact h.jobs g k' hk'
      · cases List.mem_singleton.1 hk'
        exact ⟨(done_get hfut).trans hend, hk⟩
    · rcases List.mem_append.1 hmem with hmem | hmem
      · exact h.reactions n script id hmem
      · cases List.mem_singleton.1 hmem
  · rename_i hend
    have hdone (g : FutureId) : done { l with
        futures := l.futures.setIfInBounds f { fut with callbacks := fut.callbacks ++ [k] } } g =
        l.done g := by
      rw [done_set hfut]
      split
      · rename_i hg
        exact hg ▸ (done_get hfut).symm
      · rfl
    refine ⟨fun g k' hk' => ?_, fun g k' hk' => ?_, h.timers, h.reactions⟩
    · rw [hdone]
      exact h.jobs g k' hk'
    · rw [hdone]
      rw [calls_set hfut] at hk'
      split at hk'
      · rename_i hg
        subst hg
        rcases List.mem_append.1 hk' with hk' | hk'
        · exact h.calls f k' ((calls_get hfut).2 hk')
        · cases List.mem_singleton.1 hk'
          rw [done_get hfut]
          exact ⟨by simpa using hend, hk⟩
      · exact h.calls g k' hk'

theorem gones_whenDone (hf : f < l.futures.size) :
    (l.whenDone .call f k).gones = l.gones + if k = .gone then 1 else 0 := by
  obtain ⟨fut, hget⟩ : ∃ fut, l.futures[f]? = some fut := ⟨_, Array.getElem?_eq_getElem hf⟩
  unfold whenDone
  rw [hget]
  dsimp only
  split
  · have hone : [Job.call k f].countP Job.isGone = if k = .gone then 1 else 0 := by
      rw [List.countP_singleton, Job.isGone_call]
      simp
    simp only [Loop.gones, soon, List.countP_append, hone]
    omega
  · have hsum := sum_set goneCalls l.futures.toList (i := f) (by rw [Array.getElem?_toList, hget])
      { fut with callbacks := fut.callbacks ++ [k] }
    have hcount : goneCalls { fut with callbacks := fut.callbacks ++ [k] } =
        goneCalls fut + if k = .gone then 1 else 0 := by
      simp [goneCalls, List.count_singleton]
    simp only [Loop.gones, Array.toList_setIfInBounds]
    omega

theorem remembers_whenDone (hk : k.ofClient = true) : l.Remembers (l.whenDone .call f k) where
  toGrows := grows_whenDone Job.call f k l
  jobs _ := ready_of_whenDone
  asks _ _ := .inl ∘ asks_whenDone_of_asks
  sane := sane_whenDone hk

theorem evolves_whenDone (hk : k.common = true) : l.Evolves (l.whenDone .call f k) where
  toRemembers := remembers_whenDone (Callback.ofClient_of_common hk)
  gones := by
    by_cases hf : f < l.futures.size
    · have hne : k ≠ .gone := fun h => by simp [h] at hk
      rw [gones_whenDone hf, if_neg hne, Nat.add_zero]
    · have hnone : l.futures[f]? = none := Array.getElem?_eq_none (Nat.le_of_not_lt hf)
      unfold whenDone
      rw [hnone]

/-- Who has no use for the answer may take the question back. -/
theorem evolves_forget (hk : k.common = true) (h : l.Idle k) : l.Evolves (l.forget f k) := by
  have hgrows := grows_forget f k l
  have hidle := h.mono hgrows
  unfold forget at hgrows hidle ⊢
  split at hgrows
  · exact .refl l
  rename_i fut hfut
  rw [hfut] at hidle
  dsimp only at hidle ⊢
  have hdone (g : FutureId) : done { l with
      futures := l.futures.setIfInBounds f { fut with callbacks := fut.callbacks.filter (· ≠ k) } } g =
      l.done g := by
    rw [done_set hfut]
    split
    · rename_i hg
      exact hg ▸ (done_get hfut).symm
    · rfl
  refine ⟨⟨hgrows, fun _ => id, fun g k' hk' => ?_, fun hs => ⟨fun g k' hj => ?_, fun g k' hc => ?_,
    hs.timers, hs.reactions⟩⟩, gones_set hfut ?_⟩
  · by_cases hkk : k' = k
    · exact .inr (hkk ▸ hidle)
    · refine .inl (hk'.imp (fun hc => (calls_set hfut).2 ?_) id)
      split
      · rename_i hg
        subst hg
        exact List.mem_filter.2 ⟨(calls_get hfut).1 hc, by simpa using hkk⟩
      · exact hc
  · rw [hdone]
    exact hs.jobs g k' hj
  · rw [hdone]
    rw [calls_set hfut] at hc
    split at hc
    · rename_i hg
      subst hg
      exact hs.calls f k' ((calls_get hfut).2 (List.mem_filter.1 hc).1)
    · exact hs.calls g k' hc
  · have hne : k ≠ .gone := fun h => by simp [h] at hk
    simp [goneCalls, List.count_filter, Ne.symm hne]

/-! ### Timers -/

/-- A timer may be set that releases somebody. -/
theorem evolves_later (delay : Nat) (g : FutureId) (l : Loop α Callback Job) :
    l.Evolves (l.later delay (.release g)).2 := by
  refine evolves_of_same rfl rfl fun t ht => ?_
  have hinsert : ∀ ts : List (Timer Job), t ∈ insertTimer ⟨l.timerCount, l.now + delay, .release g⟩ ts →
      t ∈ ts ∨ ∃ f, t.job = .release f := by
    intro ts
    induction ts with
    | nil =>
      intro h
      cases List.mem_singleton.1 h
      exact .inr ⟨g, rfl⟩
    | cons u us ih =>
      intro h
      unfold insertTimer at h
      split at h
      · rcases List.mem_cons.1 h with rfl | h
        · exact .inr ⟨g, rfl⟩
        · exact .inl h
      · rcases List.mem_cons.1 h with rfl | h
        · exact .inl List.mem_cons_self
        · exact (ih h).imp (List.mem_cons_of_mem u) id
  exact hinsert l.timers ht

theorem evolves_dropTimer (n : Nat) (l : Loop α Callback Job) : l.Evolves (l.dropTimer n) :=
  evolves_of_same rfl rfl fun _ ht => .inl ((List.mem_filter.1 ht).1)

/-- The timers that are due by a time, and those that are not, as far as they are in order. -/
theorem advanceTo_eq (time : Nat) (l : Loop α Callback Job) : ∃ due rest, l.timers = due ++ rest ∧
    l.advanceTo time =
      { l with now := max l.now time, timers := rest, ready := l.ready ++ due.map (·.job) } := by
  refine ⟨l.timers.takeWhile (·.due ≤ time), l.timers.dropWhile (·.due ≤ time),
    List.takeWhile_append_dropWhile.symm, ?_⟩
  unfold advanceTo
  rw [List.span_eq_takeWhile_dropWhile]

/-- Timers only release somebody, so letting time pass forgets nobody. -/
theorem evolves_advanceTo (h : l.Sane) (time : Nat) : l.Evolves (l.advanceTo time) := by
  obtain ⟨due, rest, hparts, heq⟩ := advanceTo_eq time l
  have hreleases : ∀ j ∈ due.map (·.job), ∃ f, j = .release f := by
    intro j hj
    obtain ⟨t, ht, rfl⟩ := List.mem_map.1 hj
    exact h.timers t (hparts ▸ List.mem_append_left rest ht)
  have hcalls {f : FutureId} {k : Callback} (hj : .call k f ∈ due.map (·.job)) : False := by
    obtain ⟨g, hg⟩ := hreleases _ hj
    cases hg
  rw [heq]
  refine ⟨⟨.of_futures rfl, fun j hj => List.mem_append_left _ hj, fun f k hk => .inl ?_, fun _ => ?_⟩, ?_⟩
  · exact hk.imp id fun hj => List.mem_append_left _ hj
  · refine ⟨fun f k hk => ?_, h.calls, fun t ht => ?_, fun n script id hj => ?_⟩
    · exact h.jobs f k ((List.mem_append.1 hk).resolve_right hcalls)
    · exact h.timers t (hparts ▸ List.mem_append_right due ht)
    · refine h.reactions n script id ((List.mem_append.1 hj).resolve_right fun hj => ?_)
      obtain ⟨g, hg⟩ := hreleases _ hj
      cases hg
  · have hzero : (due.map (·.job)).countP Job.isGone = 0 := by
      refine List.countP_eq_zero.2 fun j hj => ?_
      obtain ⟨g, rfl⟩ := hreleases j hj
      exact Bool.false_ne_true
    simp only [Loop.gones, List.countP_append, hzero]
    rfl

end Loop

end EditorBridge
