/-
What a loop owes.

A job that is in the queue will be done, and so will the job of a timer and that of a callback,
once its time has come.  `Owes` does not tell these apart, so time may go by and futures may
end without anything new being owed or anything forgotten.

That is enough to see who can end a future.  Whoever does so from within the loop is a job
that is owed, and a future that no such job is about is left alone.
-/
import EditorBridge.Proofs.Client.Asking

namespace EditorBridge

/-- The future that a callback ends. -/
def Callback.target? : Callback → Option FutureId
  | .release f | .copy f | .pass f => some f
  | _ => none

/-- The future that a job ends. -/
def Job.target? : Job → Option FutureId
  | .call k _ => k.target?
  | .release f => some f
  | _ => none

/-- The activity that a job gives a turn. -/
@[reducible] def Job.turn? : Job → Option TaskId
  | .step t | .call (.wake t) _ => some t
  | _ => none

/-- Whether a job is an activity of some that was queued. -/
@[reducible] def Job.isTurn (A : List TaskId) : Job → Bool
  | .step t => t ∈ A
  | _ => false

/-- Whether a job is a turn of one of some activities, or about the end of a process. -/
def Job.concerns (A : List TaskId) : Job → Bool
  | .step t | .call (.wake t) _ => t ∈ A
  | .call .gone _ | .die .. => true
  | _ => false

namespace Loop

variable {α : Type} {l l' l'' : Loop α Callback Job} {f g : FutureId} {j : Job} {k : Callback}

/-- A job is to be done, at once or when its time has come. -/
def Owes (l : Loop α Callback Job) (j : Job) : Prop :=
  j ∈ l.ready ∨ (∃ t ∈ l.timers, t.job = j) ∨ ∃ k f, j = .call k f ∧ l.Calls f k

/-- Somebody who asked is owed an answer. -/
theorem Asks.owes (h : l.Asks f k) : l.Owes (.call k f) :=
  h.symm.imp id fun hc => .inr ⟨k, f, rfl, hc⟩

/-- Callbacks are owed to those who asked. -/
theorem Owes.asks (h : l.Owes (.call k f)) (hs : l.Sane) : l.Asks f k := by
  rcases h with hj | ⟨t, ht, hj⟩ | ⟨k', f', heq, hc⟩
  · exact .inr hj
  · obtain ⟨g, hg⟩ := hs.timers t ht
    cases hg.symm.trans hj
  · cases heq
    exact .inl hc

/-! ### What may be owed afterwards -/

/-- A new future owes nothing. -/
theorem owes_create : l.create.2.Owes j ↔ l.Owes j := by
  refine or_congr_right (or_congr_right (exists_congr fun k => exists_congr fun f =>
    and_congr_right fun _ => ⟨Calls.push rfl, fun ⟨fut, hfut, hmem⟩ => ⟨fut, ?_, hmem⟩⟩))
  have hlt := (Array.getElem?_eq_some_iff.1 hfut).1
  simpa [create, Array.getElem?_push, Nat.ne_of_lt hlt] using hfut

theorem owes_soon {i : Job} : (l.soon i).Owes j ↔ l.Owes j ∨ j = i := by
  unfold Owes
  simp only [soon, List.mem_append, List.mem_singleton, or_assoc, Calls]
  exact or_congr_right or_left_comm |>.trans (or_congr_right (or_congr_right or_comm))

/-- The end of a future makes jobs of callbacks, and these were owed before. -/
theorem owes_settle? {e : Ending α} (h : l.settle? .call f e = some l') :
    l'.Owes j ↔ l.Owes j := by
  unfold settle? at h
  split at h
  · cases h
  rename_i fut hfut
  split at h
  · cases h
  cases h
  constructor
  · rintro (hj | ht | ⟨k, g, rfl, hc⟩)
    · rcases List.mem_append.1 hj with hj | hj
      · exact .inl hj
      · obtain ⟨k, hk, rfl⟩ := List.mem_map.1 hj
        exact .inr (.inr ⟨k, f, rfl, (calls_get hfut).2 hk⟩)
    · exact .inr (.inl ht)
    · rw [calls_set hfut] at hc
      split at hc
      · cases hc
      · exact .inr (.inr ⟨k, g, rfl, hc⟩)
  · rintro (hj | ht | ⟨k, g, rfl, hc⟩)
    · exact .inl (List.mem_append_left _ hj)
    · exact .inr (.inl ht)
    · by_cases hg : f = g
      · subst hg
        exact .inl (List.mem_append_right _ (List.mem_map.2 ⟨k, (calls_get hfut).1 hc, rfl⟩))
      · exact .inr (.inr ⟨k, g, rfl, (calls_set hfut).2 (by rwa [if_neg hg])⟩)

/-- Who asks is owed an answer, and nobody else. -/
theorem owes_of_whenDone (h : (l.whenDone .call f k).Owes j) : l.Owes j ∨ j = .call k f := by
  unfold whenDone at h
  split at h
  · exact .inl h
  rename_i fut hfut
  split at h
  · exact owes_soon.1 h
  rcases h with hj | ht | ⟨k', g, rfl, hc⟩
  · exact .inl (.inl hj)
  · exact .inl (.inr (.inl ht))
  · rw [calls_set hfut] at hc
    split at hc
    · rename_i hg
      subst hg
      rcases List.mem_append.1 hc with hc | hc
      · exact .inl (.inr (.inr ⟨k', f, rfl, (calls_get hfut).2 hc⟩))
      · exact .inr (by rw [List.mem_singleton.1 hc])
    · exact .inl (.inr (.inr ⟨k', g, rfl, hc⟩))

theorem Owes.whenDone (h : l.Owes j) : (l.whenDone .call f k).Owes j := by
  rcases h with hj | ht | ⟨k', g, rfl, hc⟩
  · exact .inl (ready_of_whenDone hj)
  · refine .inr (.inl ?_)
    unfold Loop.whenDone
    split
    · exact ht
    · split <;> exact ht
  · exact (asks_whenDone_of_asks (.inl hc)).owes

/-- Who takes a question back is not owed an answer, but everybody else is. -/
theorem owes_of_forget (h : (l.forget f k).Owes j) : l.Owes j := by
  unfold forget at h
  split at h
  · exact h
  rename_i fut hfut
  refine h.imp id (Or.imp id ?_)
  rintro ⟨k', g, rfl, hc⟩
  rw [calls_set hfut] at hc
  refine ⟨k', g, rfl, ?_⟩
  split at hc
  · rename_i hg
    subst hg
    exact (calls_get hfut).2 (List.mem_filter.1 hc).1
  · exact hc

theorem Owes.forget (h : l.Owes j) (hne : ∀ g, j ≠ .call k g) : (l.forget f k).Owes j := by
  unfold Loop.forget
  split
  · exact h
  rename_i fut hfut
  refine h.imp id (Or.imp id ?_)
  rintro ⟨k', g, rfl, hc⟩
  refine ⟨k', g, rfl, (calls_set hfut).2 ?_⟩
  split
  · rename_i hg
    subst hg
    refine List.mem_filter.2 ⟨(calls_get hfut).1 hc, ?_⟩
    simpa using fun heq => hne f (by rw [heq])
  · exact hc

/-- Timers that are due make jobs. -/
theorem owes_advanceTo (time : Nat) : (l.advanceTo time).Owes j ↔ l.Owes j := by
  obtain ⟨due, rest, hparts, heq⟩ := advanceTo_eq time l
  have htimers : (∃ t ∈ l.timers, t.job = j) ↔
      j ∈ due.map (·.job) ∨ ∃ t ∈ rest, t.job = j := by
    rw [hparts]
    simp only [List.mem_append, or_and_right, exists_or, List.mem_map]
  unfold Owes
  rw [heq, htimers, List.mem_append, or_assoc, or_assoc]
  rfl

/-- A job that is done is not owed any more, but all the others are. -/
theorem owes_next {js : List Job} (h : l.ready = j :: js) {i : Job} :
    l.Owes i ↔ i = j ∨ Owes { l with ready := js } i := by
  unfold Owes
  rw [h, List.mem_cons, or_assoc]
  rfl

/-! ### Turns in the queue -/

/-- How many turns of some activities are in the queue. -/
def turns (A : List TaskId) (l : Loop α Callback Job) : Nat := l.ready.countP (Job.isTurn A)

variable {A : List TaskId}

theorem turns_pos {t : TaskId} (h : .step t ∈ l.ready) (ht : t ∈ A) : 0 < l.turns A :=
  List.countP_pos_iff.2 ⟨_, h, by simpa using ht⟩

theorem turns_soon {i : Job} (h : i.isTurn A = false) : (l.soon i).turns A = l.turns A := by
  simp [turns, soon, h]

theorem turns_settle? {e : Ending α} (h : l.settle? .call f e = some l') :
    l'.turns A = l.turns A := by
  unfold settle? at h
  split at h
  · cases h
  split at h
  · cases h
  cases h
  simp only [turns, List.countP_append, Nat.add_eq_left, List.countP_eq_zero, List.mem_map]
  rintro j ⟨k, -, rfl⟩
  simp

theorem turns_whenDone : (l.whenDone .call f k).turns A = l.turns A := by
  unfold whenDone
  split
  · rfl
  split
  · exact turns_soon rfl
  · rfl

theorem turns_forget : (l.forget f k).turns A = l.turns A := by
  unfold forget
  split <;> rfl

theorem turns_advanceTo (h : l.Sane) (time : Nat) : (l.advanceTo time).turns A = l.turns A := by
  obtain ⟨due, rest, hparts, heq⟩ := advanceTo_eq time l
  rw [heq]
  simp only [turns, List.countP_append, Nat.add_eq_left, List.countP_eq_zero, List.mem_map]
  rintro j ⟨t, ht, rfl⟩
  obtain ⟨g, hg⟩ := h.timers t (hparts ▸ List.mem_append_left _ ht)
  simp [hg]

theorem turns_next {js : List Job} (h : l.ready = j :: js) :
    l.turns A = turns A { l with ready := js } + if j.isTurn A then 1 else 0 := by
  simp [turns, h, List.countP_cons]

/-! ### Futures that are left alone -/

/-- No job that is owed is about a future. -/
def Spares (l : Loop α Callback Job) (f : FutureId) : Prop := ∀ j, l.Owes j → j.target? ≠ some f

theorem Spares.of_owes (h : l.Spares f) (ho : ∀ j, l'.Owes j → l.Owes j) : l'.Spares f :=
  fun j hj => h j (ho j hj)

theorem Spares.whenDone (h : l.Spares f) (hk : k.target? ≠ some f) :
    (l.whenDone .call g k).Spares f := by
  intro j hj
  rcases owes_of_whenDone hj with hj | rfl
  · exact h j hj
  · exact hk

/-- Only the future that ends is ended. -/
theorem ending?_settle? {e : Ending α} (h : l.settle? .call g e = some l') (hf : f ≠ g) :
    l'.ending? f = l.ending? f := by
  rw [ending?, ending?, (settles_settle? h).elsewhere f (by simpa using hf)]

/-- A future that has ended stays as it is. -/
theorem ended_settle? {e e' : Ending α} (h : l.settle? .call g e = some l')
    (hf : l.ending? f = some e') :
    l'.ending? f = some e' := by
  by_cases hg : f = g
  · subst hg
    unfold settle? at h
    split at h
    · cases h
    · rename_i fut hfut
      have hend : fut.ending = some e' := by simpa [ending?, hfut] using hf
      rw [hend] at h
      cases h
  · exact (ending?_settle? h hg).trans hf

theorem ending?_forget : (l.forget g k).ending? f = l.ending? f := by
  unfold forget
  split
  · rfl
  rename_i fut hfut
  obtain ⟨hlt, hget⟩ := Array.getElem?_eq_some_iff.1 hfut
  by_cases hg : g = f
  · subst hg
    simp [ending?, hlt, hget]
  · simp [ending?, Array.getElem?_setIfInBounds_ne hg]

theorem ending?_whenDone : (l.whenDone .call g k).ending? f = l.ending? f := by
  unfold whenDone
  split
  · rfl
  rename_i fut hfut
  obtain ⟨hlt, hget⟩ := Array.getElem?_eq_some_iff.1 hfut
  split
  · rfl
  by_cases hg : g = f
  · subst hg
    simp [ending?, hlt, hget]
  · simp [ending?, Array.getElem?_setIfInBounds_ne hg]

/-! ### Activities that are left alone -/

/-- What becomes of a loop while some activities, of so many that there are, are left alone: what
concerns them is owed as before, and whatever else is owed is about others that are there. -/
structure Abides (A : List TaskId) (tasks : Nat) (l l' : Loop α Callback Job) : Prop extends
    l.Grows l' where
  ended : ∀ g e, l.ending? g = some e → l'.ending? g = some e
  sane : l.Sane → l'.Sane
  owed : ∀ j, l'.Owes j → l.Owes j ∨ j.concerns A = false ∧ ∀ t, j.turn? = some t → t < tasks
  owes : ∀ j, j.concerns A = true → l.Owes j → l'.Owes j
  turns : l'.turns A = l.turns A

namespace Abides

variable {tasks : Nat}

theorem refl (l : Loop α Callback Job) : l.Abides A tasks l :=
  ⟨.refl l, fun _ _ => id, id, fun _ => .inl, fun _ _ => id, rfl⟩

theorem iff (h : l.Abides A tasks l') (hj : j.concerns A = true) : l'.Owes j ↔ l.Owes j := by
  refine ⟨fun ho => (h.owed j ho).resolve_right fun hn => ?_, h.owes j hj⟩
  cases hj.symm.trans hn.1

theorem create (l : Loop α Callback Job) : l.Abides A tasks l.create.2 where
  toGrows := l.grows_create
  ended g _ he := (ending?_create l g).trans he
  sane := l.evolves_create.sane
  owed _ hj := .inl (owes_create.1 hj)
  owes _ _ hj := owes_create.2 hj
  turns := rfl

/-- An activity that is there and none of some may be queued. -/
theorem soon {t : TaskId} (ht : t ∉ A) (hlt : t < tasks) : l.Abides A tasks (l.soon (.step t)) where
  toGrows := .of_futures rfl
  ended _ _ := id
  sane := (evolves_soon (fun _ _ h => by cases h) (fun _ _ _ h => by cases h) l).sane
  owed j hj := by
    refine (owes_soon.1 hj).imp id ?_
    rintro rfl
    refine ⟨by simpa [Job.concerns] using ht, ?_⟩
    rintro u ⟨⟩
    exact hlt
  owes j _ hj := owes_soon.2 (.inl hj)
  turns := turns_soon (by simpa using ht)

theorem settle? {e : Ending α} (h : l.settle? .call f e = some l') : l.Abides A tasks l' where
  toGrows := (evolves_settle? h).toGrows
  ended _ _ := ended_settle? h
  sane := (evolves_settle? h).sane
  owed _ hj := .inl ((owes_settle? h).1 hj)
  owes _ _ := (owes_settle? h).2
  turns := turns_settle? h

/-- Anybody else may ask to be told of the end of a future. -/
theorem whenDone (hk : k.ofClient = true) (hj : (Job.call k f).concerns A = false)
    (ht : ∀ t, (Job.call k f).turn? = some t → t < tasks) :
    l.Abides A tasks (l.whenDone .call f k) where
  toGrows := (remembers_whenDone hk).toGrows
  ended g _ he := ending?_whenDone.trans he
  sane := (remembers_whenDone hk).sane
  owed j h := by
    refine (owes_of_whenDone h).imp id ?_
    rintro rfl
    exact ⟨hj, ht⟩
  owes _ _ h := h.whenDone
  turns := turns_whenDone

theorem forget (hk : k.common = true) (hj : ∀ f, (Job.call k f).concerns A = false)
    (hi : l.Idle k) :
    l.Abides A tasks (l.forget f k) where
  toGrows := (evolves_forget hk hi).toGrows
  ended g _ he := ending?_forget.trans he
  sane := (evolves_forget hk hi).sane
  owed _ h := .inl (owes_of_forget h)
  owes j hc h := h.forget fun g heq => by cases (heq ▸ hc).symm.trans (hj g)
  turns := turns_forget

theorem advanceTo (h : l.Sane) (time : Nat) : l.Abides A tasks (l.advanceTo time) where
  toGrows := (evolves_advanceTo h time).toGrows
  ended _ _ := id
  sane := (evolves_advanceTo h time).sane
  owed _ hj := .inl ((owes_advanceTo time).1 hj)
  owes _ _ := (owes_advanceTo time).2
  turns := turns_advanceTo h time

/-- A job that concerns none of some activities may be taken. -/
theorem next {js : List Job} (h : l.ready = j :: js) (hj : j.concerns A = false) :
    l.Abides A tasks { l with ready := js } where
  toGrows := .of_futures rfl
  ended _ _ := id
  sane hs := by
    have hmem {i : Job} (hi : i ∈ js) : i ∈ l.ready := h ▸ List.mem_cons_of_mem j hi
    exact ⟨fun f k hk => hs.jobs f k (hmem hk), hs.calls, hs.timers,
      fun m script id hr => hs.reactions m script id (hmem hr)⟩
  owed i hi := .inl ((owes_next h).2 (.inr hi))
  owes i hc hi := by
    refine ((owes_next h).1 hi).resolve_left ?_
    rintro rfl
    cases hc.symm.trans hj
  turns := by
    have hturn : j.isTurn A = false := by
      cases j with
      | step t => exact hj
      | _ => rfl
    simp [turns_next h, hturn]

end Abides

end Loop

end EditorBridge
