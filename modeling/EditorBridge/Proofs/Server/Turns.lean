/-
Whose turn it is, and who is in the middle of a start.

A start that is under way is remembered by nothing but what its activity has left to do.
What has to be known is that it ends once: no two activities are about to run a server
process for the same end, and none for an end that has one already.  `Tasked` says so of
all activities that have not ended.

While an activity has its turn, what it has left to do is not what the link remembers of
it.  So the invariant comes with the turn that is going on, if there is one.
-/
import EditorBridge.Proofs.Link.Quiet
import EditorBridge.Proofs.Steps

namespace EditorBridge

/-- The turn of an activity: its number, the future of its outcome, and the ends that it is about
to run server processes for. -/
structure Turn where
  task : TaskId
  outcome : FutureId
  starts : List PeerId

namespace Link

variable {c : Option Turn} {u : Turn} {l l' : Link} {t : TaskId} {p : PeerId}

/-- The ends that an activity is about to run server processes for. -/
def starts (c : Option Turn) (l : Link) (t : TaskId) : List PeerId :=
  c.elim (Resumption.starts (l.tasks.getD t default).rest) fun u =>
    if u.task = t then u.starts else Resumption.starts (l.tasks.getD t default).rest

/-- An activity has begun and has not ended, or has its turn. -/
def Lives (c : Option Turn) (l : Link) (t : TaskId) : Prop :=
  t < l.tasks.size ∧ ((∃ u ∈ c, u.task = t) ∨ l.loop.done (l.tasks.getD t default).outcome = false)

/-- The end of a process. -/
def owner (l : Link) (n : ProcessId) : PeerId := (l.processes.getD n default).peer

/-- The link with one more process. -/
def withProcess (l : Link) (p : PeerId) (exited : FutureId) : Link :=
  { l with processes := l.processes.push { peer := p, exited } }

theorem owner_withProcess (l : Link) (p : PeerId) (exited : FutureId) (n : ProcessId) :
    (l.withProcess p exited).owner n = if n = l.processes.size then p else l.owner n := by
  by_cases hn : n = l.processes.size <;>
    simp [owner, withProcess, Array.getElem?_push, hn]

/-- An end was made, and no server process was run for it. -/
def Unspawned (l : Link) (p : PeerId) : Prop :=
  p < l.peers.size ∧ ∀ n < l.processes.size, l.owner n ≠ p

/-- **No start ends twice**: every end is waited for by one activity, once, and has no process. -/
structure Tasked (c : Option Turn) (l : Link) : Prop where
  outcomes : ∀ t < l.tasks.size, (l.tasks.getD t default).outcome < l.loop.futures.size
  own : ∀ u ∈ c, u.task < l.tasks.size ∧ (l.tasks.getD u.task default).outcome = u.outcome
  unspawned : ∀ t, l.Lives c t → ∀ p ∈ l.starts c t, l.Unspawned p
  nodup : ∀ t, l.Lives c t → (l.starts c t).Nodup
  apart : ∀ t t', l.Lives c t → l.Lives c t' → ∀ p ∈ l.starts c t, p ∈ l.starts c t' → t = t'

theorem starts_turn (u : Turn) (l : Link) : l.starts (some u) u.task = u.starts := by
  simp [starts]

theorem starts_of_ne (h : u.task ≠ t) :
    l.starts (some u) t = Resumption.starts (l.tasks.getD t default).rest := by
  simp [starts, h]

/-- An activity that lives lived before, or was begun in the meantime. -/
theorem Grows.lives (h : l.Grows l') (ht : l'.Lives c t) : l.Lives c t ∨ l.tasks.size ≤ t := by
  by_cases hlt : t < l.tasks.size
  · refine .inl ⟨hlt, ht.2.imp id fun hdone => ?_⟩
    cases hdone' : l.loop.done (l.tasks.getD t default).outcome with
    | false => rfl
    | true =>
      have hdone' := h.loop.done _ hdone'
      rw [← (h.kept t hlt).2, hdone] at hdone'
      cases hdone'
  · exact .inr (Nat.le_of_not_lt hlt)

namespace Tasked

/-- Whoever is in the middle of a start was so before. -/
theorem of_sub {c' : Option Turn} (h : Tasked c l)
    (houtcomes : ∀ t < l'.tasks.size, (l'.tasks.getD t default).outcome < l'.loop.futures.size)
    (hown : ∀ u ∈ c', u.task < l'.tasks.size ∧
      (l'.tasks.getD u.task default).outcome = u.outcome)
    (hsub : ∀ t, l'.Lives c' t →
      l'.starts c' t = [] ∨ l.Lives c t ∧ (l'.starts c' t).Sublist (l.starts c t))
    (hun : ∀ t, l'.Lives c' t → ∀ p ∈ l'.starts c' t, l.Unspawned p → l'.Unspawned p) :
    Tasked c' l' := by
  have hmem : ∀ t, l'.Lives c' t → ∀ p ∈ l'.starts c' t, l.Lives c t ∧ p ∈ l.starts c t := by
    intro t ht p hp
    rcases hsub t ht with hnil | ⟨hl, hsub⟩
    · simp [hnil] at hp
    · exact ⟨hl, hsub.subset hp⟩
  refine ⟨houtcomes, hown, fun t ht p hp => ?_, fun t ht => ?_, fun t t' ht ht' p hp hp' => ?_⟩
  · obtain ⟨hl, hp'⟩ := hmem t ht p hp
    exact hun t ht p hp (h.unspawned t hl p hp')
  · rcases hsub t ht with hnil | ⟨hl, hsub⟩
    · simp [hnil]
    · exact hsub.nodup (h.nodup t hl)
  · obtain ⟨hl, hp⟩ := hmem t ht p hp
    obtain ⟨hl', hp'⟩ := hmem t' ht' p hp'
    exact h.apart t t' hl hl' p hp hp'

theorem outcomes_grows (h : Tasked c l) (hg : l.Grows l') (t : TaskId) (ht : t < l'.tasks.size) :
    (l'.tasks.getD t default).outcome < l'.loop.futures.size := by
  by_cases hlt : t < l.tasks.size
  · rw [(hg.kept t hlt).2]
    exact Nat.lt_of_lt_of_le (h.outcomes t hlt) hg.loop.futures
  · exact (hg.begun t (Nat.le_of_not_lt hlt) ht).2

theorem own_grows (h : Tasked c l) (hg : l.Grows l') (u : Turn) (hu : u ∈ c) :
    u.task < l'.tasks.size ∧ (l'.tasks.getD u.task default).outcome = u.outcome := by
  obtain ⟨hlt, ho⟩ := h.own u hu
  exact ⟨Nat.lt_of_lt_of_le hlt hg.tasks, (hg.kept _ hlt).2.trans ho⟩

/-- Nobody but the activity that has its turn comes to be in the middle of a start. -/
theorem starts_grows (h : Tasked c l) (hg : l.Grows l') (ht : l'.Lives c t) :
    l'.starts c t = [] ∨ l.Lives c t ∧ l'.starts c t = l.starts c t := by
  rcases hg.lives ht with hl | hle
  · refine .inr ⟨hl, ?_⟩
    unfold starts
    rw [(hg.kept t hl.1).1]
  · refine .inl ?_
    have hnone := (hg.begun t hle ht.1).1.starts
    cases c with
    | none => exact hnone
    | some u => rw [starts_of_ne (Nat.ne_of_lt (Nat.lt_of_lt_of_le (h.own u rfl).1 hle)), hnone]

/-- Activities may end and begin, and ends may be made, as long as no server process is run. -/
theorem grows (h : Tasked c l) (hg : l.Grows l') (hends : l.peers.size ≤ l'.peers.size)
    (hprocesses : l'.processes.size = l.processes.size)
    (howner : ∀ n < l.processes.size, l'.owner n = l.owner n) : Tasked c l' := by
  refine h.of_sub (h.outcomes_grows hg) (h.own_grows hg) (fun t ht => ?_) fun t _ p _ hp => ?_
  · exact (h.starts_grows hg ht).imp id fun ⟨hl, he⟩ => ⟨hl, he ▸ .refl _⟩
  · refine ⟨Nat.lt_of_lt_of_le hp.1 hends, fun n hn => ?_⟩
    rw [hprocesses] at hn
    rw [howner n hn]
    exact hp.2 n hn

/-! ### Turns begin and end -/

/-- An activity has its turn, with what the link remembers of it. -/
theorem enter (h : Tasked none l) (ht : l.Lives none t) :
    Tasked (some ⟨t, (l.tasks.getD t default).outcome,
      Resumption.starts (l.tasks.getD t default).rest⟩) l := by
  refine h.of_sub h.outcomes ?_ (fun t' ht' => .inr ?_) fun _ _ _ _ => id
  · rintro u ⟨⟩
    exact ⟨ht.1, rfl⟩
  · by_cases heq : t = t'
    · subst heq
      rw [starts_turn]
      exact ⟨ht, .refl _⟩
    · rw [starts_of_ne heq]
      refine ⟨⟨ht'.1, .inr (ht'.2.elim ?_ id)⟩, .refl _⟩
      rintro ⟨_, ⟨⟩, h⟩
      exact absurd h heq

theorem lives_turn (h : Tasked (some u) l) : l.Lives (some u) u.task :=
  ⟨(h.own u rfl).1, .inl ⟨u, rfl, rfl⟩⟩

/-- An activity ends in its turn. -/
theorem ended (h : Tasked (some u) l) (hdone : l.loop.done u.outcome = true) : Tasked none l := by
  refine h.of_sub h.outcomes nofun (fun t ht => .inr ?_) fun _ _ _ _ => id
  have hlives : l.loop.done (l.tasks.getD t default).outcome = false := by
    simpa using ht.2
  have hne : u.task ≠ t := by
    rintro rfl
    rw [(h.own u rfl).2, hdone] at hlives
    cases hlives
  rw [starts_of_ne hne]
  exact ⟨⟨ht.1, .inr hlives⟩, .refl _⟩

/-- What an activity has left to do is remembered. -/
theorem suspended {f : Task → Task} (h : Tasked (some u) l) (ho : ∀ x, (f x).outcome = x.outcome)
    (hf : Resumption.starts (f (l.tasks.getD u.task default)).rest = u.starts) :
    Tasked none { l with tasks := l.tasks.modify u.task f } := by
  have hlt := (h.own u rfl).1
  have houtcome (t : TaskId) :
      ((l.tasks.modify u.task f).getD t default).outcome = (l.tasks.getD t default).outcome :=
    getD_modify Task.outcome (ho _) t
  have hlives {t : TaskId} (ht : Lives none { l with tasks := l.tasks.modify u.task f } t) :
      l.Lives (some u) t := by
    obtain ⟨hlt, hd⟩ := ht
    rw [show _ = _ from houtcome t] at hd
    exact ⟨by simpa using hlt, .inr (by simpa using hd)⟩
  refine h.of_sub (fun t ht => ?_) nofun (fun t ht => .inr ⟨hlives ht, ?_⟩) fun _ _ _ _ => id
  · rw [show _ = _ from houtcome t]
    exact h.outcomes t (by simpa using ht)
  · by_cases heq : u.task = t
    · subst heq
      rw [starts_turn]
      have hrest : (l.tasks.modify u.task f).getD u.task default =
          f (l.tasks.getD u.task default) := by
        simp [hlt, Array.getElem_modify]
      show (Resumption.starts ((l.tasks.modify u.task f).getD u.task default).rest).Sublist _
      simp only [hrest, hf, List.Sublist.refl]
    · rw [starts_of_ne heq]
      show (Resumption.starts ((l.tasks.modify u.task f).getD t default).rest).Sublist _
      have hrest : (l.tasks.modify u.task f).getD t default = l.tasks.getD t default := by
        simp [Array.getElem?_modify, heq]
      simp only [hrest, List.Sublist.refl]

/-! ### A start from its beginning to its end -/

/-- A start that does not come to anything is over. -/
theorem dropped {ps : List PeerId} (h : Tasked (some { u with starts := p :: ps }) l) :
    Tasked (some { u with starts := ps }) l := by
  refine h.of_sub h.outcomes ?_ (fun t ht => .inr ⟨?_, ?_⟩) fun _ _ _ _ => id
  · rintro _ ⟨⟩
    exact h.own { u with starts := p :: ps } rfl
  · simpa [Lives] using ht
  · by_cases heq : u.task = t
    · subst heq
      rw [starts_turn { u with starts := ps }, starts_turn { u with starts := p :: ps }]
      exact List.sublist_cons_self p ps
    · have hstarts (starts : List PeerId) :
          Link.starts (some { u with starts }) l t = Resumption.starts (l.tasks.getD t default).rest :=
        starts_of_ne (u := { u with starts }) heq
      simp only [hstarts, List.Sublist.refl]

/-- The end of a new start is not that of any other. -/
theorem begun {ps : List PeerId} (h : Tasked (some { u with starts := ps }) l)
    (hfresh : p < l.peers.size) (howner : ∀ n < l.processes.size, l.owner n ≠ p)
    (hnew : ∀ t, l.Lives (some { u with starts := ps }) t →
      p ∉ l.starts (some { u with starts := ps }) t) :
    Tasked (some { u with starts := p :: ps }) l := by
  have hstarts (t : TaskId) : l.starts (some { u with starts := p :: ps }) t =
      if u.task = t then p :: ps else l.starts (some { u with starts := ps }) t := by
    by_cases heq : u.task = t <;> simp [starts, heq]
  have hmem {t : TaskId} {q : PeerId} (hq : q ∈ l.starts (some { u with starts := p :: ps }) t) :
      u.task = t ∧ q = p ∨ q ∈ l.starts (some { u with starts := ps }) t := by
    rw [hstarts] at hq
    split at hq
    · rename_i heq
      refine (List.mem_cons.1 hq).imp (⟨heq, ·⟩) fun hq => ?_
      simpa [starts, heq] using hq
    · exact .inr hq
  have hlives {t : TaskId} (ht : l.Lives (some { u with starts := p :: ps }) t) :
      l.Lives (some { u with starts := ps }) t := by
    simpa [Lives] using ht
  refine ⟨h.outcomes, ?_, fun t ht q hq => ?_, fun t ht => ?_, fun t t' ht ht' q hq hq' => ?_⟩
  · rintro _ ⟨⟩
    exact h.own { u with starts := ps } rfl
  · rcases hmem hq with ⟨-, rfl⟩ | hq
    · exact ⟨hfresh, howner⟩
    · exact h.unspawned t (hlives ht) q hq
  · have hnodup := h.nodup t (hlives ht)
    rw [hstarts]
    split
    · rename_i heq
      have hps : l.starts (some { u with starts := ps }) t = ps := by simp [starts, heq]
      rw [← hps]
      exact List.nodup_cons.2 ⟨hnew t (hlives ht), hnodup⟩
    · exact hnodup
  · rcases hmem hq with ⟨heq, rfl⟩ | hq <;> rcases hmem hq' with ⟨heq', hqp⟩ | hq'
    · exact heq.symm.trans heq'
    · exact absurd hq' (hnew t' (hlives ht'))
    · exact absurd (hqp ▸ hq) (hnew t (hlives ht))
    · exact h.apart t t' (hlives ht) (hlives ht') q hq hq'

/-- A start is over when a process runs for its end. -/
theorem ran {ps : List PeerId} (h : Tasked (some { u with starts := p :: ps }) l)
    (exited : FutureId) : Tasked (some { u with starts := ps }) (l.withProcess p exited) := by
  have hdropped := h.dropped
  have hturn : p ∈ l.starts (some { u with starts := p :: ps }) u.task := by
    rw [starts_turn { u with starts := p :: ps }]
    exact List.mem_cons_self
  refine hdropped.of_sub hdropped.outcomes hdropped.own (fun t ht => .inr ⟨ht, .refl _⟩)
    fun t ht q hq hun => ⟨hun.1, fun n hn => ?_⟩
  rw [owner_withProcess]
  split
  · -- Whoever else is in the middle of a start has another end.
    rintro rfl
    have hlives : l.Lives (some { u with starts := p :: ps }) t := by
      simpa [Lives, Link.withProcess] using ht
    by_cases heq : u.task = t
    · have hnodup := h.nodup u.task h.lives_turn
      rw [starts_turn { u with starts := p :: ps }] at hnodup
      refine (List.nodup_cons.1 hnodup).1 ?_
      simpa [starts, heq] using hq
    · refine heq (h.apart _ t h.lives_turn hlives p hturn ?_)
      rw [starts_of_ne (u := { u with starts := p :: ps }) heq]
      rwa [starts_of_ne (u := { u with starts := ps }) heq] at hq
  · rename_i hne
    refine hun.2 n (Nat.lt_of_le_of_ne (Nat.lt_succ_iff.1 ?_) hne)
    simpa [Link.withProcess] using hn

end Tasked

end Link

end EditorBridge
