/-
Who is there.

The listeners of an event are told by what has befallen them: who was added, who was removed
or has died, and when all of them were taken away.  A listener is there if it was added and
nothing has taken it away since, and its place is that of the first time it was added since
then: adding it again does not count (`Since`).  A list is the roster of a history if it holds
those who are there, and nobody else, in the order of these places (`IsRoster`).

Two lemmas carry everything: what one more addition does to a roster, and what is left of it
when some are taken away.
-/
import EditorBridge.Event.Basic
import EditorBridge.Proofs.Lists
import Mathlib.Data.List.Induction
import Mathlib.Data.List.Nodup

namespace EditorBridge.Event

variable {κ : Type}

/-- What can befall the listeners of an event. -/
inductive Change (κ : Type) where
  | added (k : κ)
  | removed (k : κ)
  | cleared
  /-- Nobody holds the listener any more. -/
  | died (k : κ)

/-- Whether a change takes a listener away. -/
def Change.Takes : Change κ → κ → Prop
  | .added _, _ => False
  | .removed k', k => k' = k
  | .cleared, _ => True
  | .died k', k => k' = k

/-- Whether a listener is there: it was added, and nothing has taken it away since. -/
def Registered (past : List (Change κ)) (k : κ) : Prop :=
  ∃ before after, past = before ++ .added k :: after ∧ ∀ c ∈ after, ¬c.Takes k

/-- A listener has been there since the change of that number: it was not there before. -/
def Since (past : List (Change κ)) (k : κ) (i : Nat) : Prop :=
  ∃ before after, past = before ++ .added k :: after ∧ before.length = i ∧
    ¬Registered before k ∧ ∀ c ∈ after, ¬c.Takes k

/-- The listeners that are there, in the order in which they were first added since they were
last taken away. -/
structure IsRoster (past : List (Change κ)) (ks : List κ) : Prop where
  mem : ∀ k, k ∈ ks ↔ Registered past k
  order : ks.Pairwise fun k k' => ∃ i j, Since past k i ∧ Since past k' j ∧ i < j

variable {past cs : List (Change κ)} {ks ks' : List κ} {k k' : κ} {c : Change κ} {i j : Nat}

/-! ### One more change -/

theorem not_registered_nil : ¬Registered ([] : List (Change κ)) k := by
  rintro ⟨before, after, h, -⟩
  cases before <;> cases h

/-- A listener that is added is there. -/
theorem registered_added : Registered (past ++ [.added k]) k :=
  ⟨past, [], rfl, List.forall_mem_nil _⟩

/-- A listener stays as long as nothing takes it away. -/
theorem Registered.stays (h : Registered past k) (hcs : ∀ c ∈ cs, ¬c.Takes k) :
    Registered (past ++ cs) k := by
  obtain ⟨before, after, rfl, hafter⟩ := h
  refine ⟨before, after ++ cs, by simp, fun c hc => ?_⟩
  exact (List.mem_append.1 hc).elim (hafter c) (hcs c)

/-- Who is there after one more change was added by it, or was there and is not taken away. -/
theorem registered_concat :
    Registered (past ++ [c]) k ↔ c = .added k ∨ Registered past k ∧ ¬c.Takes k := by
  constructor
  · rintro ⟨before, after, h, hafter⟩
    rcases append_singleton_eq_iff.1 h with ⟨-, rfl, -⟩ | ⟨later, rfl, rfl⟩
    · exact .inl rfl
    · rw [List.forall_mem_append] at hafter
      exact .inr ⟨⟨before, later, rfl, hafter.1⟩, hafter.2 c (by simp)⟩
  · rintro (rfl | ⟨h, hc⟩)
    · exact registered_added
    · exact h.stays (by simpa using hc)

/-- Changes that add nobody leave those who are not taken away. -/
theorem registered_thinned (hcs : ∀ c ∈ cs, ∀ k, c ≠ .added k) :
    Registered (past ++ cs) k ↔ Registered past k ∧ ∀ c ∈ cs, ¬c.Takes k := by
  induction cs generalizing past with
  | nil => simp
  | cons c cs ih =>
    obtain ⟨hc, hcs⟩ := List.forall_mem_cons.1 hcs
    have happend : past ++ c :: cs = past ++ [c] ++ cs := by simp
    rw [happend, ih hcs, registered_concat, List.forall_mem_cons]
    simp [hc k, and_assoc]

/-! ### Places -/

theorem Since.stays (h : Since past k i) (hcs : ∀ c ∈ cs, ¬c.Takes k) : Since (past ++ cs) k i := by
  obtain ⟨before, after, rfl, hi, hnew, hafter⟩ := h
  refine ⟨before, after ++ cs, by simp, hi, hnew, fun c hc => ?_⟩
  exact (List.mem_append.1 hc).elim (hafter c) (hcs c)

theorem Since.lt (h : Since past k i) : i < past.length := by
  obtain ⟨before, after, rfl, rfl, -⟩ := h
  simp

/-- Whoever is there has been there since some change. -/
theorem Registered.exists_since (h : Registered past k) : ∃ i, Since past k i := by
  induction past using List.reverseRecOn with
  | nil => exact (not_registered_nil h).elim
  | append_singleton past c ih =>
    by_cases hthere : Registered past k ∧ ¬c.Takes k
    · obtain ⟨i, hi⟩ := ih hthere.1
      exact ⟨i, hi.stays (by simpa using hthere.2)⟩
    · obtain rfl : c = .added k := (registered_concat.1 h).resolve_right hthere
      have hnew : ¬Registered past k := fun h => hthere ⟨h, id⟩
      exact ⟨past.length, past, [], rfl, rfl, hnew, List.forall_mem_nil _⟩

/-- There is one such change only. -/
theorem Since.not_lt (h : Since past k i) (h' : Since past k j) : ¬i < j := by
  obtain ⟨before, after, hpast, rfl, -, hafter⟩ := h
  obtain ⟨before', after', hpast', rfl, hnew, -⟩ := h'
  intro hlt
  rw [hpast] at hpast'
  obtain ⟨between, rfl⟩ : before <+: before' :=
    List.prefix_of_prefix_length_le (hpast' ▸ List.prefix_append _ _) (List.prefix_append _ _)
      (Nat.le_of_lt hlt)
  rw [List.append_assoc, List.append_cancel_left_eq] at hpast'
  cases between with
  | nil => simp at hlt
  | cons c between =>
    obtain ⟨rfl, rfl⟩ := List.cons.inj hpast'
    exact hnew ⟨before, between, rfl, fun c hc => hafter c (by simp [hc])⟩

/-! ### Rosters -/

theorem isRoster_nil : IsRoster ([] : List (Change κ)) [] :=
  ⟨fun _ => by simp [not_registered_nil], .nil⟩

/-- Nobody is in a roster twice. -/
theorem IsRoster.nodup (h : IsRoster past ks) : ks.Nodup := by
  refine h.order.imp fun ⟨i, j, hi, hj, hij⟩ hkk => ?_
  exact hi.not_lt (hkk ▸ hj) hij

/-- A history has one roster only. -/
theorem IsRoster.unique (h : IsRoster past ks) (h' : IsRoster past ks') : ks = ks' := by
  have hperm : ks.Perm ks' :=
    (List.perm_ext_iff_of_nodup h.nodup h'.nodup).2 fun k => (h.mem k).trans (h'.mem k).symm
  refine hperm.eq_of_pairwise (fun k k' _ _ ⟨i, j, hi, hj, hij⟩ ⟨j', i', hj', hi', hji⟩ => ?_)
    h.order h'.order
  have hi := hi.not_lt hi'
  have hj := hj'.not_lt hj
  omega

/-- **Some are taken away**: the others stay, in their order. -/
theorem IsRoster.thinned (h : IsRoster past ks) (hcs : ∀ c ∈ cs, ∀ k, c ≠ .added k)
    (hsub : ks'.Sublist ks) (hmem : ∀ k ∈ ks, k ∈ ks' ↔ ∀ c ∈ cs, ¬c.Takes k) :
    IsRoster (past ++ cs) ks' where
  mem k := by
    rw [registered_thinned hcs, ← h.mem]
    exact ⟨fun hk => ⟨hsub.subset hk, (hmem k (hsub.subset hk)).1 hk⟩,
      fun ⟨hk, hstays⟩ => (hmem k hk).2 hstays⟩
  order := by
    have hstays (k : κ) (hk : k ∈ ks') : ∀ c ∈ cs, ¬c.Takes k := (hmem k (hsub.subset hk)).1 hk
    refine (h.order.sublist hsub).imp_of_mem fun hk hk' ⟨i, j, hi, hj, hij⟩ => ?_
    exact ⟨i, j, hi.stays (hstays _ hk), hj.stays (hstays _ hk'), hij⟩

variable [DecidableEq κ] {e : Event κ}

theorem mem_add : k' ∈ (e.add k).listeners ↔ k' ∈ e.listeners ∨ k' = k := by
  unfold add
  split
  · exact ⟨.inl, fun h => h.elim id fun h => h ▸ ‹_›⟩
  · simp

theorem nodup_add (h : e.listeners.Nodup) : (e.add k).listeners.Nodup := by
  unfold add
  split
  · exact h
  · rename_i hk
    refine List.nodup_append.2 ⟨h, by simp, fun a ha b hb => ?_⟩
    rw [List.mem_singleton.1 hb]
    exact fun hab => hk (hab ▸ ha)

/-- **Somebody is added**: at the end, or not at all. -/
theorem IsRoster.added (h : IsRoster past e.listeners) (k : κ) :
    IsRoster (past ++ [.added k]) (e.add k).listeners := by
  have hnone (k' : κ) : ∀ c ∈ [Change.added k], ¬c.Takes k' := by simp [Change.Takes]
  have hmem (k' : κ) : k' ∈ (e.add k).listeners ↔ Registered (past ++ [.added k]) k' := by
    rw [mem_add, h.mem, registered_concat, or_comm]
    simp [Change.Takes, eq_comm]
  refine ⟨hmem, ?_⟩
  have horder : e.listeners.Pairwise fun k₁ k₂ => ∃ i j,
      Since (past ++ [.added k]) k₁ i ∧ Since (past ++ [.added k]) k₂ j ∧ i < j :=
    h.order.imp fun ⟨i, j, hi, hj, hij⟩ => ⟨i, j, hi.stays (hnone _), hj.stays (hnone _), hij⟩
  unfold Event.add
  split
  · exact horder
  · rename_i hk
    refine List.pairwise_append.2 ⟨horder, by simp, ?_⟩
    intro k₁ hk₁ k₂ hk₂
    obtain rfl := List.mem_singleton.1 hk₂
    obtain ⟨i, hi⟩ := ((h.mem k₁).1 hk₁).exists_since
    have hnew : Since (past ++ [.added k₂]) k₂ past.length :=
      ⟨past, [], rfl, rfl, fun h' => hk ((h.mem k₂).2 h'), List.forall_mem_nil _⟩
    exact ⟨i, past.length, hi.stays (hnone _), hnew, hi.lt⟩

theorem IsRoster.removed (h : IsRoster past e.listeners) (k : κ) :
    IsRoster (past ++ [.removed k]) (e.remove k).listeners := by
  refine h.thinned (by simp) List.filter_sublist fun k' hk' => ?_
  simp [remove, hk', Change.Takes, ne_comm]

omit [DecidableEq κ] in
theorem IsRoster.cleared (h : IsRoster past e.listeners) :
    IsRoster (past ++ [.cleared]) ({} : Event κ).listeners :=
  h.thinned (by simp) (List.nil_sublist _) fun k' hk' => by simp [Change.Takes]

omit [DecidableEq κ] in
/-- Those who have died are gone. -/
theorem IsRoster.retained (h : IsRoster past e.listeners) (alive : κ → Bool) :
    IsRoster (past ++ (e.listeners.filter (!alive ·)).map .died) (e.retain alive).listeners := by
  have hdied : ∀ c ∈ (e.listeners.filter (!alive ·)).map Change.died, ∀ k, c ≠ .added k :=
    List.forall_mem_map.2 fun _ _ _ => nofun
  refine h.thinned hdied List.filter_sublist fun k' hk' => ?_
  simp only [retain, List.mem_filter, hk', true_and, List.forall_mem_map, Change.Takes]
  constructor
  · rintro halive k ⟨-, hk⟩ rfl
    simp [halive] at hk
  · intro hstays
    by_contra halive
    exact hstays k' ⟨hk', by simpa using halive⟩ rfl

end EditorBridge.Event
