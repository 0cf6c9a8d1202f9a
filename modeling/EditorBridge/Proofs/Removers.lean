/-
What removers take away.

Whoever registers something is handed out a remover.  By the law, a remover takes away the
registration that it was handed out for when it is called first, and nothing when it is called
again (`Ledger.standing`).  The removers of tokens and of the editor's providers look for a
registration that is equal to their own, and take away the first one there is (`Ledger.left`).

Whether the law is kept all the same can be told from the calls alone (`Clean`): whenever a
remover is called, either its own registration stands, and those between it and the first equal
one are all equal to it, or it is gone and none of those that stand is equal to it.  Then it makes
no difference which one goes.  This is so if nothing is registered twice, but not if somebody
registers again what somebody else has registered, and calls a remover twice.

The argument is about lists and the numbers of their entries.  What is asked of a registry for it
is that registering appends and that removing erases (`Registry`).
-/
import EditorBridge.Cancellation.Token
import EditorBridge.Editor.Queries
import EditorBridge.Proofs.Act
import Mathlib.Data.List.Induction
import Mathlib.Data.List.Nodup

namespace EditorBridge.Removers

open Act (Ends)

variable {σ ι α : Type} {es : List (Nat × α)} {n : Nat} {a : α}

/-! ### Entries of lists -/

/-- A list that is the same with one more entry in front and at the end holds nothing else. -/
theorem cons_eq_concat_iff {xs : List α} : a :: xs = xs ++ [a] ↔ ∀ x ∈ xs, x = a := by
  constructor
  · intro h
    induction xs with
    | nil => exact nofun
    | cons x xs ih =>
      obtain ⟨rfl, h⟩ := List.cons.inj h
      exact List.forall_mem_cons.2 ⟨rfl, ih h⟩
  · intro h
    rw [List.eq_replicate_of_mem h, ← List.replicate_succ, List.replicate_succ']

/-- It makes no difference whether an entry goes or the first one that is equal to it, exactly if
those between the two are all equal to it. -/
theorem erase_middle_eq_iff [DecidableEq α] {xs ys : List α} :
    (xs ++ a :: ys).erase a = xs ++ ys ↔
      ∃ before equals, xs = before ++ equals ∧ a ∉ before ∧ ∀ x ∈ equals, x = a := by
  constructor
  · intro h
    by_cases ha : a ∈ xs
    · obtain ⟨before, equals, rfl, hbefore⟩ := List.eq_append_cons_of_mem ha
      refine ⟨before, a :: equals, rfl, hbefore, List.forall_mem_cons.2 ⟨rfl, ?_⟩⟩
      simp only [List.append_assoc, List.cons_append, List.erase_append_right _ hbefore,
        List.erase_cons_head, List.append_cancel_left_eq] at h
      have hcons : a :: equals ++ ys = equals ++ [a] ++ ys := by simpa using h.symm
      exact cons_eq_concat_iff.1 (List.append_cancel_right hcons)
    · exact ⟨xs, [], (List.append_nil xs).symm, ha, nofun⟩
  · rintro ⟨before, equals, rfl, hbefore, hequals⟩
    calc (before ++ equals ++ a :: ys).erase a
      _ = (before ++ (equals ++ [a] ++ ys)).erase a := by simp
      _ = before ++ (equals ++ ys) := by
          rw [← cons_eq_concat_iff.2 hequals, List.erase_append_right _ hbefore, List.cons_append,
            List.erase_cons_head]
      _ = before ++ equals ++ ys := (List.append_assoc ..).symm

/-- Without the entry of a number, there are those in front of it and behind it. -/
theorem filter_number {before after : List (Nat × α)}
    (h : ((before ++ (n, a) :: after).map Prod.fst).Nodup) :
    (before ++ (n, a) :: after).filter (·.1 ≠ n) = before ++ after := by
  rw [List.map_append, List.map_cons, List.nodup_middle, List.nodup_cons, List.mem_append] at h
  have hne (es : List (Nat × α)) (hes : n ∉ es.map Prod.fst) : es.filter (·.1 ≠ n) = es := by
    refine List.filter_eq_self.2 fun e he => ?_
    exact decide_eq_true fun hn => hes (hn ▸ List.mem_map_of_mem he)
  rw [List.filter_append, List.filter_cons_of_neg (by simp), hne before fun hn => h.1 (.inl hn),
    hne after fun hn => h.1 (.inr hn)]

/-! ### The law -/

/-- What is done with a registry. -/
inductive Use (α : Type) where
  | register (a : α)
  /-- Calls the remover that was handed out for the registration of that number. -/
  | call (n : Nat)

/-- What has become of the registrations. -/
structure Ledger (α : Type) where
  /-- What was registered, one after the other. -/
  given : List α := []
  /-- The registrations whose removers were not called, with their numbers. -/
  standing : List (Nat × α) := []
  /-- What is left if a remover takes away the first registration that is equal to its own. -/
  left : List α := []

variable [DecidableEq α]

def Ledger.use (l : Ledger α) : Use α → Ledger α
  | .register a => ⟨l.given ++ [a], l.standing ++ [(l.given.length, a)], l.left ++ [a]⟩
  | .call n => { l with
      standing := l.standing.filter (·.1 ≠ n)
      left := l.given[n]?.elim l.left l.left.erase }

def ledger (us : List (Use α)) : Ledger α := us.foldl Ledger.use {}

/-- It makes no difference whether the registration of that number goes, if it stands at all, or
the first one that is equal to it. -/
def Harmless (n : Nat) (a : α) (es : List (Nat × α)) : Prop :=
  (∃ before equals after, es = before ++ equals ++ (n, a) :: after ∧ (∀ e ∈ before, e.2 ≠ a) ∧
    ∀ e ∈ equals, e.2 = a) ∨
  (∀ e ∈ es, e.1 ≠ n) ∧ ∀ e ∈ es, e.2 ≠ a

/-- Whenever a remover is called, it makes no difference which registration goes. -/
def Clean (us : List (Use α)) : Prop :=
  ∀ p n a, p ++ [.call n] <+: us → (ledger p).given[n]? = some a →
    Harmless n a (ledger p).standing

variable {l : Ledger α} {us p : List (Use α)}

/-! ### One call of a remover -/

/-- The numbers are those of the registrations. -/
structure Ledger.Sound (l : Ledger α) : Prop where
  nodup : (l.standing.map Prod.fst).Nodup
  own : ∀ e ∈ l.standing, l.given[e.1]? = some e.2

theorem Ledger.Sound.use (h : l.Sound) (u : Use α) : (l.use u).Sound := by
  cases u with
  | register a =>
    have hlt : ∀ e ∈ l.standing, e.1 < l.given.length :=
      fun e he => (List.getElem?_eq_some_iff.1 (h.own e he)).1
    constructor
    · show ((l.standing ++ [(l.given.length, a)]).map Prod.fst).Nodup
      rw [List.map_append, List.nodup_append]
      refine ⟨h.nodup, by simp, fun i hi j hj => ?_⟩
      obtain ⟨e, he, rfl⟩ := List.mem_map.1 hi
      obtain rfl : j = l.given.length := by simpa using hj
      exact Nat.ne_of_lt (hlt e he)
    · intro e he
      rcases List.mem_append.1 he with he | he
      · show (l.given ++ [a])[e.1]? = some e.2
        rw [List.getElem?_append_left (hlt e he)]
        exact h.own e he
      · obtain rfl := List.mem_singleton.1 he
        simp [Ledger.use]
  | call n =>
    refine ⟨h.nodup.sublist (List.filter_sublist.map _), fun e he => ?_⟩
    exact h.own e (List.mem_filter.1 he).1

theorem ledger_append_singleton (us : List (Use α)) (u : Use α) :
    ledger (us ++ [u]) = (ledger us).use u := List.foldl_concat ..

theorem ledger_sound (us : List (Use α)) : (ledger us).Sound := by
  induction us using List.reverseRecOn with
  | nil => exact ⟨.nil, nofun⟩
  | append_singleton us u ih => exact ledger_append_singleton us u ▸ ih.use u

/-- **One call**: the law is kept if and only if it makes no difference which registration goes. -/
theorem erase_eq_iff (hnodup : (es.map Prod.fst).Nodup) (hown : ∀ e ∈ es, e.1 = n → e.2 = a) :
    (es.map Prod.snd).erase a = (es.filter (·.1 ≠ n)).map Prod.snd ↔ Harmless n a es := by
  have hgone (hn : ∀ e ∈ es, e.1 ≠ n) : es.filter (·.1 ≠ n) = es :=
    List.filter_eq_self.2 fun e he => decide_eq_true (hn e he)
  have hnone (es : List (Nat × α)) : a ∉ es.map Prod.snd ↔ ∀ e ∈ es, e.2 ≠ a := by
    rw [List.mem_map]
    exact ⟨fun h e he hea => h ⟨e, he, hea⟩, fun h ⟨e, he, hea⟩ => h e he hea⟩
  constructor
  · intro h
    by_cases hn : ∃ e ∈ es, e.1 = n
    · obtain ⟨⟨_, a'⟩, he, rfl⟩ := hn
      obtain rfl : a' = a := hown _ he rfl
      obtain ⟨front, after, rfl⟩ := List.append_of_mem he
      simp only [filter_number hnodup, List.map_append, List.map_cons] at h
      rw [erase_middle_eq_iff] at h
      obtain ⟨_, _, hfront, hbefore, hequals⟩ := h
      obtain ⟨before, equals, rfl, rfl, rfl⟩ := List.map_eq_append_iff.1 hfront
      refine .inl ⟨before, equals, after, rfl, (hnone _).1 hbefore, ?_⟩
      exact fun e he => hequals _ (List.mem_map_of_mem he)
    · have hn : ∀ e ∈ es, e.1 ≠ n := fun e he hen => hn ⟨e, he, hen⟩
      rw [hgone hn, List.erase_eq_self_iff] at h
      exact .inr ⟨hn, (hnone _).1 h⟩
  · rintro (⟨before, equals, after, rfl, hbefore, hequals⟩ | ⟨hn, hne⟩)
    · simp only [filter_number hnodup, List.map_append, List.map_cons]
      rw [erase_middle_eq_iff]
      exact ⟨_, _, rfl, (hnone _).2 hbefore, List.forall_mem_map.2 hequals⟩
    · rw [hgone hn, List.erase_of_not_mem ((hnone _).2 hne)]

/-! ### A run of calls -/

/-- **A run**: the law is kept all the time if and only if no call makes a difference. -/
theorem lawful_iff :
    (∀ p, p <+: us → (ledger p).left = (ledger p).standing.map Prod.snd) ↔ Clean us := by
  have hown (p : List (Use α)) (n : Nat) (a : α) (ha : (ledger p).given[n]? = some a) :
      ∀ e ∈ (ledger p).standing, e.1 = n → e.2 = a := by
    rintro e he rfl
    exact Option.some.inj (((ledger_sound p).own e he).symm.trans ha)
  constructor
  · intro h p n a hp ha
    rw [← erase_eq_iff (ledger_sound p).nodup (hown p n a ha)]
    have hafter := h _ hp
    rw [ledger_append_singleton] at hafter
    simp only [Ledger.use, ha, Option.elim_some] at hafter
    rw [← hafter, h p ((List.prefix_append _ _).trans hp)]
  · intro h p hp
    induction p using List.reverseRecOn with
    | nil => rfl
    | append_singleton p u ih =>
      have hbefore := ih ((List.prefix_append _ _).trans hp)
      rw [ledger_append_singleton]
      cases u with
      | register a => simp [Ledger.use, hbefore]
      | call n =>
        cases ha : (ledger p).given[n]? with
        | none =>
          have hnone : ∀ e ∈ (ledger p).standing, e.1 ≠ n := by
            rintro e he rfl
            simp [(ledger_sound p).own e he] at ha
          have hstays : (ledger p).standing.filter (·.1 ≠ n) = (ledger p).standing :=
            List.filter_eq_self.2 fun e he => decide_eq_true (hnone e he)
          simp only [Ledger.use, ha, Option.elim_none, hstays, hbefore]
        | some a =>
          simp only [Ledger.use, ha, Option.elim_some, hbefore]
          exact (erase_eq_iff (ledger_sound p).nodup (hown p n a ha)).2 (h p n a hp ha)

theorem ledger_given (us : List (Use α)) : (ledger us).given = us.filterMap fun
    | .register a => some a
    | .call _ => none := by
  induction us using List.reverseRecOn with
  | nil => rfl
  | append_singleton us u ih =>
    rw [ledger_append_singleton, List.filterMap_append, ← ih]
    cases u <;> simp [Ledger.use]

/-- The law is kept if nothing is registered twice. -/
theorem clean_of_nodup (h : (ledger us).given.Nodup) : Clean us := by
  intro p n a hp ha
  have hdistinct : (ledger p).given.Nodup := by
    rw [ledger_given] at h ⊢
    exact h.sublist (((List.prefix_append _ _).trans hp).sublist.filterMap _)
  have hown : ∀ e ∈ (ledger p).standing, e.2 = a → e.1 = n := by
    rintro e he rfl
    have he := (ledger_sound p).own e he
    exact (List.getElem?_inj (List.getElem?_eq_some_iff.1 he).1 hdistinct).1 (he.trans ha.symm)
  by_cases hn : (n, a) ∈ (ledger p).standing
  · obtain ⟨before, after, hes⟩ := List.append_of_mem hn
    refine .inl ⟨before, [], after, by simpa using hes, fun e he hea => ?_, nofun⟩
    have hnodup := (ledger_sound p).nodup
    rw [hes, List.map_append, List.map_cons, List.nodup_middle, List.nodup_cons] at hnodup
    refine hnodup.1 (List.mem_append_left _ ?_)
    exact List.mem_map.2 ⟨e, he, hown e (by simp [hes, he]) hea⟩
  · have hgone : ∀ e ∈ (ledger p).standing, e.1 ≠ n := by
      rintro e he rfl
      obtain rfl := Option.some.inj (((ledger_sound p).own e he).symm.trans ha)
      exact hn he
    exact .inr ⟨hgone, fun e he hea => hgone e he (hown e he hea)⟩

/-! ### Registries -/

/-- Lists of registrations that change by registering and by removers. -/
structure Registry (σ ι α : Type) [DecidableEq α] where
  register : ι → α → Act σ Unit
  unregister : ι → α → Act σ Unit
  /-- What is registered in each list. -/
  listed : ι → σ → List α
  /-- The states of which this is said. -/
  Open : σ → Prop
  register_ends : ∀ i a s, Open s → Ends (register i a) s fun r s' => r = .ok () ∧ Open s' ∧
    listed i s' = listed i s ++ [a] ∧ ∀ j, j ≠ i → listed j s' = listed j s
  unregister_ends : ∀ i a s, Open s → Ends (unregister i a) s fun r s' => r = .ok () ∧ Open s' ∧
    listed i s' = (listed i s).erase a ∧ ∀ j, j ≠ i → listed j s' = listed j s

namespace Registry

variable [DecidableEq ι] (R : Registry σ ι α)

/-- Uses one of the lists; what was registered so far is what the removers know. -/
def use (given : ι → List α) : ι × Use α → Act σ (ι → List α)
  | (i, .register a) => do
    R.register i a
    return Function.update given i (given i ++ [a])
  | (i, .call n) => do
    (given i)[n]?.elim (return) (R.unregister i)
    return given

/-- Uses the lists, one after the other. -/
def run (us : List (ι × Use α)) : Act σ (ι → List α) := us.foldlM R.use fun _ => []

end Registry

/-- What is done with one of the lists. -/
def of [DecidableEq ι] (i : ι) (us : List (ι × Use α)) : List (Use α) :=
  us.filterMap fun u => if u.1 = i then some u.2 else none

omit [DecidableEq α] in
theorem of_concat_self [DecidableEq ι] (i : ι) (us : List (ι × Use α)) (u : Use α) :
    of i (us ++ [(i, u)]) = of i us ++ [u] := by
  simp [of]

omit [DecidableEq α] in
theorem of_concat_ne [DecidableEq ι] {i j : ι} (h : j ≠ i) (us : List (ι × Use α)) (u : Use α) :
    of j (us ++ [(i, u)]) = of j us := by
  simp [of, h.symm]

variable [DecidableEq ι] {R : Registry σ ι α} {s s' : σ}

/-- The lists are what their ledgers say. -/
structure Registry.Agrees (R : Registry σ ι α) (us : List (ι × Use α)) (s : σ) : Prop where
  isOpen : R.Open s
  listed : ∀ i, R.listed i s = (ledger (of i us)).left

/-- One more use of one of the lists. -/
theorem Registry.Agrees.use {us : List (ι × Use α)} {i : ι} {u : Use α} (h : R.Agrees us s)
    (hs' : R.Open s') (hself : R.listed i s' = ((ledger (of i us)).use u).left)
    (hothers : ∀ j, j ≠ i → R.listed j s' = R.listed j s) : R.Agrees (us ++ [(i, u)]) s' := by
  refine ⟨hs', fun j => ?_⟩
  by_cases hj : j = i
  · subst hj
    rw [of_concat_self, ledger_append_singleton, hself]
  · rw [of_concat_ne hj, hothers j hj, h.listed]

/-- **One use** of one of the lists. -/
theorem Registry.use_ends {us : List (ι × Use α)} (h : R.Agrees us s) (u : ι × Use α) :
    Ends (R.use (fun i => (ledger (of i us)).given) u) s fun r s' =>
      r = .ok (fun i => (ledger (of i (us ++ [u]))).given) ∧ R.Agrees (us ++ [u]) s' := by
  obtain ⟨i, u⟩ := u
  have hgiven (u : Use α) (given : List α) (hu : ((ledger (of i us)).use u).given = given) :
      Function.update (fun i => (ledger (of i us)).given) i given =
        fun j => (ledger (of j (us ++ [(i, u)]))).given := by
    funext j
    by_cases hj : j = i
    · subst hj
      rw [Function.update_self, of_concat_self, ledger_append_singleton, hu]
    · rw [Function.update_of_ne hj, of_concat_ne hj]
  cases u with
  | register a =>
    refine .bind ((R.register_ends i a s h.isOpen).mono fun r s' hr => ?_)
    obtain ⟨rfl, hopen, hself, hothers⟩ := hr
    refine .pure ⟨congrArg _ (hgiven (.register a) _ rfl), h.use hopen ?_ hothers⟩
    rw [hself, h.listed]
    rfl
  | call n =>
    have hsame := hgiven (.call n) _ rfl
    rw [show ((ledger (of i us)).use (.call n)).given = (ledger (of i us)).given from rfl,
      Function.update_eq_self] at hsame
    refine .bind ?_
    cases ha : (ledger (of i us)).given[n]? with
    | none =>
      refine .pure (.pure ⟨congrArg _ hsame, h.use h.isOpen ?_ fun _ _ => rfl⟩)
      rw [h.listed]
      simp [Ledger.use, ha]
    | some a =>
      refine ((R.unregister_ends i a s h.isOpen).mono fun r s' hr => ?_)
      obtain ⟨rfl, hopen, hself, hothers⟩ := hr
      refine .pure ⟨congrArg _ hsame, h.use hopen ?_ hothers⟩
      rw [hself, h.listed]
      simp [Ledger.use, ha]

theorem Registry.run_ends (hs : R.Open s) (hnone : ∀ i, R.listed i s = [])
    (us : List (ι × Use α)) :
    Ends (R.run us) s fun r s' =>
      r = .ok (fun i => (ledger (of i us)).given) ∧ R.Agrees us s' := by
  induction us using List.reverseRecOn with
  | nil => exact .pure ⟨rfl, hs, hnone⟩
  | append_singleton us u ih =>
    unfold Registry.run
    rw [List.foldlM_append]
    refine .bind (ih.mono fun r s' ⟨hr, h⟩ => ?_)
    subst hr
    refine .bind ((Registry.use_ends h u).mono fun r s' hr => ?_)
    obtain ⟨rfl, h⟩ := hr
    exact .pure ⟨rfl, h⟩

/-- The law: each remover takes away its own registration when it is called first, and nothing
afterwards, and all the others stay, in their order. -/
def Registry.Obeys (R : Registry σ ι α) (s : σ) (us : List (ι × Use α)) : Prop :=
  ∀ p, p <+: us → Ends (R.run p) s fun _ s' =>
    ∀ i, R.listed i s' = (ledger (of i p)).standing.map Prod.snd

/-- What removers do, and when they keep the law. -/
structure Registry.Told (R : Registry σ ι α) (s : σ) : Prop where
  left : ∀ us, Ends (R.run us) s fun r s' => r = .ok (fun i => (ledger (of i us)).given) ∧
    ∀ i, R.listed i s' = (ledger (of i us)).left
  obeys_iff : ∀ us, R.Obeys s us ↔ ∀ i, Clean (of i us)

theorem Registry.told (hs : R.Open s) (hnone : ∀ i, R.listed i s = []) : R.Told s where
  left us := (R.run_ends hs hnone us).mono fun _ _ ⟨hr, h⟩ => ⟨hr, h.listed⟩
  obeys_iff us := by
    constructor
    · intro h i
      refine lawful_iff.1 fun p hp => ?_
      obtain ⟨p', hp', rfl⟩ := List.prefix_filterMap_iff.1 hp
      have hruns := (R.run_ends hs hnone p').and (h p' hp')
      obtain ⟨⟨-, hagrees⟩, hlaw⟩ := hruns {}
      exact (hagrees.listed i).symm.trans (hlaw i)
    · intro h p hp
      refine (R.run_ends hs hnone p).mono fun r s' ⟨_, hagrees⟩ i => ?_
      rw [hagrees.listed]
      exact lawful_iff.2 (h i) _ (hp.filterMap _)

/-! ### Tokens and providers -/

/-- The callbacks of a token that was not cancelled. -/
def tokens (κ : Type) [DecidableEq κ] : Registry (Token κ) Unit κ where
  register _ k := Act.change fun t => (t.register k).2
  unregister _ k := Act.change (Token.unregister k)
  listed _ t := t.callbacks
  Open t := t.requested = false
  register_ends _ k t ht := .change (by simp [Token.register, ht])
  unregister_ends _ k t ht := .change ⟨rfl, ht, rfl, fun _ hj => (hj rfl).elim⟩

/-- The registrations of one kind change, and those of the other kind do not. -/
theorem onRegistrations_ends (q : Query) (f : List Registration → List Registration)
    (w : Workbench) :
    Ends (Workbench.onRegistrations q f) w fun r w' => r = .ok () ∧
      Workbench.registrations q w' = f (Workbench.registrations q w) ∧
      ∀ q', q' ≠ q → Workbench.registrations q' w' = Workbench.registrations q' w := by
  unfold Workbench.onRegistrations
  cases q with
  | hover =>
    exact .change ⟨rfl, rfl, fun | .hover, h => (h rfl).elim | .completion, _ => rfl⟩
  | completion =>
    exact .change ⟨rfl, rfl, fun | .hover, _ => rfl | .completion, h => (h rfl).elim⟩

/-- The providers of the editor, by the kind of query that they answer. -/
def providers : Registry Workbench Query Registration where
  register := Workbench.register
  unregister := Workbench.unregister
  listed := Workbench.registrations
  Open _ := True
  register_ends q r w _ :=
    Ends.mono (onRegistrations_ends q (· ++ [r]) w) fun _ _ ⟨hr, h⟩ => ⟨hr, trivial, h⟩
  unregister_ends q r w _ :=
    Ends.mono (onRegistrations_ends q (·.erase r) w) fun _ _ ⟨hr, h⟩ => ⟨hr, trivial, h⟩

/-- **Removers take away the first registration that is equal to their own**, which is their own
exactly if it makes no difference. -/
theorem removers_told (κ : Type) [DecidableEq κ] (w : Workbench) :
    (tokens κ).Told {} ∧ providers.Told { w with hovers := [], completions := [] } := by
  constructor
  · exact Registry.told rfl fun _ => rfl
  · exact Registry.told trivial fun | .hover | .completion => rfl

/-- Something is registered twice, and the remover of the first registration is called twice. -/
def twice (i : ι) (a : α) : List (ι × Use α) :=
  [(i, .register a), (i, .register a), (i, .call 0), (i, .call 0)]

/-- The second call takes away the registration of somebody else. -/
theorem not_obeys_twice : ¬(tokens Nat).Obeys {} (twice () 0) ∧
    ¬providers.Obeys {} (twice .hover ⟨[.language "*"], .external 0, []⟩) := by
  constructor
  · intro h
    have hnone : [] = [0] := h _ List.prefix_rfl {} ()
    cases hnone
  · intro h
    have hnone : [] = [(⟨[.language "*"], .external 0, []⟩ : Registration)] :=
      h _ List.prefix_rfl {} .hover
    cases hnone

end EditorBridge.Removers
