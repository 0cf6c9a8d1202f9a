/-
An activity takes a turn of its own.

The activity that starts a client and the one that greets its server do more than to wait, so
their turns are not without a word.  But whatever else they do, nothing is done to futures
that are nobody's, and no process is told to end.  `Proceeds` is that much, and it is all that
those who are not disturbed need (`Undisturbed.proceeds`): it is up to the turn to say who
acts next.
-/
import EditorBridge.Proofs.Handshake.Phases

namespace EditorBridge

open Act (Ends Keeps Reads)
open Resumption (All)

namespace Loop

variable {α : Type} {l l' l'' : Loop α Callback Job} {A : List TaskId} {m m' : Nat}

theorem Abides.trans (h : l.Abides A m l') (h' : l'.Abides A m' l'') (hm : m ≤ m') :
    l.Abides A m' l'' where
  toGrows := h.toGrows.trans h'.toGrows
  ended g e := h'.ended g e ∘ h.ended g e
  sane := h'.sane ∘ h.sane
  owed j hj := by
    rcases h'.owed j hj with hj | hj
    · exact (h.owed j hj).imp id fun ⟨hc, ht⟩ => ⟨hc, fun t htj => Nat.lt_of_lt_of_le (ht t htj) hm⟩
    · exact .inr hj
  owes j hj := h'.owes j hj ∘ h.owes j hj
  turns := h'.turns.trans h.turns

end Loop

namespace Link

variable {l l' l'' : Link} {A A' : List TaskId} {F X : List FutureId} {f g : FutureId}
    {t u : TaskId}
  {ks : List Resumption} {o : Option FutureId} {c : Nat} {js : List Job} {j : Job}

/-! ### Going on -/

/-- Somebody goes on without telling a process to end, and without a part in what is nobody's. -/
structure Proceeds (l l' : Link) : Prop extends Sparing l l' where
  scripts : (l'.scripts, l'.recorder.failsCancelled) = (l.scripts, l.recorder.failsCancelled)
  loop : l.loop.Abides [] l'.tasks.size l'.loop
  tasks : l.tasks.size ≤ l'.tasks.size
  outcomes : ∀ u < l.tasks.size,
    (l'.tasks.getD u default).outcome = (l.tasks.getD u default).outcome

instance : IsPreorder Link Proceeds where
  refl l := ⟨refl_of Sparing l, rfl, .refl _, Nat.le_refl _, fun _ _ => rfl⟩
  trans _ _ _ h h' := {
    trans_of Sparing h.toSparing h'.toSparing with
    scripts := h'.scripts.trans h.scripts
    loop := h.loop.trans h'.loop h'.tasks
    tasks := Nat.le_trans h.tasks h'.tasks
    outcomes := fun u hu =>
      (h'.outcomes u (Nat.lt_of_lt_of_le hu h.tasks)).trans (h.outcomes u hu) }

/-- The others are still not disturbed, and somebody else may act from now on. -/
theorem Undisturbed.proceeds (h : l.Undisturbed A X F) (hp : Proceeds l l')
    (hmild : ∀ t ∉ A', l'.Over t ∨ All Resumption.isMild (l'.rest t))
    (ht : ∀ t ∈ A', t < l'.tasks.size ∧ ∀ f ∈ F, (l'.tasks.getD t default).outcome ≠ f) :
    l'.Undisturbed A' X F where
  fit := {
    scripts := (Prod.mk.inj hp.scripts).1.trans h.fit.scripts
    lenient := (Prod.mk.inj hp.scripts).2.trans h.fit.lenient
    sane := hp.loop.sane h.fit.sane
    there := fun t hmem => (ht t hmem).1
    turned := fun j hj t hjt => (hp.loop.owed j hj).elim
      (fun ho => Nat.lt_of_lt_of_le (h.fit.turned j ho t hjt) hp.tasks) fun ho => ho.2 t hjt
    mild := hmild }
  unknown f hf := (hp.spared f (.inr hf) (h.unknown f (Nat.le_trans hp.size hf))).1
  lasts m code ho := h.lasts m code ((hp.loop.iff rfl).1 ho)
  gone f ho := h.gone f ((hp.loop.iff rfl).1 ho)
  lasting f hf := by
    obtain ⟨hlt, hspared, hd⟩ := h.lasting f hf
    obtain ⟨hspared', he⟩ := hp.spared f (.inl hlt) hspared
    exact ⟨Nat.lt_of_lt_of_le hlt hp.size, hspared', by rw [Loop.done, he, ← Loop.done, hd]⟩
  given f hf := ⟨Nat.lt_of_lt_of_le (h.given f hf).1 hp.size, (h.given f hf).2.1, fun t hmem =>
    (ht t hmem).2 f hf⟩

/-- Who acts does not change with the rest. -/
theorem Undisturbed.alike (h : l.Undisturbed A X F) (hp : Proceeds l l') (ht : l'.tasks = l.tasks) :
    l'.Undisturbed A X F := by
  refine h.proceeds hp (fun u hu => ?_) fun u hu => ?_
  · rw [Over, rest, ht]
    exact (h.fit.mild u hu).imp (hp.loop.done _) id
  · rw [ht]
    exact ⟨h.fit.there u hu, fun f hf => (h.given f hf).2.2 u hu⟩

/-- Only the loop goes on. -/
theorem proceeds_loop {lo : Loop Reply Callback Job} (hlo : l.loop.Abides [] l.tasks.size lo)
    (hs : ∀ f, l.Spared [] f → lo.Spares f ∧ lo.ending? f = l.loop.ending? f) :
    Proceeds l { l with loop := lo } where
  size := hlo.futures
  ended := hlo.ended
  spared f _ hf := ⟨{ hf with loop := (hs f hf).1 }, (hs f hf).2⟩
  scripts := rfl
  loop := hlo
  tasks := Nat.le_refl _
  outcomes _ _ := rfl

/-- A job that does not tell of the end of a process is taken. -/
theorem proceeds_taken (hr : l.loop.ready = j :: js) (hj : j.concerns [] = false) :
    Proceeds l (l.taken js) :=
  proceeds_loop (.next hr hj) fun _ hf =>
    ⟨hf.loop.of_owes fun _ hi => (Loop.owes_next hr).2 (.inr hi), rfl⟩

theorem size_rested (t : TaskId) (g : Task → Task) (l : Link) :
    (l.rested t g).tasks.size = l.tasks.size := Array.size_modify ..

/-- What an activity has left to do may change, and it may wake up. -/
theorem proceeds_rested (g : Task → Task) (ho : ∀ x, (g x).outcome = x.outcome)
    (hw : ∀ x f, (g x).waitsFor = some f → x.waitsFor = some f) : Proceeds l (l.rested t g) := by
  have houtcome (u : TaskId) : ((l.rested t g).tasks.getD u default).outcome =
      (l.tasks.getD u default).outcome := getD_modify Task.outcome (ho _) u
  have hwaits {u : TaskId} {f : FutureId}
      (h : ((l.rested t g).tasks.getD u default).waitsFor = some f) :
      (l.tasks.getD u default).waitsFor = some f := by
    by_cases hu : u = t
    · subst hu
      by_cases hlt : u < l.tasks.size
      · rw [getD_rested_self hlt] at h
        exact hw _ f h
      · simpa [Link.rested, hlt] using h
    · rwa [getD_rested hu] at h
  refine ⟨⟨Nat.le_refl _, fun _ _ => id,
    fun f _ hf => ⟨{ hf with tasks := fun u hlt hu => ?_ }, rfl⟩⟩, rfl, .refl _,
    Nat.le_of_eq (size_rested t g l).symm, fun u _ => houtcome u⟩
  rw [houtcome]
  exact (hf.tasks u (size_rested t g l ▸ hlt) hu).imp id fun hne heq => hne (hwaits heq)

/-- The link once an activity was queued again. -/
def requeued (t : TaskId) (ks : List Resumption) (l : Link) : Link :=
  { l.rested t (fun task => { task with rest := ks }) with loop := l.loop.soon (.step t) }

/-- The link once an activity fell asleep. -/
def sleeping (t : TaskId) (f : FutureId) (ks : List Resumption) (l : Link) : Link :=
  { l.rested t (fun task => { task with rest := ks, waitsFor := some f }) with
    loop := l.loop.whenDone .call f (.wake t) }

theorem proceeds_requeued (ht : t < l.tasks.size) : Proceeds l (l.requeued t ks) := by
  have hlt : t < (l.rested t fun task => { task with rest := ks }).tasks.size := by
    simpa [Link.rested] using ht
  let c (task : Task) : Task := { task with rest := ks }
  refine trans_of Proceeds (proceeds_rested (t := t) c (fun _ => rfl) fun _ _ => id) ?_
  refine proceeds_loop (.soon List.not_mem_nil hlt) fun f hf => ⟨fun j hj => ?_, rfl⟩
  rcases Loop.owes_soon.1 hj with hj | rfl
  · exact hf.loop j hj
  · exact fun hjt => by cases hjt

theorem grows_sleeping (t : TaskId) (g : FutureId) (ks : List Resumption) (l : Link) :
    l.loop.futures.size ≤ (l.sleeping t g ks).loop.futures.size := (Loop.grows_whenDone ..).futures

/-- An activity falls asleep on one future, and the others are as they were. -/
theorem spared_sleeping (hf : l.Spared [] f) (hne : f ≠ g) : (l.sleeping t g ks).Spared [] f := by
  let c (task : Task) : Task := { task with rest := ks, waitsFor := some g }
  refine { hf with
    loop := hf.loop.whenDone nofun
    tasks := fun u hu' hu => ?_ }
  have hlt : u < l.tasks.size := size_rested t c l ▸ hu'
  show ((l.rested t c).tasks.getD u default).outcome ≠ f ∧
    ((l.rested t c).tasks.getD u default).waitsFor ≠ some f
  by_cases hut : u = t
  · subst hut
    rw [getD_rested_self hlt]
    exact ⟨(hf.tasks u hlt hu).1, fun heq => hne (Option.some.inj heq).symm⟩
  · rw [getD_rested hut]
    exact hf.tasks u hlt hu

/-- An activity may fall asleep on a future that it made in its turn. -/
theorem Sparing.sleeping (h : Sparing l l') (hle : l.loop.futures.size ≤ g)
    (hlt : g < l'.loop.futures.size) : Sparing l (l'.sleeping t g ks) := by
  have hgrows := grows_sleeping t g ks l'
  refine ⟨Nat.le_trans h.size hgrows, fun f e he => Loop.ending?_whenDone.trans (h.ended f e he),
    fun f hside hf => ?_⟩
  obtain ⟨hf', he⟩ := h.spared f (hside.imp id (Nat.le_trans hgrows)) hf
  refine ⟨spared_sleeping hf' ?_, Loop.ending?_whenDone.trans he⟩
  rintro rfl
  exact hside.elim (Nat.not_lt.2 hle) (Nat.not_le.2 (Nat.lt_of_lt_of_le hlt hgrows))

theorem Undisturbed.sleeping (h : l.Undisturbed A X F) (ht : t ∈ A) (hg : g < l.loop.futures.size)
    (hX : g ∉ X) : (l.sleeping t g ks).Undisturbed A X F := by
  have hgrows := grows_sleeping t g ks l
  have hsize : (l.sleeping t g ks).tasks.size = l.tasks.size := by simp [Link.sleeping, Link.rested]
  have howes {j : Job} (hj : (l.sleeping t g ks).loop.Owes j) :
      l.loop.Owes j ∨ j = .call (.wake t) g :=
    Loop.owes_of_whenDone hj
  have htask {u : TaskId} (hu : u ≠ t) :
      (l.sleeping t g ks).tasks.getD u default = l.tasks.getD u default := getD_rested hu
  have houtcome (u : TaskId) : ((l.sleeping t g ks).tasks.getD u default).outcome =
      (l.tasks.getD u default).outcome := getD_modify Task.outcome rfl u
  refine ⟨{ h.fit with
    sane := (Loop.remembers_whenDone (f := g) (k := .wake t) rfl).sane h.fit.sane
    there := fun u hu => hsize ▸ h.fit.there u hu
    turned := fun j hj u hju => ?_
    mild := fun u hu => ?_ }, fun f hf => ?_, fun m code ho => ?_, fun f ho => ?_, fun f hf => ?_,
    fun f hf => ?_⟩
  · rw [hsize]
    rcases howes hj with hj | rfl
    · exact h.fit.turned j hj u hju
    · cases hju
      exact h.fit.there _ ht
  · have hut : u ≠ t := fun hut => hu (hut ▸ ht)
    rw [Over, rest, htask hut]
    exact (h.fit.mild u hu).imp (fun hd => (Loop.grows_whenDone ..).done _ hd) id
  · have hf' := Nat.le_trans hgrows hf
    exact spared_sleeping (h.unknown f hf') (Nat.ne_of_gt (Nat.lt_of_lt_of_le hg hf'))
  · rcases howes ho with ho | heq
    · exact h.lasts m code ho
    · cases heq
  · rcases howes ho with ho | heq
    · exact h.gone f ho
    · cases heq
  · obtain ⟨hlt, hs, hd⟩ := h.lasting f hf
    refine ⟨Nat.lt_of_lt_of_le hlt hgrows, spared_sleeping hs fun heq => hX (heq ▸ hf), ?_⟩
    exact (congrArg Option.isSome Loop.ending?_whenDone).trans hd
  · refine ⟨Nat.lt_of_lt_of_le (h.given f hf).1 hgrows, (h.given f hf).2.1, fun u hu => ?_⟩
    rw [houtcome]
    exact (h.given f hf).2.2 u hu

/-- The outcome of an activity is nobody else's. -/
theorem proceeds_over {e : Ending Reply} {lo : Loop Reply Callback Job}
    (h : l.loop.settle? .call (l.tasks.getD t default).outcome e = some lo)
    (ht : t < l.tasks.size) :
    Proceeds l { l with loop := lo } :=
  proceeds_loop (.settle? h) fun _ hf => ⟨hf.loop.of_owes fun _ => (Loop.owes_settle? h).1,
    Loop.ending?_settle? h fun heq => (hf.tasks t ht List.not_mem_nil).1 heq.symm⟩

/-- Whatever nobody can end or write to may be changed. -/
theorem proceeds_alike (hlo : l'.loop = l.loop) (ht : l'.tasks = l.tasks)
    (hs : (l'.scripts, l'.recorder.failsCancelled) = (l.scripts, l.recorder.failsCancelled))
    (hp : ∀ q, ∀ r ∈ l'.pending q, r ∈ l.pending q)
    (hr : ∀ f, l'.client.ready = some f → l.client.ready = some f) : Proceeds l l' where
  size := by rw [hlo]
  ended _ _ := by rw [hlo]; exact id
  spared f _ hf := ⟨⟨hlo ▸ hf.loop, fun q r hmem => hf.pending q r (hp q r hmem), ht ▸ hf.tasks,
    fun heq => hf.ready (hr f heq)⟩, by rw [hlo]⟩
  scripts := hs
  loop := hlo ▸ .refl _
  tasks := Nat.le_of_eq (congrArg Array.size ht.symm)
  outcomes _ _ := by rw [ht]

/-! ### The one who acts -/

theorem Spared.taken (h : l.Spared A f) (hr : l.loop.ready = j :: js) : (l.taken js).Spared A f :=
  { h with loop := h.loop.of_owes fun _ hi => (Loop.owes_next hr).2 (.inr hi) }

theorem Spared.rested {c : Task → Task} (h : l.Spared A f) (ht : t ∈ A) :
    (l.rested t c).Spared A f := by
  refine { h with tasks := fun u hlt hu => ?_ }
  have hut : u ≠ t := fun hut => hu (hut ▸ ht)
  rw [getD_rested hut]
  exact h.tasks u (size_rested t c l ▸ hlt) hu

namespace Poised

theorem taken (h : l.Poised t ks o) (hr : l.loop.ready = j :: js) : (l.taken js).Poised t ks o :=
  h.mono rfl (Nat.le_refl _) (Nat.le_refl _) ⟨h.alone.taken hr, rfl⟩

/-- What is left to do may be replaced. -/
theorem rested {ks' : List Resumption} {o' : Option FutureId} (h : l.Poised t ks o)
    (c : Task → Task) (ho : ∀ x, (c x).outcome = x.outcome)
    (hrest : (c (l.tasks.getD t default)).rest = ks')
    (hwaits : (c (l.tasks.getD t default)).waitsFor = o')
    (hsteady : (c (l.tasks.getD t default)).mustCancel = false) :
    (l.rested t c).Poised t ks' o' := by
  have htask := getD_rested_self (g := c) h.there
  refine ⟨by simpa [Link.rested] using h.there, ?_, ?_, ?_, ?_, ?_, ?_⟩
  · rw [Link.rest, htask, hrest]
  · rw [htask, hwaits]
  · rw [htask, hsteady]
  · rw [htask, ho]
    exact h.made
  · rw [Over, htask, ho]
    exact h.goes
  · rw [htask, ho]
    exact h.alone.rested List.mem_cons_self

end Poised

namespace Acts

/-- The turn of an activity is taken. -/
theorem taken (h : l.Acts t ks none 1) (hr : l.loop.ready = .step t :: js) :
    (l.taken js).Acts t ks none 0 where
  toPoised := h.toPoised.taken hr
  wakes f := ⟨fun ho => (h.wakes f).1 ((Loop.owes_next hr).2 (.inr ho)), nofun⟩
  turns := by
    have hturns := (Loop.turns_next (A := [t]) hr).symm.trans h.turns
    simpa [Link.taken] using hturns

/-- The activity is queued again. -/
theorem requeued (h : l.Acts t ks none 0) (ks' : List Resumption) :
    (l.requeued t ks').Acts t ks' none 1 where
  toPoised := by
    let c (task : Task) : Task := { task with rest := ks' }
    have hc := h.toPoised.rested c (fun _ => rfl) rfl h.waits h.steady
    refine hc.mono rfl (Nat.le_refl _) (Nat.le_refl _)
      ⟨{ hc.alone with loop := fun i hi => ?_ }, rfl⟩
    rcases Loop.owes_soon.1 hi with hi | rfl
    · exact hc.alone.loop i hi
    · exact nofun
  wakes f := Loop.owes_soon.trans (by simpa using h.wakes f)
  turns := by
    have hturns := h.turns
    simp only [Loop.turns] at hturns
    simp [Link.requeued, Loop.turns, Loop.soon, List.countP_append, hturns]

/-- The activity falls asleep, and will be called. -/
theorem sleeping (h : l.Acts t ks none 0) (hg : g < l.loop.futures.size) (ks' : List Resumption) :
    (l.sleeping t g ks').Acts t ks' (some g) 0 where
  toPoised := by
    let c (task : Task) : Task := { task with rest := ks', waitsFor := some g }
    have hc := h.toPoised.rested c (fun _ => rfl) rfl rfl h.steady
    exact hc.mono rfl (Nat.le_refl _) (Loop.grows_whenDone ..).futures
      ⟨{ hc.alone with loop := hc.alone.loop.whenDone nofun }, Loop.ending?_whenDone⟩
  wakes f := by
    refine ⟨fun ho => ?_, ?_⟩
    · rcases Loop.owes_of_whenDone ho with ho | heq
      · cases (h.wakes f).1 ho
      · cases heq
        rfl
    · rintro ⟨⟩
      exact (Loop.asks_whenDone hg _).owes
  turns := Loop.turns_whenDone.trans h.turns

end Acts

/-- An activity that is over need not be kept apart. -/
theorem Undisturbed.leave (h : l.Undisturbed (t :: A) X F) (ht : l.Over t) :
    l.Undisturbed A X F where
  fit := { h.fit with
    there := fun u hu => h.fit.there u (List.mem_cons_of_mem t hu)
    mild := fun u hu => by
      by_cases hut : u = t
      · exact .inl (hut ▸ ht)
      · exact h.fit.mild u (List.not_mem_cons_of_ne_of_not_mem hut hu) }
  unknown := h.unknown
  lasts := h.lasts
  gone := h.gone
  lasting := h.lasting
  given f hf := ⟨(h.given f hf).1, (h.given f hf).2.1, fun u hu =>
    (h.given f hf).2.2 u (List.mem_cons_of_mem t hu)⟩

/-- The link in a turn of an activity. -/
def acting (t : TaskId) (js : List Job) (l : Link) : Link :=
  (l.taken js).rested t fun task => { task with waitsFor := none, mustCancel := false }

section Acting

variable (hr : l.loop.ready = j :: js) (hj : j.concerns [] = false)

include hr

include hj in
theorem proceeds_acting : Proceeds l (l.acting t js) := by
  unfold Link.acting
  refine trans_of Proceeds (proceeds_taken hr hj) ?_
  exact proceeds_rested _ (fun _ => rfl) fun _ _ h => by cases h

include hj in
theorem Undisturbed.acting (h : l.Undisturbed [t] X F) : (l.acting t js).Undisturbed [t] X F := by
  have hp := proceeds_acting (t := t) hr hj
  refine h.proceeds hp (fun u hu => ?_) fun u hu => ?_
  · have hut : u ≠ t := fun hut => hu (hut ▸ List.mem_cons_self)
    rw [Over, rest, Link.acting, getD_rested hut]
    exact h.fit.mild u hu
  · cases List.mem_singleton.1 hu
    have hlt := h.fit.there t hu
    refine ⟨Nat.lt_of_lt_of_le hlt hp.tasks, fun f hf => ?_⟩
    rw [hp.outcomes t hlt]
    exact (h.given f hf).2.2 t hu

theorem Poised.acting (h : l.Poised t ks o) : (l.acting t js).Poised t ks none :=
  (h.taken hr).rested _ (fun _ => rfl) h.rest rfl rfl

end Acting

theorem Acts.acting (h : l.Acts t ks none 1) (hr : l.loop.ready = .step t :: js) :
    (l.acting t js).Acts t ks none 0 :=
  ⟨h.toPoised.acting hr, (h.taken hr).wakes, (h.taken hr).turns⟩

/-! ### An activity that is over -/

/-- A future has ended, and nothing else. -/
def Closes (o : FutureId) (l l' : Link) : Prop :=
  ∃ lo, l' = { l with loop := lo } ∧ lo.done o = true ∧
    (lo = l.loop ∨ ∃ e, l.loop.settle? .call o e = some lo)

theorem Closes.proceeds (h : Closes (l.tasks.getD t default).outcome l l')
    (ht : t < l.tasks.size) : Proceeds l l' := by
  obtain ⟨lo, rfl, -, rfl | ⟨e, he⟩⟩ := h
  · exact refl_of Proceeds l
  · exact proceeds_over he ht

/-- Whoever is over leaves the others undisturbed. -/
theorem Closes.leave (hc : Closes (l.tasks.getD t default).outcome l l')
    (h : l.Undisturbed (t :: A) X F) : l'.Undisturbed A X F := by
  have hp := hc.proceeds (h.fit.there t List.mem_cons_self)
  have hover : l'.Over t := by
    obtain ⟨lo, rfl, hd, -⟩ := hc
    exact hd
  have htasks : l'.tasks = l.tasks := by
    obtain ⟨lo, rfl, -⟩ := hc
    rfl
  exact (h.alike hp htasks).leave hover

/-- Somebody else still acts. -/
theorem Closes.acts {f : FutureId} (hc : Closes f l l') (hf : f ≠ (l.tasks.getD t default).outcome)
    (h : l.Acts t ks o c) : l'.Acts t ks o c := by
  obtain ⟨lo, rfl, hd, rfl | ⟨e, he⟩⟩ := hc
  · exact h
  · have habides : l.loop.Abides [] 0 lo := .settle? he
    refine ⟨h.toPoised.mono rfl (Nat.le_refl _) habides.futures
      ⟨{ h.alone with loop := h.alone.loop.of_owes fun _ => (Loop.owes_settle? he).1 },
        Loop.ending?_settle? he hf.symm⟩, fun g => (Loop.owes_settle? he).trans (h.wakes g),
      (Loop.turns_settle? he).trans h.turns⟩

theorem settleOpen_closes {f : FutureId} (hf : f < l.loop.futures.size) (e : Ending Reply) :
    Ends (settleOpen f e) l fun y l' => (∃ b, y = .ok b) ∧ Closes f l l' := by
  refine .read ?_
  have hfut := Array.getElem?_eq_getElem hf
  split
  · rename_i lo hlo
    refine .change_bind (.pure ⟨⟨_, rfl⟩, lo, rfl, ?_, .inr ⟨e, hlo⟩⟩)
    rw [Loop.settle?, hfut] at hlo
    dsimp only at hlo
    split at hlo
    · cases hlo
    · cases hlo
      simp [Loop.done, Loop.ending?, hf]
  · rename_i hlo
    refine .pure ⟨⟨_, rfl⟩, _, rfl, ?_, .inl rfl⟩
    rw [Loop.settle?, hfut] at hlo
    dsimp only at hlo
    split at hlo
    · rename_i hd
      rw [Loop.done, Loop.ending?, hfut]
      exact hd
    · cases hlo

end Link

/-- What an activity that waits for `o` goes on with. -/
def Link.heardFrom (l : Link) (o : Option FutureId) : Except Failure Reply :=
  o.elim (.ok .nothing) fun f => ((l.loop.ending? f).getD .cancelled).toExcept

/-- What a turn of an activity comes to once its steps came to something: it falls asleep, is queued
again, or is over. -/
def Link.Comes (t : TaskId) (outcome : FutureId) (P : Link → Prop) (l : Link) :
    Except Failure Step → Prop
  | .ok (.wait f ks) => (l.tasks.getD t default).mustCancel = false ∧ P (l.sleeping t f ks)
  | .ok (.turn ks) => P (l.requeued t ks)
  | _ => outcome < l.loop.futures.size ∧ ∀ l', Link.Closes outcome l l' → P l'

namespace Workbench

variable {w : Workbench} {t : TaskId} {k : Resumption} {ks : List Resumption} {o : Option FutureId}
  {f : FutureId} {P : Link → Prop}

/-- Ending an activity ends its outcome, and nothing else. -/
theorem endTask_closes (hf : f < w.link.loop.futures.size) (r : Except Failure Reply) :
    Ends (endTask f r) w fun _ w' => Link.Closes f w.link w'.link := by
  refine .bind (.on ((Link.settleOpen_closes hf _).mono fun y l h => ?_))
  obtain ⟨⟨b, rfl⟩, h⟩ := h
  cases r with
  | ok reply => exact .pure h
  | error e =>
    show Ends (if _ then _ else _) _ _
    split
    · exact .throw h
    · exact .pure h

/-- **A turn** goes on with what is left to do. -/
theorem stepTask_goes (h : w.link.Poised t ks o)
    (hgoes : ∀ w₁ : Workbench,
      w₁.link = w.link.rested t (fun task => { task with waitsFor := none, mustCancel := false }) →
      Ends (resumeAll ks (w.link.heardFrom o)) w₁ fun y w₂ =>
        w₂.link.Comes t (w.link.tasks.getD t default).outcome P y) :
    Ends (stepTask t) w fun _ w' => P w'.link := by
  have hend {w₂ : Workbench} {y : Except Failure Step} (r : Except Failure Reply)
      (hP : (w.link.tasks.getD t default).outcome < w₂.link.loop.futures.size ∧
        ∀ l', Link.Closes (w.link.tasks.getD t default).outcome w₂.link l' → P l') :
      Ends (endTask (w.link.tasks.getD t default).outcome r) w₂ fun _ w' => P w'.link :=
    (endTask_closes hP.1 r).mono fun _ _ => hP.2 _
  refine .read (.read ?_)
  rw [if_neg (show ¬w.link.loop.done (w.link.tasks.getD t default).outcome = true from h.goes)]
  have hwake : Ends (wakeUp (w.link.tasks.getD t default)) w fun r w' =>
      r = .ok (w.link.heardFrom o) ∧ w' = w := by
    unfold wakeUp
    rw [h.steady, if_neg Bool.false_ne_true, h.waits]
    cases o with
    | none => exact .pure ⟨rfl, rfl⟩
    | some f => exact .read (.pure ⟨rfl, rfl⟩)
  refine .bind (hwake.mono fun r w₁ h₁ => ?_)
  obtain ⟨rfl, rfl⟩ := h₁
  refine .bind ((onTask_rested t _ _).mono fun x w₂ h₂ => ?_)
  obtain ⟨rfl, rfl⟩ := h₂
  rw [show (w₁.link.tasks.getD t default).rest = ks from h.rest]
  refine .bind (.outcome ((hgoes _ rfl).mono fun y w₃ h₃ => ?_))
  rcases y with f | ⟨reply | ⟨f, ks⟩ | ks⟩
  · exact hend (y := .error f) _ h₃
  · refine .read ?_
    split <;> exact hend (y := .ok (.done reply)) _ h₃
  · obtain ⟨hsteady, h₃⟩ := h₃
    refine .bind ((onTask_rested t _ _).mono fun x w₄ h₄ => ?_)
    obtain ⟨rfl, rfl⟩ := h₄
    refine .bind (.on ((Link.whenDone_ends f (.wake t) _).mono fun x l h => ?_))
    obtain ⟨rfl, rfl⟩ := h
    refine .read ?_
    have hcancel :
        ((rested t (fun task => { task with rest := ks, waitsFor := some f }) w₃).link.tasks.getD
        t default).mustCancel = false :=
      (Link.getD_modify Task.mustCancel rfl t).trans hsteady
    rw [if_neg (show ¬_ = true from hcancel ▸ Bool.false_ne_true)]
    exact .pure h₃
  · refine .bind ((onTask_rested t _ _).mono fun x w₄ h₄ => ?_)
    obtain ⟨rfl, rfl⟩ := h₄
    exact .on (Link.ends_soon h₃)

/-- An entry that concerns only the link is gone on with, and then with the others. -/
theorem resumeAll_onLink {Q : Except Failure Step → Workbench → Prop} {a : Act Link Step}
    {r : Except Failure Reply} (hk : resume k r = onLink a)
    (ha : Ends a w.link fun y l => ∀ w' : Workbench, w'.link = l → match y with
      | .ok (.done reply) => Ends (resumeAll ks (.ok reply)) w' Q
      | .error f => Ends (resumeAll ks (.error f)) w' Q
      | .ok (.wait f more) => Q (.ok (.wait f (more ++ ks))) w'
      | .ok (.turn more) => Q (.ok (.turn (more ++ ks))) w') :
    Ends (resumeAll (k :: ks) r) w Q := by
  rw [resumeAll, hk]
  refine .bind (.outcome (.on (ha.mono fun y l h => ?_)))
  have h := h { w with link := l } rfl
  rcases y with f | ⟨reply | ⟨f, more⟩ | more⟩
  · exact h
  · exact h
  · exact .pure h
  · exact .pure h

/-- The last entry tells what a turn comes to. -/
theorem resumeAll_last {Q : Except Failure Step → Workbench → Prop} {a : Act Link Step}
    {r : Except Failure Reply} (hk : resume k r = onLink a)
    (ha : Ends a w.link fun y l => ∀ w' : Workbench, w'.link = l → Q y w') :
    Ends (resumeAll [k] r) w Q := by
  refine resumeAll_onLink hk (ha.mono fun y l h w' hw' => ?_)
  rcases y with f | ⟨reply | ⟨f, more⟩ | more⟩
  · exact .bind (.ofExcept (h w' hw'))
  · exact .bind (.ofExcept (.pure (h w' hw')))
  · show Q (.ok (.wait f (more ++ []))) w'
    rw [List.append_nil]
    exact h w' hw'
  · show Q (.ok (.turn (more ++ []))) w'
    rw [List.append_nil]
    exact h w' hw'

end Workbench

end EditorBridge
