/-
Bystanders.

While some activities start a server and greet it, all the others only wait for readiness.
Their turns are taken without a word, and so is every job that concerns none of the former.
A bystander that falls asleep waits for a future that it has just made, and a job that
ends a future was known to be about it; so in each case all the other futures are left
alone.
-/
import EditorBridge.Proofs.Client.Rounds
import EditorBridge.Proofs.Handshake.Hearing

namespace EditorBridge

open Act (Ends Keeps Reads)
open Resumption (All)

namespace Link

variable {l l' : Link} {A : List TaskId} {f g : FutureId} {t : TaskId}

/-- Any other activity may be changed, as long as it goes on waiting for readiness. -/
theorem tacit_rested {c : Task → Task} (ht : t ∉ A) (ho : ∀ x, (c x).outcome = x.outcome)
    (hr : ∀ x, All Resumption.isMild x.rest → All Resumption.isMild (c x).rest)
    (hw : ∀ x, (c x).waitsFor = some f → x.waitsFor = some f) :
    Tacit A f l (l.rested t c) := by
  have hother {u : TaskId} (hu : u ≠ t) :
      (l.rested t c).tasks.getD u default = l.tasks.getD u default := getD_rested hu
  have hself : (l.rested t c).tasks.getD t default = l.tasks.getD t default ∨
      (l.rested t c).tasks.getD t default = c (l.tasks.getD t default) := by
    by_cases hlt : t < l.tasks.size
    · exact .inr (getD_rested_self hlt)
    · exact .inl (by simp [Link.rested, hlt])
  have hsize : (l.rested t c).tasks.size = l.tasks.size := Array.size_modify ..
  refine fun h => ⟨{
    fit := { h with
      there := fun u hu => hsize ▸ h.there u hu
      turned := fun j hj u hu => hsize ▸ h.turned j hj u hu
      mild := fun u hu => ?_ }
    wiring := rfl
    client := rfl
    loop := .refl _
    ended := fun _ _ => id
    size := Nat.le_of_eq hsize.symm
    there := h.there
    tasks := fun u hu => hother fun hut => ht (hut ▸ hu)
    owes := fun _ _ => Iff.rfl
    turns := rfl
    spared := fun _ hs => ⟨{ hs with tasks := fun u hlt hu => ?_ }, rfl⟩ },
    fun _ => rfl, fun _ => rfl, fun _ _ => id⟩
  · unfold Over rest
    by_cases hut : u = t
    · subst hut
      rcases hself with hself | hself <;> rw [hself]
      · exact h.mild u hu
      · exact (h.mild u hu).imp (fun hd => by rw [ho]; exact hd) (hr _)
    · rw [hother hut]
      exact h.mild u hu
  · by_cases hut : u = t
    · subst hut
      rcases hself with hself | hself <;> rw [hself]
      · exact hs.tasks u (hsize ▸ hlt) hu
      · obtain ⟨hne, hwaits⟩ := hs.tasks u (hsize ▸ hlt) hu
        exact ⟨by rwa [ho], fun hf => hwaits (hw _ hf)⟩
    · rw [hother hut]
      exact hs.tasks u (hsize ▸ hlt) hu

/-- Any other activity that is there may be queued. -/
theorem tacit_queued (ht : t ∉ A) (hlt : t < l.tasks.size) :
    Tacit A f l { l with loop := l.loop.soon (.step t) } :=
  tacit_loop (fun _ => .soon ht hlt) fun hs => ⟨fun j hj => by
    rcases Loop.owes_soon.1 hj with hj | rfl
    · exact hs j hj
    · exact nofun, rfl⟩

/-- What waiting for readiness comes to: an answer, or a future of its own. -/
def Dozes (l : Link) (x : Except Failure Step) (l' : Link) : Prop :=
  l.loop.futures.size ≤ l'.loop.futures.size ∧ match x with
    | .ok (.wait o ks) => ks = [.reply] ∧ l.loop.futures.size ≤ o ∧ o < l'.loop.futures.size
    | .ok (.turn _) => False
    | _ => True

theorem ready_dozes (l : Link) : Ends Link.ready l (Dozes l) := by
  unfold Link.ready
  refine .read ?_
  split
  · exact .throw ⟨Nat.le_refl _, trivial⟩
  rename_i r _
  have hgo (x : Except Failure Reply) {l' : Link}
      (hle : l.loop.futures.size ≤ l'.loop.futures.size) :
      Ends (do return .done (← Act.ofExcept x)) l' (Dozes l) := by
    refine .bind (.ofExcept ?_)
    cases x with
    | ok reply => exact .pure ⟨hle, trivial⟩
    | error f => exact ⟨hle, trivial⟩
  unfold shield
  refine .bind (.read ?_)
  split
  · rename_i hd
    refine .pure (.read ?_)
    split
    · exact hgo _ (Nat.le_refl _)
    · rename_i hnone
      rw [Loop.done, hnone] at hd
      cases hd
  · refine .bind (newFuture_ends.mono fun x l₁ h₁ => ?_)
    obtain ⟨rfl, rfl⟩ := h₁
    refine .bind ((whenDone_ends r _ _).mono fun x l₂ h₂ => ?_)
    obtain ⟨rfl, rfl⟩ := h₂
    refine .bind ((whenDone_ends _ (.forgetCopy r) _).mono fun x l₃ h₃ => ?_)
    obtain ⟨rfl, rfl⟩ := h₃
    have hgrows := (Loop.grows_whenDone Job.call r (.copy l.loop.futures.size)
      l.loop.create.2).trans
      (Loop.grows_whenDone Job.call l.loop.futures.size (.forgetCopy r) _)
    have hsize : l.loop.futures.size < l.loop.create.2.futures.size := by simp [Loop.create]
    have hlt := Nat.lt_of_lt_of_le hsize hgrows.futures
    refine .pure (.read ?_)
    split
    · exact hgo _ (Nat.le_of_lt hlt)
    · exact .pure ⟨Nat.le_of_lt hlt, rfl, Nat.le_refl _, hlt⟩

end Link

namespace Workbench

variable {w w' : Workbench} {A : List TaskId} {f : FutureId} {t : TaskId} {j : Job}

/-- A link of a workbench goes on without a word. -/
def Tacit (A : List TaskId) (f : FutureId) (w w' : Workbench) : Prop :=
  Link.Tacit A f w.link w'.link

instance : IsPreorder Workbench (Tacit A f) where
  refl w := refl_of (Link.Tacit A f) w.link
  trans _ _ _ := trans_of (Link.Tacit A f)

instance tacit_onLink {α : Type} (a : Act Link α) [Keeps (Link.Tacit A f) a] :
    Keeps (Tacit A f) (onLink a) :=
  Keeps.on (T := Link.Tacit A f) fun _ _ h => h

/-! ### Turns -/

/-- How a bystander's steps may end: it has nothing left to do but to wait for readiness, and what
it waits for is its own. -/
def Mild (A : List TaskId) (w : Workbench) (x : Except Failure Step) (w' : Workbench) : Prop :=
  (∀ f, Tacit A f w w') ∧ w.link.loop.futures.size ≤ w'.link.loop.futures.size ∧
    (∀ s, x = .ok s → All Resumption.isMild s.rest) ∧
    ∀ o ks, x = .ok (.wait o ks) → w.link.loop.futures.size ≤ o ∧ o < w'.link.loop.futures.size

/-- What goes on with a reply adds nothing of its own. -/
theorem Mild.trans {w₁ : Workbench} {x : Except Failure Step} (h : ∀ f, Tacit A f w w₁)
    (hle : w.link.loop.futures.size ≤ w₁.link.loop.futures.size) (h' : Mild A w₁ x w') :
    Mild A w x w' :=
  ⟨fun f => trans_of (Tacit A f) (h f) (h'.1 f), Nat.le_trans hle h'.2.1, h'.2.2.1,
    fun o ks hx => (h'.2.2.2 o ks hx).imp (Nat.le_trans hle) id⟩

theorem resumeAll_mild {rest : List Resumption} (h : All Resumption.isMild rest)
    (r : Except Failure Reply) (w : Workbench) : Ends (resumeAll rest r) w (Mild A w) := by
  have hrefl (w : Workbench) (f : FutureId) : Tacit A f w w := refl_of (Tacit A f) w
  have hsame {x : Except Failure Step} {w : Workbench}
      (hx : ∀ s, x = .ok s → ∃ reply, s = .done reply) :
      Mild A w x w := by
    refine ⟨hrefl w, Nat.le_refl _, fun s hs => ?_, fun o ks hs => ?_⟩
    · obtain ⟨reply, rfl⟩ := hx s hs
      exact .nil
    · obtain ⟨reply, hreply⟩ := hx _ hs
      cases hreply
  induction rest generalizing r w with
  | nil =>
    unfold resumeAll
    refine .bind (.ofExcept ?_)
    cases r with
    | ok reply => exact .pure (hsame (by rintro s ⟨⟩; exact ⟨_, rfl⟩))
    | error f => exact hsame fun s hs => by cases hs
  | cons k ks ih =>
    obtain ⟨hk, hks⟩ := List.forall_mem_cons.1 h
    unfold resumeAll
    refine .bind (.outcome ?_)
    cases k with
    | traced logger call =>
      refine .afterCall ?_
      cases r <;> exact ih hks _ w
    | reply =>
      refine .bind (.ofExcept ?_)
      cases r with
      | ok reply => exact .pure (ih hks _ w)
      | error f => exact ih hks _ w
    | await =>
      refine .bind (.ofExcept ?_)
      cases r with
      | error f => exact ih hks _ w
      | ok _ =>
        have htacit : Ends Link.ready w.link fun _ l => ∀ f, Link.Tacit A f w.link l :=
          fun j f => (Link.tacit_ready (A := A) (f := f)).keeps ⟨j, w.link⟩
        refine .on ((htacit.and (Link.ready_dozes w.link)).mono fun x l hl => ?_)
        obtain ⟨hs, hle, hx⟩ := hl
        have hgo (r : Except Failure Reply) :
            Ends (resumeAll ks r) { w with link := l } (Mild A w) :=
          (ih hks r _).mono fun _ _ => Mild.trans hs hle
        rcases x with f | ⟨reply | ⟨o, more⟩ | more⟩
        · exact hgo _
        · exact hgo _
        · obtain ⟨rfl, ho⟩ := hx
          refine .pure ⟨hs, hle, fun s hs => ?_, fun o' ks' heq => ?_⟩
          · cases hs
            exact All.append (List.forall_mem_singleton.2 rfl) hks
          · cases heq
            exact ho
        · exact hx.elim
    | _ => cases hk

/-- An activity that is not one of some may be over, fall asleep, or be queued again. -/
theorem tacit_onTask {c : Task → Task} (ht : t ∉ A) (ho : ∀ x, (c x).outcome = x.outcome)
    (hr : ∀ x, All Resumption.isMild x.rest → All Resumption.isMild (c x).rest)
    (hw : ∀ x, (c x).waitsFor = some f → x.waitsFor = some f) : Keeps (Tacit A f) (onTask t c) :=
  .of_ends fun w => (onTask_rested t c w).mono fun _ _ h => by
    obtain ⟨-, rfl⟩ := h
    exact Link.tacit_rested ht ho hr hw

theorem tacit_endTask {outcome : FutureId} (hf : f ≠ outcome) (r : Except Failure Reply) :
    Keeps (Tacit A f) (endTask outcome r) := by
  have (e : Ending Reply) := Link.tacit_settleOpen (A := A) hf e
  unfold endTask
  cases r <;> infer_instance

theorem tacit_suspend {o : FutureId} {ks : List Resumption} (ht : t ∉ A)
    (hlt : t < w.link.tasks.size) (hf : f ≠ o) (hks : All Resumption.isMild ks) :
    Ends (suspend t o ks) w fun _ => Tacit A f w := by
  have hrest :
      Tacit A f w (rested t (fun task => { task with rest := ks, waitsFor := some o }) w) :=
    Link.tacit_rested ht (fun _ => rfl) (fun _ _ => hks) fun _ heq =>
      absurd (Option.some.inj heq).symm hf
  have hcancelled : Keeps (Tacit A f) (onTask t fun task => { task with mustCancel := false }) :=
    tacit_onTask ht (fun _ => rfl) (fun _ => id) fun _ => id
  have hcancel := Link.tacit_settleOpen (A := A) hf .cancelled
  have hlater : Keeps (Tacit A f) (do
      if ((← Act.state).link.tasks.getD t default).mustCancel then
        if ← onLink (Link.settleOpen o .cancelled) then
          onTask t fun task => { task with mustCancel := false }) := inferInstance
  unfold suspend
  refine .bind ((onTask_rested t _ w).mono fun x w₁ h₁ => ?_)
  obtain ⟨rfl, rfl⟩ := h₁
  refine .bind (.on ((Link.whenDone_ends o (.wake t) _).mono fun x l h => ?_))
  obtain ⟨rfl, rfl⟩ := h
  have hwake :
      Link.Tacit A f (w.link.rested t fun task => { task with rest := ks, waitsFor := some o }) _ :=
    Link.tacit_asked (k := .wake t) (g := o) rfl (by simpa [Job.concerns] using ht)
      (fun _ u hu => by cases hu; simpa [Link.rested] using hlt) nofun
  refine (hlater.ends _).mono fun _ _ h => ?_
  exact trans_of (Link.Tacit A f) (trans_of (Link.Tacit A f) hrest hwake) h

theorem tacit_giveTurn {ks : List Resumption} (ht : t ∉ A) (hlt : t < w.link.tasks.size)
    (hks : All Resumption.isMild ks) : Ends (do
      onTask t fun task => { task with rest := ks }
      onLink (Link.soon (.step t))) w fun _ => Tacit A f w := by
  have hrest : Tacit A f w (rested t (fun task => { task with rest := ks }) w) :=
    Link.tacit_rested ht (fun _ => rfl) (fun _ _ => hks) fun _ => id
  refine .bind ((onTask_rested t _ w).mono fun x w₁ h₁ => ?_)
  obtain ⟨rfl, rfl⟩ := h₁
  refine .on (Link.ends_soon ?_)
  exact trans_of (Link.Tacit A f) hrest
    (Link.tacit_queued ht (by simpa [rested, Link.rested] using hlt))

/-- What is done about one future is done without a word, if that future was not to be left
alone. -/
theorem tacit_but {α : Type} {a : Act Workbench α} {w w₁ : Workbench} {g : FutureId}
    (h : ∀ f, Tacit A f w w₁) (ha : ∀ f, f ≠ g → Ends a w₁ fun _ => Tacit A f w₁)
    (hg : ∀ w', Tacit A (g + 1) w₁ w' → w.link.Fit A →
      g < w.link.loop.futures.size ∨ w'.link.loop.futures.size ≤ g → ¬w.link.Spared A g) :
    Ends a w₁ fun _ w' => ∀ f, Tacit A f w w' :=
  fun j => Link.Tacit.of_ne (fun f hf => trans_of (Tacit A f) (h f) (ha f hf j))
    (hg _ (ha _ (Nat.succ_ne_self g) j))

/-- **The turn of a bystander** is taken without a word. -/
theorem stepTask_tacit (ht : t ∉ A) (hlt : t < w.link.tasks.size) :
    Ends (stepTask t) w fun _ w' => ∀ f, Tacit A f w w' := by
  by_cases hl : w.link.Fit A
  swap
  · exact fun _ _ h => absurd h hl
  refine .read (.read ?_)
  by_cases hover : w.link.loop.done (w.link.tasks.getD t default).outcome = true
  · rw [if_pos hover]
    exact .pure fun f => refl_of (Tacit A f) w
  rw [if_neg hover]
  have hmild := (hl.mild t ht).resolve_left hover
  have hthere {f : FutureId} (w' : Workbench) (h : Tacit A f w w') : t < w'.link.tasks.size :=
    Nat.lt_of_lt_of_le hlt (h hl).1.size
  refine .read (.bind ((onTask_rested t _ w).mono fun x w₁ h₁ => ?_))
  obtain ⟨rfl, rfl⟩ := h₁
  have hawake (f : FutureId) : Tacit A f w
      (rested t (fun task => { task with waitsFor := none, mustCancel := false }) w) :=
    Link.tacit_rested ht (fun _ => rfl) (fun _ => id) nofun
  refine .bind (.outcome ((resumeAll_mild (A := A) hmild _ _).mono fun y w₂ h₂ => ?_))
  obtain ⟨hs, -, hrest, hnew⟩ := h₂.trans hawake (Nat.le_refl _)
  have hend (r : Except Failure Reply) : Ends (endTask (w.link.tasks.getD t default).outcome r) w₂
      fun _ w' => ∀ f, Tacit A f w w' :=
    tacit_but hs (fun f hf => (tacit_endTask hf r).ends w₂) fun _ _ _ _ hs =>
      (hs.tasks t hlt ht).1 rfl
  rcases y with f | ⟨reply | ⟨o, ks⟩ | ks⟩
  · exact hend _
  · refine .read ?_
    by_cases hm : (w₂.link.tasks.getD t default).mustCancel = true
    · rw [if_pos hm]
      exact hend _
    · rw [if_neg hm]
      exact hend _
  · obtain ⟨hle, hlt⟩ := hnew o ks rfl
    refine tacit_but hs (fun f hf => tacit_suspend ht (hthere w₂ (hs 0)) hf (hrest _ rfl))
      fun w' hw' _ hside _ => ?_
    have hgrows := (hw' (hs 0 hl).1.fit).1.loop.futures
    exact hside.elim (Nat.not_lt.2 hle) (Nat.not_le.2 (Nat.lt_of_lt_of_le hlt hgrows))
  · exact fun j f => trans_of (Tacit A f) (hs f) (tacit_giveTurn ht (hthere w₂ (hs f))
      (hrest _ rfl) j)

/-! ### Jobs -/

/-- A future ends like another one did, and nothing else is done. -/
theorem tacit_copyEnding {source target : FutureId} (hf : f ≠ target) :
    Keeps (Tacit A f) (onLink (copyEnding source target)) := by
  have (e : Ending Reply) := Link.tacit_settleOpen (A := A) hf e
  have : Keeps (Link.Tacit A f) (copyEnding source target) := by
    unfold copyEnding
    refine .andThen fun e => ?_
    split <;> infer_instance
  infer_instance

theorem tacit_release {g : FutureId} (hf : f ≠ g) :
    Keeps (Tacit A f) (onLink do let _ ← Link.settleOpen g (.result .nothing)) := by
  have := Link.tacit_settleOpen (A := A) hf (.result .nothing)
  infer_instance

/-- **A job that concerns nobody** in particular is done without a word. -/
theorem doJob_tacit {js : List Job} (hr : w.link.loop.ready = j :: js) (hj : j.concerns A = false) :
    Ends (doJob j) { w with link := w.link.taken js } fun _ w' => ∀ f, Tacit A f w w' := by
  by_cases hl : w.link.Fit A
  swap
  · exact fun _ _ h => absurd h hl
  have hready : j ∈ w.link.loop.ready := hr ▸ List.mem_cons_self
  have htaken (f : FutureId) : Tacit A f w { w with link := w.link.taken js } :=
    Link.tacit_next hr hj
  have hnamed {g : FutureId} (h : j.target? = some g) (w' : Workbench)
      (_ : Tacit A (g + 1) { w with link := w.link.taken js } w') (_ : w.link.Fit A)
      (_ : g < w.link.loop.futures.size ∨ w'.link.loop.futures.size ≤ g) : ¬w.link.Spared A g :=
    fun hs => hs.loop j (.inl hready) h
  have hturn {t : TaskId} (ht : t ∉ A) (hjt : j.turn? = some t) :
      Ends (stepTask t) { w with link := w.link.taken js } fun _ w' => ∀ f, Tacit A f w w' :=
    (stepTask_tacit (w := { w with link := w.link.taken js }) ht
      (hl.turned j (.inl hready) t hjt)).mono fun _ _ h f => trans_of (Tacit A f) (htaken f) (h f)
  cases j with
  | step t => exact hturn (by simpa [Job.concerns] using hj) rfl
  | release g => exact tacit_but htaken (fun f hf => (tacit_release hf).ends _) (hnamed rfl)
  | react n script id => exact absurd hready (hl.sane.reactions n script id)
  | die n code => cases hj
  | call k g =>
    have hcall := hl.sane.jobs g k hready
    cases k with
    | wake t => exact hturn (by simpa [Job.concerns] using hj) rfl
    | release o => exact tacit_but htaken (fun f hf => (tacit_release hf).ends _) (hnamed rfl)
    | copy o => exact tacit_but htaken (fun f hf => (tacit_copyEnding hf).ends _) (hnamed rfl)
    | pass o => exact tacit_but htaken (fun f hf => (tacit_copyEnding hf).ends _) (hnamed rfl)
    | forgetCopy inner =>
      have hforget (f : FutureId) : Ends (Link.forget inner (.copy g)) (w.link.taken js)
          fun _ => Link.Tacit A f (w.link.taken js) := Link.tacit_forget rfl (fun _ => rfl) hcall.1
      show Ends (onLink (Link.forget inner (.copy g))) _ _
      refine .on fun j f => ?_
      exact trans_of (Link.Tacit A f) (htaken f) (hforget f j)
    | unregister t n =>
      have hunregister (f : FutureId) : Keeps (Tacit A f) (doJob (.call (.unregister t n) g)) := by
        unfold doJob callBack
        infer_instance
      exact fun j f => trans_of (Tacit A f) (htaken f) ((hunregister f).keeps ⟨j, _⟩)
    | formatted => cases hcall.2
    | gone => cases hj

end Workbench

end EditorBridge
