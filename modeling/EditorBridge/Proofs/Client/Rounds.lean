/-
The loop of a client does its jobs.

A turn of the activity that starts the client brings its process to the next stage, or to
none (`Advances`).  A turn of any other activity leaves the stage as it is, and so does every
other job but the one that tells of the end of the process, which is there only while the
process runs.  So every job leaves the process in a stage (`Stage.works`).
-/
import EditorBridge.Proofs.Client.Departing

namespace EditorBridge

open Act (Ends Keeps)
open Resumption (All)

namespace Link

variable {l l' : Link} {hand : List Job} {own W : List TaskId} {F : List FutureId} {t : TaskId}
  {n : ProcessId} {p : PeerId} {r x : FutureId} {s : Nat} {ready : Option FutureId}

/-! ### Jobs that are taken -/

/-- The link without the first of its jobs. -/
def taken (js : List Job) (l : Link) : Link := { l with loop := { l.loop with ready := js } }

section Taking

variable {j : Job} {js : List Job} {f : FutureId} {k : Callback}

theorem Orderly.taken (h : l.Orderly) (hj : l.loop.ready = j :: js) : (l.taken js).Orderly where
  sane := by
    have hmem {i : Job} (hi : i ∈ js) : i ∈ l.loop.ready := hj ▸ List.mem_cons_of_mem j hi
    exact ⟨fun f k hk => h.sane.jobs f k (hmem hk), h.sane.calls, h.sane.timers,
      fun m script id hr => h.sane.reactions m script id (hmem hr)⟩
  scripts := h.scripts
  tables p := (h.tables p).mono (Nat.le_refl _) rfl rfl (Nat.le_refl _)
  outcomes := h.outcomes
  owners := h.owners
  exits := h.exits
  told := h.told
  keepable q hq := (h.keepable q hq).mono (Nat.le_refl _)

theorem mem_taken {i : Job} (hj : l.loop.ready = j :: js) (hi : i ∈ l.loop.ready) :
    i ∈ js ∨ i ∈ [j] := by
  rw [hj] at hi
  exact (List.mem_cons.1 hi).symm.imp id List.mem_singleton.2

theorem Hears.taken (hj : l.loop.ready = j :: js) (h : l.Hears [] f k) : (l.taken js).Hears [j] f k := by
  rcases h with (hc | hi) | hi
  · exact .inl (.inl hc)
  · exact (mem_taken hj hi).imp .inr id
  · cases hi

theorem Waiting.taken (hj : l.loop.ready = j :: js) (h : l.Waiting [] t) :
    (l.taken js).Waiting [j] t := by
  cases h with
  | ended ho => exact .ended ho
  | queued hr hi => exact .queued hr (mem_taken hj (hi.resolve_right List.not_mem_nil))
  | asleep hr hw hc => exact .asleep hr (hw.taken hj) (hc.imp id fun ⟨r, hr, hd⟩ => ⟨r, hr.taken hj, hd⟩)

/-- Nobody is forgotten when a job is taken, because it is in hand then. -/
theorem Alive.taken (hj : l.loop.ready = j :: js) (h : l.Alive own W F []) :
    (l.taken js).Alive own W F [j] where
  orderly := h.orderly.taken hj
  waiters := h.waiters
  active t ht := ⟨(h.active t ht).tame, fun hmem => ((h.active t ht).waits hmem).taken hj⟩
  given := h.given
  secured f hf := by
    rcases h.secured f hf with ((ho | ⟨g, hasks, ho⟩) | hq) | ⟨g, hg⟩
    · exact .inl (.inl (.inl ho))
    · rcases Hears.taken hj (.inl hasks) with hasks | hmem
      · exact .inl (.inl (.inr ⟨g, hasks, ho⟩))
      · exact .inr ⟨g, hmem⟩
    · exact .inl (.inr hq)
    · cases hg

theorem gones_taken (hj : l.loop.ready = j :: js) :
    (l.taken js).loop.gones + [j].countP Job.isGone = l.loop.gones + [].countP Job.isGone := by
  have hcount : (j :: js).countP Job.isGone = [j].countP Job.isGone + js.countP Job.isGone := by
    rw [← List.countP_append, List.singleton_append]
  simp only [taken, Loop.gones, hj, hcount, List.countP_nil]
  omega

theorem Stands.taken {c : Posture} (hj : l.loop.ready = j :: js) (h : l.Stands c []) :
    (l.taken js).Stands c [j] :=
  { h with gones := (gones_taken hj).trans h.gones }

theorem Stage.taken {t₀ : TaskId} (hj : l.loop.ready = j :: js) (h : l.Stage t₀ n s W F []) :
    (l.taken js).Stage t₀ n s W F [j] := by
  cases h with
  | called h hF hc hp => exact .called (h.taken hj) hF ⟨hc.stands.taken hj, hc.done⟩ hp
  | starting h hc hp hks =>
    exact .starting (h.taken hj) { hc with stands := hc.stands.taken hj } hp hks
  | running h hc =>
    exact .running (h.taken hj)
      { hc with stands := hc.stands.taken hj, listens := hc.listens.taken hj }
  | finished h hc => exact .finished (h.taken hj) { hc with stands := hc.stands.taken hj }
  | never h hn hg => exact .never (h.taken hj) hn ((gones_taken hj).trans hg)

end Taking

/-! ### Jobs that are done -/

theorem Called.put (h : l.Called n s ready hand) (hj : hand.countP Job.isGone = 0) :
    l.Called n s ready [] := ⟨h.stands.put hj, h.done⟩

theorem Starting.put (h : l.Starting n s p r x hand) (hj : hand.countP Job.isGone = 0) :
    l.Starting n s p r x [] := { h with stands := h.stands.put hj }

theorem Finished.put (h : l.Finished n s p ready hand) (hj : hand.countP Job.isGone = 0) :
    l.Finished n s p ready [] := { h with stands := h.stands.put hj }

theorem Running.put (h : l.Running n s p r x hand) (hj : hand.countP Job.isGone = 0) :
    l.Running n s p r x [] := by
  refine { h with stands := h.stands.put hj, listens := .inl (h.listens.resolve_right fun hmem => ?_) }
  have hpos : 0 < hand.countP Job.isGone := List.countP_pos_iff.2 ⟨_, hmem, rfl⟩
  omega

theorem Informed.mono {j : Job} (h : l.Informed [] j) : l.Informed own j := by
  cases j with
  | step => cases h
  | call k f => cases k <;> first | exact h | cases h
  | release | react | die => exact h

/-- A job that is done and does not tell of the end of the process need not be kept. -/
theorem Stage.put {t₀ : TaskId} {j : Job} (h : l.Stage t₀ n s W F [j]) (hj : l.Informed [] j)
    (hg : j.isGone = false) : l.Stage t₀ n s W F [] := by
  have hcount : [j].countP Job.isGone = 0 := by simp [hg]
  have hput {own : List TaskId} : ∀ j' ∈ [j], l.Informed own j' := List.forall_mem_singleton.2 hj.mono
  cases h with
  | called h hF hc hp => exact .called (h.put hput) hF (hc.put hcount) hp
  | starting h hc hp hks => exact .starting (h.put hput) (hc.put hcount) hp hks
  | running h hc => exact .running (h.put hput) (hc.put hcount)
  | finished h hc => exact .finished (h.put hput) (hc.put hcount)
  | never h hn hg' => exact .never (h.put hput) hn (by simpa [hg] using hg')

/-- Those who wait may be given up. -/
theorem Alive.dismissed (h : l.Alive own W F hand) (hc : Carries [] l l') (ho : l'.Orderly) :
    l'.Alive own [] [] hand where
  orderly := ho
  waiters := nofun
  active t ht := by
    refine ⟨?_, nofun⟩
    by_cases hlt : t < l.tasks.size
    · exact (h.active t ht).tame.imp (·.mono hc hlt) fun hall => hc.rest hlt ▸ hall
    · exact .inr (hc.begun t (Nat.le_of_not_lt hlt))
  given := nofun
  secured := nofun

/-- The future of readiness exists if it is one of those or has ended. -/
theorem Stands.ready_lt {c : Posture} (h : l.Stands c hand)
    (hc : ∀ r, c.ready = some r → r < l.loop.futures.size ∨ l.loop.done r = true) (f : FutureId)
    (hf : l.client.ready = some f) : f < l.loop.futures.size := by
  rcases hc f (h.ready.symm.trans hf) with hlt | hd
  · exact hlt
  · obtain ⟨e, he⟩ := Option.isSome_iff_exists.1 hd
    exact lt_of_ending? he

theorem settleOpen_size (f : FutureId) (e : Ending Reply) (l : Link) :
    Ends (settleOpen f e) l fun _ l' => l'.loop.futures.size = l.loop.futures.size := by
  refine .read ?_
  split
  · rename_i lo hlo
    refine .change_bind (.pure ?_)
    unfold Loop.settle? at hlo
    split at hlo
    · cases hlo
    · split at hlo
      · cases hlo
      · cases hlo
        exact Array.size_setIfInBounds ..
  · exact .pure rfl

end Link

namespace Workbench

open Link (Alive Bides Carries SameReady)

variable {w w' : Workbench} {j : Job} {own W : List TaskId} {F : List FutureId} {t t₀ : TaskId}
  {n : ProcessId} {p : PeerId} {r x : FutureId} {s : Nat} {ready : Option FutureId}
  {P : Link → Prop}

/-! ### Turns of others -/

/-- What stays whatever serves those who wait, and whatever the activity has left to do, stays in
its turn. -/
theorem Turned.keeps (hturn : Turned t (Proper W t w) w w') (ho : w.link.Orderly)
    (hP : ∀ l l', Bides [] [] l l' → P l → P l') (hrested : ∀ g l, P l → P (l.rested t g))
    (h : P w.link) : w'.onStop = w.onStop ∧ P w'.link := by
  have hserved {w w' : Workbench} (hs : Serves w w') (ho : w.link.Orderly) (h : P w.link) :
      P w'.link := hP _ _ (hs.2 ho).2 h
  cases hturn with
  | idle hd heq =>
    subst heq
    exact ⟨rfl, h⟩
  | ended hQ hr hs hd =>
    have hs := trans_of Serves hQ.1 hs
    exact ⟨hs.1, hserved hs ho h⟩
  | waits hQ hg hs hwoken =>
    have ho₁ := (hQ.1.2 ho).1
    exact ⟨hs.1.trans hQ.1.1, hserved hs (ho₁.rested fun x => (hg x).2) (hrested _ _ (hserved hQ.1 ho h))⟩
  | turns hQ hg hs hqueued =>
    have ho₁ := (hQ.1.2 ho).1
    exact ⟨hs.1.trans hQ.1.1, hserved hs (ho₁.rested fun x => (hg x).2) (hrested _ _ (hserved hQ.1 ho h))⟩

/-- **A turn of another activity** leaves everything as it is. -/
theorem turn_alive (h : w.link.Alive own W F [j]) (ht : t ∉ own)
    (hj : ∀ own l, t ∈ own → Link.Informed own l j)
    (hready : t ∈ W → ∀ r, w.link.client.ready = some r → r < w.link.loop.futures.size)
    (hP : ∀ l l', Bides [] [] l l' → P l → P l') (hrested : ∀ g l, P l → P (l.rested t g))
    (hw : P w.link) :
    Ends (stepTask t) w fun _ w' => w'.onStop = w.onStop ∧ w'.link.Alive own W F [] ∧ P w'.link :=
  (stepTask_proper (h.active t ht) h.orderly hready).mono fun _ w' hturn => by
    obtain ⟨hstop, hP⟩ := hturn.keeps h.orderly hP hrested hw
    exact ⟨hstop, hturn.alive h fun l => hj _ l List.mem_cons_self, hP⟩

/-! ### The turn of a start -/

/-- Records of calls pass the outcome on. -/
theorem resumeAll_traced {ks : List Resumption} (h : All Resumption.isTraced ks)
    (y : Except Failure Reply) (w : Workbench) :
    Ends (resumeAll ks y) w fun z w' => z = y.map .done ∧ w' = w := by
  induction ks generalizing y with
  | nil =>
    refine .bind (.ofExcept ?_)
    cases y with
    | ok reply => exact .pure ⟨rfl, rfl⟩
    | error f => exact ⟨rfl, rfl⟩
  | cons k ks ih =>
    obtain ⟨hk, hks⟩ := List.forall_mem_cons.1 h
    cases k with
    | traced logger call =>
      refine .bind (.outcome (.afterCall ?_))
      cases y <;> exact ih hks _
    | _ => cases hk

/-- How the activity that starts a client advances in its turn: it fails and there is no more process
than before, or it waits for the process, or the process runs. -/
inductive Advances (n s : Nat) (F : List FutureId) (hand : List Job) (w : Workbench)
    (y : Except Failure Step) (w' : Workbench) : Prop
  | fails {f : Failure} (hy : y = .error f) (hn : w'.link.processes.size = n)
    (hg : w'.link.loop.gones = w.link.loop.gones)
  | begins {p : PeerId} {r x : FutureId} {ks : List Resumption}
    (hy : y = .ok (.turn (.spawned p x :: ks))) (hks : All Resumption.isTraced ks) (hF : F = [])
    (hr : SameReady w.link w'.link) (hs : w'.link.Starting n s p r x hand)
  | runs {p : PeerId} {r x : FutureId} {reply : Reply} (hy : y = .ok (.done reply))
    (hr : SameReady w.link w'.link) (hF : ∀ f, w.link.Secured f → w'.link.Secured f)
    (hs : w'.link.Running n s p r x hand)

/-- What is known of the steps of that activity. -/
def Launches (n s : Nat) (F : List FutureId) (hand : List Job) (w : Workbench)
    (y : Except Failure Step) (w' : Workbench) : Prop :=
  w'.onStop = w.onStop ∧ w'.link.Orderly ∧ Carries [] w.link w'.link ∧ Advances n s F hand w y w'

theorem start_launches (hc : w.link.Called n s ready [j]) (ho : w.link.Orderly)
    (y : Except Failure Reply) :
    Ends (resumeAll [.start] y) w (Launches n s [] [j] w) := by
  unfold resumeAll
  refine .bind (.outcome (.bind (.ofExcept ?_)))
  cases y with
  | error f =>
    refine (resumeAll_traced .nil _ w).mono fun z w' h => ?_
    obtain ⟨rfl, rfl⟩ := h
    exact ⟨rfl, ho, .refl _, .fails rfl hc.stands.processes rfl⟩
  | ok _ =>
    refine .on ((Link.tracedStart_begins hc ho).mono fun z l h => ?_)
    obtain ⟨p, r, x, ks, rfl, hks, ho', hcarries, hready, hs⟩ := h
    exact .pure ⟨rfl, ho', hcarries, .begins (by rw [List.append_nil]) hks rfl hready hs⟩

theorem spawned_launches {ks : List Resumption} (hs : w.link.Starting n s p r x [j])
    (ho : w.link.Orderly) (hks : All Resumption.isTraced ks) (y : Except Failure Reply) :
    Ends (resumeAll (.spawned p x :: ks) y) w (Launches n s F [j] w) := by
  have hresume : resume (.spawned p x) y = onLink (Link.whenSpawned p x y) := rfl
  rw [resumeAll, hresume]
  refine .bind (.outcome (.on ((Link.whenSpawned_spawns hs ho y).mono fun z l h => ?_)))
  obtain ⟨ho', hcarries, ⟨⟨f, rfl⟩, hn, hg⟩ | ⟨rfl, hrunning, hready, hsecured⟩⟩ := h
  · refine (resumeAll_traced hks _ _).mono fun z w' h => ?_
    obtain ⟨rfl, rfl⟩ := h
    exact ⟨rfl, ho', hcarries, .fails rfl hn hg⟩
  · refine (resumeAll_traced hks _ _).mono fun z w' h => ?_
    obtain ⟨rfl, rfl⟩ := h
    exact ⟨rfl, ho', hcarries, .runs rfl hready hsecured hrunning⟩

/-- What serves those who wait may come before. -/
theorem Launches.after {w₁ : Workbench} {y : Except Failure Step} (hs : Serves w w₁)
    (ho : w.link.Orderly) (h : Launches n s F [j] w₁ y w') : Launches n s F [j] w y w' := by
  obtain ⟨hstop, ho', hcarries, h⟩ := h
  have hb := (hs.2 ho).2
  have hready (hr : SameReady w₁.link w'.link) : SameReady w.link w'.link := fun f hf =>
    hr f (hb.client.2.2.1.trans hf)
  refine ⟨hstop.trans hs.1, ho', hb.toCarries.trans hcarries, ?_⟩
  cases h with
  | fails hy hn hg => exact .fails hy hn (hg.trans hb.gones)
  | begins hy hks hF hr hs => exact .begins hy hks hF (hready hr) hs
  | runs hy hr hF hs => exact .runs hy (hready hr) (fun f hf => hF f (hb.secured hf)) hs

/-- **The turn of a start** brings its process to the next stage, or to none. -/
theorem Turned.stage (hturn : Turned t₀ (Launches n s F [j] w) w w')
    (h : w.link.Alive [t₀] W F [j]) (ht : t₀ < w.link.tasks.size)
    (hj : ∀ own l, t₀ ∈ own → Link.Informed own l j) (hjg : j.isGone = false)
    (hn : w.link.processes.size = n) (hg : w.link.loop.gones = 0) :
    w'.onStop = w.onStop ∧ w'.link.Stage t₀ n s W F [] := by
  have hput (l : Link) : ∀ j' ∈ [j], l.Informed [t₀] j' :=
    List.forall_mem_singleton.2 (hj _ l List.mem_cons_self)
  have hcount : [j].countP Job.isGone = 0 := by simp [hjg]
  cases hturn with
  | idle hd heq =>
    subst heq
    exact ⟨rfl, .never ((h.forget.put (hput _)).leave ⟨.inl hd, fun hr => absurd hr List.not_mem_nil⟩) hn hg⟩
  | @ended y w₁ hQ hy hs hd =>
    obtain ⟨hstop, ho, hcarries, hQ⟩ := hQ
    obtain ⟨ho', hb⟩ := hs.2 ho
    have hover : w'.link.Over t₀ := by
      rw [Link.Over, ((hcarries.trans hb.toCarries).kept t₀ ht).2]
      exact hd (Nat.lt_of_lt_of_le (h.orderly.outcomes t₀ ht) hcarries.loop.futures)
    refine ⟨hs.1.trans hstop, ?_⟩
    cases hQ with
    | fails hfails hn' hg' =>
      have halive := (h.dismissed hcarries ho).served hs.2
      refine .never ((halive.put (hput _)).leave ⟨.inl hover, fun hr => absurd hr List.not_mem_nil⟩) (hb.parts.size.trans hn') ?_
      simpa [hb.gones, hg'] using hg
    | begins hbegins => exact (hbegins ▸ hy).elim
    | runs hruns hr hF hrunning =>
      have halive := (h.carried hcarries hr ho fun f _ => hF f).served hs.2
      exact .running ((halive.put (hput _)).leave ⟨.inl hover, fun _ => .ended hover⟩)
        ((hrunning.mono hb).put hcount)
  | waits hQ hg hs hwoken =>
    cases hQ.2.2.2 with
    | fails hy => cases hy
    | begins hy => cases hy
    | runs hy => cases hy
  | @turns ks w₁ g hQ hgt hs hqueued =>
    obtain ⟨hstop, ho, hcarries, hQ⟩ := hQ
    cases hQ with
    | fails hy => cases hy
    | runs hy => cases hy
    | @begins p r x ks' hy hks hF hr hstarting =>
      cases hy
      subst hF
      have halive := (h.carried hcarries hr ho fun f hf => absurd hf List.not_mem_nil).rested (t := t₀) fun y => (hgt y).2
      have hb := (hs.2 halive.orderly).2
      have hplans : (w₁.link.rested t₀ g).Plans t₀ (.spawned p x :: ks') := by
        have ht₁ := Nat.lt_of_lt_of_le ht hcarries.tasks
        refine ⟨by simpa [Link.rested] using ht₁, ?_⟩
        rw [Link.rest, Link.getD_rested_self ht₁]
        exact (hgt _).1
      have hstart := ((hstarting.rested (t := t₀) (g := g)).mono hb).put hcount
      refine ⟨hs.1.trans hstop, .starting ?_ hstart (hplans.mono hb) hks⟩
      exact ((halive.served hs.2).enter (by simp)).put (hput _)

/-- **A turn** of any activity leaves the process in a stage. -/
theorem stepTask_stage (h : w.link.Stage t₀ n s W F [j])
    (hj : ∀ own l, t ∈ own → Link.Informed own l j) (hjg : j.isGone = false) :
    Ends (stepTask t) w fun _ w' => w'.onStop = w.onStop ∧ w'.link.Stage t₀ n s W F [] := by
  have hcount : [j].countP Job.isGone = 0 := by simp [hjg]
  have ho := h.orderly
  cases h with
  | @called ready h hF hc hp =>
    by_cases ht : t = t₀
    · subst ht hF
      have hg : w.link.loop.gones = 0 := by simpa [hjg] using hc.stands.gones
      refine (stepTask_turned (Q := Launches n s [] [j] w) fun y w₁ hs => ?_).mono fun _ w' hturn =>
        hturn.stage h hp.1 hj hjg hc.stands.processes hg
      obtain ⟨ho₁, hb⟩ := hs.2 ho
      rw [show (w.link.tasks.getD t default).rest = [.start] from hp.2]
      exact (start_launches (hc.mono hb) ho₁ y).mono fun _ _ => Launches.after hs ho
    · refine (turn_alive (P := fun l => l.Called n s ready [j] ∧ l.Plans t₀ [.start]) h (by simpa using ht)
        hj (fun _ => hc.stands.ready_lt fun r hr => .inr (hc.done r hr))
        (fun l l' hb h => ⟨h.1.mono hb, h.2.mono hb⟩) (fun g l h => ⟨h.1.rested, h.2.rested (Ne.symm ht)⟩)
        ⟨hc, hp⟩).mono fun _ w' ⟨hstop, ha, hc', hp'⟩ => ⟨hstop, .called ha hF (hc'.put hcount) hp'⟩
  | @starting p r x ks h hc hp hks =>
    by_cases ht : t = t₀
    · subst ht
      have hg : w.link.loop.gones = 0 := by simpa [hjg] using hc.stands.gones
      refine (stepTask_turned (Q := Launches n s F [j] w) fun y w₁ hs => ?_).mono fun _ w' hturn =>
        hturn.stage h hp.1 hj hjg hc.stands.processes hg
      obtain ⟨ho₁, hb⟩ := hs.2 ho
      rw [show (w.link.tasks.getD t default).rest = .spawned p x :: ks from hp.2]
      exact (spawned_launches (hc.mono hb) ho₁ hks y).mono fun _ _ => Launches.after hs ho
    · refine (turn_alive (P := fun l => l.Starting n s p r x [j] ∧ l.Plans t₀ (.spawned p x :: ks)) h
        (by simpa using ht) hj (fun _ => hc.stands.ready_lt ?_)
        (fun l l' hb h => ⟨h.1.mono hb, h.2.mono hb⟩) (fun g l h => ⟨h.1.rested, h.2.rested (Ne.symm ht)⟩)
        ⟨hc, hp⟩).mono fun _ w' ⟨hstop, ha, hc', hp'⟩ => ⟨hstop, .starting ha (hc'.put hcount) hp' hks⟩
      rintro f ⟨⟩
      exact .inl hc.made.1
  | @running p r x h hc =>
    refine (turn_alive (P := fun l => l.Running n s p r x [j]) h List.not_mem_nil hj
      (fun _ => hc.stands.ready_lt ?_) (fun l l' hb h => h.mono hb) (fun g l h => h.rested) hc).mono
      fun _ w' ⟨hstop, ha, hc'⟩ => ⟨hstop, .running ha (hc'.put hcount)⟩
    rintro f ⟨⟩
    exact .inl hc.made
  | @finished p ready h hc =>
    exact (turn_alive (P := fun l => l.Finished n s p ready [j]) h List.not_mem_nil hj
      (fun _ => hc.stands.ready_lt fun r hr => .inr (hc.done r hr)) (fun l l' hb h => h.mono hb)
      (fun g l h => h.rested) hc).mono fun _ w' ⟨hstop, ha, hc'⟩ => ⟨hstop, .finished ha (hc'.put hcount)⟩
  | never h hn hg =>
    refine (turn_alive (P := fun l => l.processes.size = n ∧ l.loop.gones + [j].countP Job.isGone = 0) h
      List.not_mem_nil hj nofun (fun l l' hb h => ⟨hb.parts.size.trans h.1, hb.gones ▸ h.2⟩)
      (fun g l h => h) ⟨hn, hg⟩).mono fun _ w' ⟨hstop, ha, hn', hg'⟩ => ⟨hstop, .never ha hn' ?_⟩
    simpa [hjg] using hg'

/-! ### Other jobs -/

/-- What serves those who wait and does what a job is for leaves the process in its stage. -/
theorem served_stage {a : Act Workbench Unit} (h : w.link.Stage t₀ n s W F [j])
    (hg : j.isGone = false)
    (ha : Ends a w fun _ w' => Serves w w' ∧ w'.link.Informed [] j) :
    Ends a w fun _ w' => w'.onStop = w.onStop ∧ w'.link.Stage t₀ n s W F [] :=
  ha.mono fun _ _ ⟨hs, hj⟩ => ⟨hs.1, (h.served hs.2).put hj hg⟩

/-- A future that another one stands for ends as that one did. -/
theorem copyEnding_serves {f g : FutureId} (hf : w.link.loop.done f = true) :
    Ends (onLink (copyEnding f g)) w fun _ w' =>
      Serves w w' ∧ (g < w'.link.loop.futures.size → w'.link.loop.done g = true) := by
  refine .on (.read ?_)
  obtain ⟨e, he⟩ := Option.isSome_iff_exists.1 hf
  rw [show w.link.loop.ending? f = some e from he]
  have hsettle := (Link.settleOpen_evolves g e w.link).and (Link.settleOpen_size g e w.link)
  refine .ignore (hsettle.mono fun y l h => ?_)
  obtain ⟨⟨-, lo, hlo, hd, rfl⟩, hsize⟩ := h
  exact ⟨⟨rfl, Link.serves_loop hlo⟩, fun hlt => hd (hsize ▸ hlt)⟩

theorem kept_stage (h : w.link.Stage t₀ n s W F [j]) (hg : j.isGone = false)
    (hj : ∀ l, Link.Informed [] l j) (a : Act Link Unit) [Keeps Link.Serves a] :
    Ends (onLink a) w fun _ w' => w'.onStop = w.onStop ∧ w'.link.Stage t₀ n s W F [] :=
  served_stage h hg (((serves_onLink a).ends w).mono fun _ w' hs => ⟨hs, hj w'.link⟩)

/-- **The end of the process** is told to a client whose process runs. -/
theorem serverGone_stage {f : FutureId} (h : w.link.Stage t₀ n s W F [.call .gone f])
    (hl : w.onStop.listeners.count .observer = 1) :
    Ends (serverGone f) w fun _ w' => w'.onStop = w.onStop ∧ w'.link.Stage t₀ n s W F [] := by
  have hnone {c : Link.Posture} (hs : w.link.Stands c [.call .gone f]) : c.gones ≠ 0 := by
    have hgones := hs.gones
    rw [List.countP_singleton] at hgones
    simp [Job.isGone] at hgones
    omega
  cases h with
  | called h hF hc hp => exact absurd rfl (hnone hc.stands)
  | starting h hc hp hks => exact absurd rfl (hnone hc.stands)
  | finished h hc => exact absurd rfl (hnone hc.stands)
  | never h hn hg => simp [Job.isGone] at hg
  | running h hc =>
    have hg : w.link.loop.gones = 0 := by simpa [Job.isGone] using hc.stands.gones
    refine (serverGone_departs h.orderly hl f).mono fun y w' h' => ?_
    obtain ⟨hstop, l', hdeparts, hw'⟩ := h'
    obtain ⟨hcarries, hready, hsecured⟩ := hdeparts.carries h.orderly
    have ho : l'.announced.Orderly := by
      obtain ⟨l₁, -, -, ho, -⟩ := hdeparts
      exact Link.orderly_announced ho
    refine ⟨hstop, hw' ▸ .finished ?_ (hc.departs h.orderly hdeparts hg)⟩
    exact (h.carried hcarries hready ho fun f _ => hsecured f).put (List.forall_mem_singleton.2 trivial)

/-- **A job** leaves the process in a stage. -/
theorem doJob_stage (h : w.link.Stage t₀ n s W F [j]) (hl : w.onStop.listeners.count .observer = 1)
    (hcall : ∀ k f, j = .call k f → w.link.loop.done f = true ∧ k.ofClient = true)
    (hreact : ∀ m script id, j ≠ .react m script id) :
    Ends (doJob j) w fun _ w' => w'.onStop = w.onStop ∧ w'.link.Stage t₀ n s W F [] := by
  cases j with
  | step t => exact stepTask_stage h (fun _ _ => id) rfl
  | call k f =>
    obtain ⟨hd, hk⟩ := hcall k f rfl
    cases k with
    | wake t => exact stepTask_stage h (fun _ _ => id) rfl
    | release waiter => exact kept_stage h rfl (fun _ => trivial) _
    | copy outer => exact served_stage h rfl (copyEnding_serves hd)
    | forgetCopy inner =>
      have hforget : Ends (Link.forget inner (.copy f)) w.link fun _ l => w.link.Serves l :=
        fun _ => Link.serves_loop (Loop.evolves_forget rfl hd)
      exact served_stage (a := onLink (Link.forget inner (.copy f))) h rfl
        (.on (hforget.mono fun _ _ hs => ⟨⟨rfl, hs⟩, trivial⟩))
    | unregister t m => exact kept_stage h rfl (fun _ => trivial) _
    | formatted uri => cases hk
    | pass target => exact served_stage h rfl (copyEnding_serves hd)
    | gone => exact serverGone_stage h hl
  | release f => exact kept_stage h rfl (fun _ => trivial) _
  | react m script id => exact absurd rfl (hreact m script id)
  | die m code => exact kept_stage h rfl (fun _ => trivial) _

/-- What a loop works off leaves the process in a stage. -/
theorem settle_stage (h : w.link.Stage t₀ n s W F []) (hl : w.onStop.listeners.count .observer = 1)
    (m : Nat) :
    Ends (settle m) w fun _ w' => w'.onStop = w.onStop ∧ w'.link.Stage t₀ n s W F [] := by
  induction m generalizing w with
  | zero => exact .pure ⟨rfl, h⟩
  | succ m ih =>
    unfold settle
    refine .read ?_
    split
    · exact .pure ⟨rfl, h⟩
    rename_i j lo hnext
    unfold Loop.next? at hnext
    split at hnext
    · cases hnext
    rename_i j js hready
    cases hnext
    have hmem : j ∈ w.link.loop.ready := hready ▸ List.mem_cons_self
    have hsane := h.orderly.sane
    refine .bind (.on (.change ?_))
    have hjob := doJob_stage (w := { w with link := w.link.taken js }) (h.taken hready) hl
      (fun k f hj => hsane.jobs f k (hj ▸ hmem)) fun m script id hj => hsane.reactions m script id (hj ▸ hmem)
    refine .bind (.bind (.outcome (hjob.mono fun y w₁ h₁ => ?_)))
    obtain ⟨hstop, h₁⟩ := h₁
    have hrest : Ends (settle m) w₁ fun _ w' => w'.onStop = w.onStop ∧ w'.link.Stage t₀ n s W F [] :=
      (ih h₁ (hstop ▸ hl)).mono fun _ w' h₂ => ⟨h₂.1.trans hstop, h₂.2⟩
    cases y with
    | ok _ => exact .pure hrest
    | error f =>
      show Ends (if _ then _ else _) w₁ _
      split
      · exact .throw ⟨hstop, h₁⟩
      · exact .pure hrest

end Workbench

end EditorBridge
