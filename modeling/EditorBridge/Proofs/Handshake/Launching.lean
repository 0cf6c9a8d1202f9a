/-
A client gets a process.

A start takes two turns.  In the first one the client gets a new end, and from then on takes
calls.  In the second one the process is run, and somebody else is to greet it; or it could not
be run, and then nobody will ever be told anything.
-/
import EditorBridge.Proofs.Handshake.Acting

namespace EditorBridge

open Act (Ends Keeps Reads)
open Resumption (All)

namespace Link

variable {l l' : Link} {A : List TaskId} {F : List FutureId} {f x : FutureId} {t : TaskId}
  {ks ks' : List Resumption} {o : Option FutureId} {c : Nat} {p : PeerId} {n : ProcessId}
  {k : Resumption}

/-! ### An end -/

/-- The link of a client that was asked to start. -/
def started (l : Link) : Link :=
  l.starting l.loop.create.1 l.loop.create.2.create.1 l.loop.create.2.create.2

theorem start_started (h : l.client.process = none) : Ends start l fun y l' =>
    y = .ok (.turn [.spawned l.peers.size l.loop.create.2.create.1]) ∧ l' = l.started := by
  refine .read ?_
  split
  · rename_i hp
    rw [h] at hp
    cases hp
  refine .bind (newFuture_ends.mono fun y l₁ h₁ => ?_)
  obtain ⟨rfl, rfl⟩ := h₁
  refine .bind (newFuture_ends.mono fun y l₂ h₂ => ?_)
  obtain ⟨rfl, rfl⟩ := h₂
  refine .bind (.read (.change_bind (.pure (.change_bind (.read (.bind (.log ?_)))))))
  exact .change_bind (.pure ⟨rfl, rfl⟩)

theorem tracedStart_started (h : l.client.process = none) : Ends tracedStart l fun y l' =>
    l' = l.started ∧ ∃ ks, All Resumption.isTraced ks ∧
      y = .ok (.turn (.spawned l.peers.size l.loop.create.2.create.1 :: ks)) := by
  have hstart : Ends start l fun y l' => l' = l.started ∧ ∃ ks, All Resumption.isTraced ks ∧
      y = .ok (.turn (.spawned l.peers.size l.loop.create.2.create.1 :: ks)) :=
    (start_started h).mono fun y l' ⟨hy, hl⟩ => ⟨hl, [], .nil, hy⟩
  refine .recorded hstart (fun _ _ => id) (fun f more l' h' => ?_) fun more l' h' => ?_
  · obtain ⟨-, ks, -, heq⟩ := h'
    cases heq
  · obtain ⟨hl, ks, hks, heq⟩ := h'
    cases heq
    exact ⟨hl, _, hks.append (List.forall_mem_singleton.2 rfl), rfl⟩

/-- Nothing is done to a future but for the one that tells of readiness. -/
theorem spared_started (h : l.Spared A f) (hf : f ≠ l.loop.futures.size) :
    l.started.Spared A f ∧ l.started.loop.ending? f = l.loop.ending? f := by
  refine ⟨⟨?_, fun q r hr => ?_, h.tasks, fun heq => hf (Option.some.inj heq).symm⟩, ?_⟩
  · exact h.loop.of_owes fun _ hi => Loop.owes_create.1 (Loop.owes_create.1 hi)
  · exact h.pending q r ((pending_starting (l := l) q) ▸ hr)
  · exact (Loop.ending?_create _ f).trans (Loop.ending?_create _ f)

theorem size_started (l : Link) : l.started.loop.futures.size = l.loop.futures.size + 2 := by
  simp [started, starting, Loop.create]

theorem proceeds_started : Proceeds l l.started where
  size := by
    rw [size_started]
    exact Nat.le_add_right ..
  ended g e he := ((Loop.ending?_create _ g).trans (Loop.ending?_create _ g)).trans he
  spared f hside hf := by
    rw [size_started] at hside
    exact spared_started hf (hside.elim Nat.ne_of_lt fun hle => Nat.ne_of_gt (by omega))
  scripts := rfl
  loop := (Loop.Abides.create _).trans (.create _) (Nat.le_refl _)
  tasks := Nat.le_refl _
  outcomes _ _ := rfl

theorem Acts.started (h : l.Acts t ks o c) : l.started.Acts t ks o c where
  toPoised := h.toPoised.mono rfl (Nat.le_refl _) proceeds_started.size
    (spared_started h.alone (Nat.ne_of_lt h.made))
  wakes f := (Loop.owes_create.trans Loop.owes_create).trans (h.wakes f)
  turns := h.turns

/-- The new end is that of a client, and has said nothing. -/
theorem peer_started (l : Link) : l.started.peers.getD l.peers.size default = Peer.ofClient :=
  (Workbench.getD_push _ _ _).trans (if_pos rfl)

/-- **A client that has an end** is about to run its process. -/
theorem launching_started (h : l.Undisturbed [t] [] []) (ht : l.Acts t ks none 0)
    (hn : l.processes.size = n) (hcalls : l.callsTo n = []) (hks : All Resumption.isTraced ks') :
    Phase n [] none (l.started.requeued t (.spawned l.peers.size l.loop.create.2.create.1 :: ks'))
      [t] := by
  let x := l.loop.create.2.create.1
  have hx : x = l.loop.futures.size + 1 := by simp [x, Loop.create]
  have hlt : x < l.started.loop.futures.size := by rw [hx, size_started]; exact Nat.lt_succ_self _
  have hacts := ht.started.requeued (.spawned l.peers.size x :: ks')
  have hp : Proceeds l.started (l.started.requeued t (.spawned l.peers.size x :: ks')) :=
    proceeds_requeued ht.there
  -- The future that tells of the end of the process is new.
  obtain ⟨hspared, hending⟩ := spared_started (f := x)
    (h.unknown x (by rw [hx]; exact Nat.le_succ _)) (by rw [hx]; exact Nat.succ_ne_self _)
  obtain ⟨hspared, hending'⟩ := hp.spared x (.inl hlt) hspared
  have hnone : l.loop.ending? x = none := by
    simp [Loop.ending?, hx]
  have hundisturbed :
      (l.started.requeued t (.spawned l.peers.size x :: ks')).Undisturbed [t] [] [] := by
    refine h.proceeds (trans_of Proceeds proceeds_started hp) (fun u hu => ?_) fun u hu => ?_
    · have hut : u ≠ t := fun hut => hu (hut ▸ List.mem_cons_self)
      have htask : (l.started.requeued t (.spawned l.peers.size x :: ks')).tasks.getD u default =
          l.tasks.getD u default := getD_rested (l := l.started) hut
      rw [Over, rest, htask]
      exact (h.fit.mild u hu).imp (fun hd => hp.loop.done _ (proceeds_started.loop.done _ hd)) id
    · cases List.mem_singleton.1 hu
      exact ⟨hacts.there, List.forall_mem_nil _⟩
  have hwatched : (l.started.requeued t (.spawned l.peers.size x :: ks')).Undisturbed [t] [x] [] :=
    { hundisturbed with
      gone := fun f hf => absurd (hundisturbed.gone f hf) List.not_mem_nil
      lasting := fun f hf => by
        cases List.mem_singleton.1 hf
        refine ⟨Nat.lt_of_lt_of_le hlt hp.size, hspared, ?_⟩
        rw [Loop.done, hending', hending, hnone]
        rfl
      given := List.forall_mem_nil _ }
  refine .launching (p := l.peers.size) hwatched hacts hks
    ⟨rfl, rfl, List.forall_mem_nil _, List.forall_mem_nil _, .nil⟩
    ⟨rfl, ?_, hcalls⟩ ⟨?_, ?_, ?_⟩ rfl hn rfl
  · exact congrArg Peer.lastId (peer_started l)
  · simp [requeued, rested, started, starting]
  · exact congrArg Peer.outlet (peer_started l)
  · exact congrArg Peer.pending (peer_started l)

/-! ### A process -/

/-- Running a process fails, or there is one more, which takes input or does not. -/
theorem spawn_ran (p : PeerId) (x : FutureId) (l : Link) : Ends (spawn p x) l fun y l' =>
    (∃ e, y = .error e) ∧ l' = l ∨ y = .ok l.processes.size ∧
      (l' = l.withProcess p x ∨ l' = (l.withProcess p x).withOutlet p l.processes.size) := by
  refine .read ?_
  dsimp only
  split
  · exact .bind (.throw (.inl ⟨⟨_, rfl⟩, rfl⟩))
  · refine .change_bind ?_
    split
    · exact .change_bind (.pure (.inr ⟨rfl, .inr rfl⟩))
    · exact .pure (.inr ⟨rfl, .inl rfl⟩)

/-- The link of a client whose process is to be greeted. -/
def greetable (n : ProcessId) (x : FutureId) (l : Link) : Link :=
  let l' := (l.attended n x).begun .greet
  { l' with client := { l'.client with greeting := some l.tasks.size } }

theorem running_greetable (hx : l.client.exited = some x) : Ends (running n) l fun y l' =>
    y = .ok (.done .nothing) ∧ l' = l.greetable n x := by
  refine .change_bind (.read ?_)
  split
  · rename_i hnone
    cases hx.symm.trans hnone
  rename_i x' hx'
  obtain rfl : x = x' := Option.some.inj (hx.symm.trans hx')
  refine .bind ((whenDone_ends x .gone _).mono fun y l₁ h₁ => ?_)
  obtain ⟨rfl, rfl⟩ := h₁
  refine .bind ((startTask_begun .greet (l.attended n x)).mono fun y l₂ h₂ => ?_)
  obtain ⟨rfl, rfl⟩ := h₂
  exact .change_bind (.pure ⟨rfl, rfl⟩)

theorem size_begun (k : Resumption) :
    (l.begun k).loop.futures.size = l.loop.futures.size + 1 := by
  simp [begun, Loop.soon, Loop.create]

theorem task_begun (k : Resumption) (u : TaskId) : (l.begun k).tasks.getD u default =
    if u = l.tasks.size then { rest := [k], outcome := l.loop.futures.size }
    else l.tasks.getD u default := Workbench.getD_push _ _ u

theorem abides_begun (k : Resumption) (h : l.tasks.size ∉ A) :
    l.loop.Abides A (l.begun k).tasks.size (l.begun k).loop :=
  (Loop.Abides.create _).trans (.soon h (by simp [begun])) (Nat.le_refl _)

/-- Everybody else was there before. -/
theorem lt_of_begun {k : Resumption} {u : TaskId} (h : u < (l.begun k).tasks.size)
    (hu : u ≠ l.tasks.size) : u < l.tasks.size := by
  rw [show (l.begun k).tasks.size = l.tasks.size + 1 from Array.size_push _] at h
  exact Nat.lt_of_le_of_ne (Nat.le_of_lt_succ h) hu

/-- Whoever begins has an outcome of its own, and nothing else is done to any future. -/
theorem spared_begun {k : Resumption}
    (hside : f < l.loop.futures.size ∨ (l.begun k).loop.futures.size ≤ f) (hf : l.Spared A f) :
    (l.begun k).Spared A f ∧ (l.begun k).loop.ending? f = l.loop.ending? f := by
  rw [size_begun] at hside
  have hne : f ≠ l.loop.futures.size :=
    hside.elim Nat.ne_of_lt fun hle => Nat.ne_of_gt (Nat.lt_of_succ_le hle)
  refine ⟨{ hf with loop := fun j hj => ?_, tasks := fun u hlt hu => ?_ }, Loop.ending?_create _ f⟩
  · rcases Loop.owes_soon.1 hj with hj | rfl
    · exact hf.loop j (Loop.owes_create.1 hj)
    · exact nofun
  · rw [task_begun]
    split
    · exact ⟨hne.symm, nofun⟩
    · rename_i hold
      exact hf.tasks u (lt_of_begun hlt hold) hu

/-- Somebody new begins. -/
theorem proceeds_begun (k : Resumption) : Proceeds l (l.begun k) where
  size := by
    rw [size_begun]
    exact Nat.le_succ _
  ended := (abides_begun (A := []) k List.not_mem_nil).ended
  spared _ := spared_begun
  scripts := rfl
  loop := abides_begun k List.not_mem_nil
  tasks := by simp [begun]
  outcomes u hu := by rw [task_begun, if_neg (Nat.ne_of_lt hu)]

/-- **Whoever begins** has the next turn but those in the queue, and may act. -/
theorem acts_begun {X : List FutureId} (h : l.Undisturbed A X F) (k : Resumption) :
    (l.begun k).Acts l.tasks.size [k] none 1 := by
  have htask : (l.begun k).tasks.getD l.tasks.size default =
      { rest := [k], outcome := l.loop.futures.size } := (task_begun k _).trans (if_pos rfl)
  have hnobody {j : Job} (hj : l.loop.Owes j) : j.turn? ≠ some l.tasks.size := fun hjt =>
    Nat.lt_irrefl _ (h.fit.turned j hj _ hjt)
  have howes {j : Job} (hj : (l.begun k).loop.Owes j) : l.loop.Owes j ∨ j = .step l.tasks.size :=
    (Loop.owes_soon.1 hj).imp Loop.owes_create.1 id
  have hspared := h.unknown _ (Nat.le_refl _)
  refine ⟨⟨by simp [begun], ?_, ?_, ?_, ?_, ?_, ?_⟩, fun f => ⟨fun ho => ?_, fun h => ?_⟩, ?_⟩
  · rw [rest, htask]
  · rw [htask]
  · rw [htask]
  · rw [htask]
    simp [begun, Loop.soon, Loop.create]
  · rw [Over, htask]
    simp [begun, Loop.soon, Loop.create, Loop.done, Loop.ending?]
  · rw [htask]
    refine { hspared with loop := fun j hj => ?_, tasks := fun u hlt hu => ?_ }
    · rcases howes hj with hj | rfl
      · exact hspared.loop j hj
      · exact fun h => by cases h
    · have hold : u ≠ l.tasks.size := fun heq => hu (List.mem_singleton.2 heq)
      rw [task_begun, if_neg hold]
      exact hspared.tasks u (lt_of_begun hlt hold) List.not_mem_nil
  · rcases howes ho with ho | heq
    · exact absurd rfl (hnobody ho)
    · cases heq
  · cases h
  · have hzero : l.loop.turns [l.tasks.size] = 0 := by
      refine List.countP_eq_zero.2 fun j hj => ?_
      cases j with
      | step u =>
        have hne : u ≠ l.tasks.size := fun heq => hnobody (.inl hj) (congrArg some heq)
        simpa using hne
      | _ => simp
    simp only [Loop.turns] at hzero
    simp [begun, Loop.turns, Loop.soon, Loop.create, List.countP_append, hzero]

/-- A process that lasts does not disturb anybody when its end is asked for. -/
theorem Undisturbed.attended (h : l.Undisturbed A [x] F) (n : ProcessId) :
    (l.attended n x).Undisturbed A [x] F := by
  have hloop : l.loop.Remembers (l.attended n x).loop := Loop.remembers_whenDone rfl
  have howes {j : Job} (hj : (l.attended n x).loop.Owes j) : l.loop.Owes j ∨ j = .call .gone x :=
    Loop.owes_of_whenDone hj
  have hending (f : FutureId) : (l.attended n x).loop.ending? f = l.loop.ending? f :=
    Loop.ending?_whenDone
  have hspared {f : FutureId} (hf : l.Spared [] f) : (l.attended n x).Spared [] f :=
    { hf with loop := hf.loop.whenDone nofun }
  refine ⟨{ h.fit with
    sane := hloop.sane h.fit.sane
    turned := fun j hj t hjt => ?_
    mild := fun t ht => (h.fit.mild t ht).imp (hloop.done _) id }, fun f hf => ?_,
    fun m code ho => ?_,
    fun f ho => ?_, fun f hf => ?_, fun f hf => ?_⟩
  · rcases howes hj with hj | rfl
    · exact h.fit.turned j hj t hjt
    · cases hjt
  · exact hspared (h.unknown f (Nat.le_trans hloop.futures hf))
  · rcases howes ho with ho | heq
    · exact h.lasts m code ho
    · cases heq
  · rcases howes ho with ho | heq
    · exact h.gone f ho
    · cases heq
      exact List.mem_singleton_self _
  · obtain ⟨hlt, hs, hd⟩ := h.lasting f hf
    exact ⟨Nat.lt_of_lt_of_le hlt hloop.futures, hspared hs, by rw [Loop.done, hending]; exact hd⟩
  · exact ⟨Nat.lt_of_lt_of_le (h.given f hf).1 hloop.futures, (h.given f hf).2⟩

theorem sparing_attended (n : ProcessId) (x : FutureId) : Sparing l (l.attended n x) :=
  ⟨(Loop.grows_whenDone ..).futures, fun _ _ he => Loop.ending?_whenDone.trans he, fun _ _ hf =>
    ⟨{ hf with loop := hf.loop.whenDone nofun }, Loop.ending?_whenDone⟩⟩

theorem proceeds_greetable (n : ProcessId) : Proceeds (l.attended n x) (l.greetable n x) := by
  refine trans_of Proceeds (proceeds_begun .greet) ?_
  exact proceeds_alike rfl rfl rfl (fun _ _ => id) fun _ => id

theorem task_greetable (n : ProcessId) (u : TaskId) : (l.greetable n x).tasks.getD u default =
    if u = l.tasks.size then { rest := [.greet], outcome := (l.attended n x).loop.futures.size }
    else l.tasks.getD u default := task_begun .greet u

/-- **The process is to be greeted** by somebody new, and nobody is disturbed. -/
theorem Undisturbed.greetable (h : l.Undisturbed [t] [x] F) (n : ProcessId) :
    (l.greetable n x).Undisturbed [t, l.tasks.size] [x] F ∧
      (l.greetable n x).Acts l.tasks.size [.greet] none 1 := by
  have hattended := h.attended n
  have hacts := acts_begun hattended .greet
  have hp : Proceeds (l.attended n x) (l.greetable n x) := proceeds_greetable n
  refine ⟨hattended.proceeds hp (fun u hu => ?_) fun u hu => ?_, ⟨hacts.toPoised.mono rfl
    (Nat.le_refl _) (Nat.le_refl _) ⟨{ hacts.alone with }, rfl⟩, hacts.wakes, hacts.turns⟩⟩
  · have hnew : u ≠ l.tasks.size := fun heq => hu (heq ▸ List.mem_cons_of_mem _ List.mem_cons_self)
    rw [Over, rest, task_greetable, if_neg hnew]
    have hold : u ∉ [t] := fun hmem => hu (List.mem_cons.2 (.inl (List.mem_singleton.1 hmem)))
    exact (hattended.fit.mild u hold).imp (hp.loop.done _) id
  · rw [task_greetable]
    rcases List.mem_cons.1 hu with rfl | hu
    · have hlt := h.fit.there u List.mem_cons_self
      rw [if_neg (Nat.ne_of_lt hlt)]
      exact ⟨Nat.lt_of_lt_of_le hlt hp.tasks, fun f hf => (h.given f hf).2.2 u List.mem_cons_self⟩
    · cases List.mem_singleton.1 hu
      rw [if_pos rfl]
      exact ⟨hacts.there, fun f hf => Nat.ne_of_gt (hattended.given f hf).1⟩

/-- The link of a client whose process could not be run. -/
def unstarted (l : Link) : Link :=
  { l with client := { l.client with peer := none, ready := none, exited := none } }

/-- The end of a start: nothing is left of it, or a process is to be greeted. -/
theorem whenSpawned_ran (hx : l.client.exited = some x) (p : PeerId) (reply : Reply) :
    Ends (whenSpawned p x (.ok reply)) l fun y l' =>
      (∃ f, y = .error f) ∧ (l' = l ∨ l' = l.unstarted) ∨
      y = .ok (.done .nothing) ∧ ∃ l₁, (l₁ = l.withProcess p x ∨
        l₁ = (l.withProcess p x).withOutlet p l.processes.size) ∧
        l' = l₁.greetable l.processes.size x := by
  refine .bind (.ofExcept (.bind (.outcome ((spawn_ran p x l).mono fun y l₁ h₁ => ?_))))
  rcases h₁ with ⟨⟨f, rfl⟩, rfl⟩ | ⟨rfl, h₁⟩
  · dsimp only
    split
    · exact .bind (.throw (.inl ⟨⟨_, rfl⟩, .inl rfl⟩))
    · exact .change_bind (.read (.throw (.inl ⟨⟨_, rfl⟩, .inr rfl⟩)))
  · have hx₁ : l₁.client.exited = some x := by rcases h₁ with rfl | rfl <;> exact hx
    refine (running_greetable hx₁).mono fun y l' h' => ?_
    obtain ⟨rfl, rfl⟩ := h'
    exact .inr ⟨rfl, l₁, h₁, rfl⟩

/-- **A client that got nowhere** is lost. -/
theorem Phase.of_closes {X F : List FutureId} {qs : List Queued} {a : Option FutureId}
    (hc : Closes (l.tasks.getD t default).outcome l l') (h : l.Undisturbed [t] X F)
    (hclosed : l.client.initialized = false) (hF : ∀ f ∈ qs.filterMap Queued.result?, f ∈ F)
    (hcalls : l.callsTo n = [] ∨ ∃ params, l.callsTo n = [hello params])
    (hpeer : n < l.processes.size → l.client.peer ≠ none)
    (hp : ∀ p, l.client.peer = some p → ∀ r ∈ l.pending p, a = some r.future)
    (ha : ∀ g, a = some g → ∃ e, l.loop.ending? g = some e ∧ ∀ x, e ≠ .result x) :
    Phase n qs a l' [] := by
  have hundisturbed := hc.leave h
  have hended := (hc.proceeds (h.fit.there t List.mem_cons_self)).ended
  obtain ⟨lo, rfl, -⟩ := hc
  refine .lost hundisturbed hclosed hF hcalls hpeer hp fun g hg => ?_
  obtain ⟨e, he, hne⟩ := ha g hg
  exact ⟨e, hended g e he, hne⟩

/-- A process is run without disturbing anybody, and may take input. -/
theorem ran_undisturbed {l₁ : Link} {qs : List Queued} (h : l.Undisturbed [t] [x] l.promised)
    (hw : l.Backlog qs) (hf : l.Facing p n 0 [])
    (hp : p < l.peers.size ∧ l.outlet p = none ∧ l.pending p = []) (hn : l.processes.size = n)
    (hl₁ : l₁ = l.withProcess p x ∨ l₁ = (l.withProcess p x).withOutlet p l.processes.size) :
    l₁.loop = l.loop ∧ l₁.tasks = l.tasks ∧ l₁.Undisturbed [t] [x] l₁.promised ∧ l₁.Backlog qs ∧
      l₁.Facing p n 0 [] ∧
      p < l₁.peers.size ∧ (l₁.outlet p = none ∨ l₁.Linked n p) ∧ l₁.pending p = [] := by
  obtain ⟨hlt, hout, hpending⟩ := hp
  rcases hl₁ with rfl | rfl
  · have hp : Proceeds l (l.withProcess p x) :=
      proceeds_alike rfl rfl rfl (fun _ _ => id) fun _ => id
    exact ⟨rfl, rfl, h.alike hp rfl, hw.mono hp.toSparing rfl rfl,
      ⟨hf.peer, hf.lastId, hf.calls⟩, hlt,
      .inl hout, hpending⟩
  · have hpendings (q : PeerId) :
        ((l.withProcess p x).withOutlet p l.processes.size).pending q = l.pending q :=
      getD_modify Peer.pending rfl q
    have hp : Proceeds l ((l.withProcess p x).withOutlet p l.processes.size) :=
      proceeds_alike rfl rfl rfl (fun q r hr => hpendings q ▸ hr) fun _ => id
    refine ⟨rfl, rfl, h.alike hp rfl, hw.mono hp.toSparing rfl rfl, ⟨hf.peer, ?_, hf.calls⟩, ?_,
      .inr ⟨?_, ?_⟩, (hpendings p).trans hpending⟩
    · exact (getD_modify Peer.lastId rfl p).trans hf.lastId
    · simpa [withOutlet, withProcess] using hlt
    · rw [outlet_withOutlet (l := l.withProcess p x) hlt, if_pos rfl, hn]
    · show ((l.processes.push { peer := p, exited := x }).getD n default).closing = false
      rw [Workbench.getD_push, if_pos hn.symm]

/-- **A process that was run** is to be greeted. -/
theorem due_greetable {qs : List Queued} (m : ProcessId) (h : l.Undisturbed [t] [x] l.promised)
    (hw : l.Backlog qs) (hf : l.Facing p n 0 [])
    (hp : p < l.peers.size ∧ (l.outlet p = none ∨ l.Linked n p) ∧ l.pending p = [])
    (hmade : (l.tasks.getD t default).outcome < l.loop.futures.size)
    (hc : Closes (l.tasks.getD t default).outcome (l.greetable m x) l') :
    l'.Phase n qs none [l.tasks.size] := by
  have hlt := h.fit.there t List.mem_cons_self
  obtain ⟨hundisturbed, hacts⟩ := h.greetable m
  have houtcome : (l.tasks.getD t default).outcome =
      ((l.greetable m x).tasks.getD t default).outcome := by
    rw [task_greetable, if_neg (Nat.ne_of_lt hlt)]
  have hnew : (l.tasks.getD t default).outcome ≠
      ((l.greetable m x).tasks.getD l.tasks.size default).outcome := by
    rw [task_greetable, if_pos rfl]
    exact Nat.ne_of_lt (Nat.lt_of_lt_of_le hmade (sparing_attended m x).size)
  have hacts' := hc.acts hnew hacts
  rw [houtcome] at hc
  have hundisturbed' := hc.leave hundisturbed
  have hlt' := hundisturbed.fit.there t List.mem_cons_self
  have hsparing : Sparing l l' := trans_of Sparing (sparing_attended m x)
    (trans_of Sparing (proceeds_greetable m).toSparing (hc.proceeds hlt').toSparing)
  obtain ⟨lo, rfl, -⟩ := hc
  exact .due hundisturbed' hacts' (hw.mono hsparing rfl rfl) ⟨hf.peer, hf.lastId, hf.calls⟩ hp rfl

end Link

namespace Workbench

open Link (Phase)

variable {w : Workbench} {t : TaskId} {ks : List Resumption} {js : List Job} {p : PeerId}
  {n : ProcessId} {x : FutureId} {qs : List Queued}

/-! ### The turns of a start -/

/-- **The first turn of a start** gives the client an end. -/
theorem asked_turn (hr : w.link.loop.ready = .step t :: js) (h : w.link.Undisturbed [t] [] [])
    (ht : w.link.Acts t [.start] none 1) (hprocess : w.link.client.process = none)
    (hn : w.link.processes.size = n) (hcalls : w.link.callsTo n = []) :
    Ends (stepTask t) { w with link := w.link.taken js } fun _ w' =>
      w'.link.Phase n [] none [t] := by
  let l := w.link.acting t js
  have hprocess : l.client.process = none := hprocess
  refine stepTask_goes (P := fun l' => l'.Phase n [] none [t]) (ht.taken hr).toPoised
    fun w₁ hw₁ => ?_
  refine resumeAll_onLink (a := Link.tracedStart) rfl ?_
  rw [show w₁.link = l from hw₁]
  refine (Link.tracedStart_started hprocess).mono fun y l' h' w₂ hw₂ => ?_
  obtain ⟨rfl, ks, hks, rfl⟩ := h'
  dsimp only [Link.Comes]
  rw [hw₂, List.append_nil]
  exact Link.launching_started (h.acting hr rfl) (ht.acting hr) hn hcalls hks

/-- **The second turn of a start** runs the process, and somebody is to greet it. -/
theorem launching_turn (hr : w.link.loop.ready = .step t :: js)
    (h : w.link.Undisturbed [t] [x] w.link.promised)
    (ht : w.link.Acts t (.spawned p x :: ks) none 1) (hks : All Resumption.isTraced ks)
    (hw : w.link.Backlog qs) (hf : w.link.Facing p n 0 [])
    (hp : p < w.link.peers.size ∧ w.link.outlet p = none ∧ w.link.pending p = [])
    (hx : w.link.client.exited = some x) (hn : w.link.processes.size = n) :
    Ends (stepTask t) { w with link := w.link.taken js } fun _ w' =>
      ∃ A, w'.link.Phase n qs none A := by
  let l := w.link.acting t js
  have hl : l.Undisturbed [t] [x] w.link.promised := h.acting hr rfl
  have hacts := ht.acting hr
  have hx : l.client.exited = some x := hx
  refine stepTask_goes (P := fun l' => ∃ A, l'.Phase n qs none A) (ht.taken hr).toPoised
    fun w₁ hw₁ => ?_
  refine resumeAll_onLink (a := Link.whenSpawned p x (.ok .nothing)) rfl ?_
  rw [show w₁.link = l from hw₁]
  refine (Link.whenSpawned_ran hx p .nothing).mono fun y l' h' w₂ hw₂ => ?_
  have houtcome : (l.tasks.getD t default).outcome =
      ((w.link.taken js).tasks.getD t default).outcome := Link.getD_modify Task.outcome rfl t
  have hmade : (l.tasks.getD t default).outcome < l.loop.futures.size := hacts.made
  rw [← houtcome]
  rcases h' with ⟨⟨f, rfl⟩, hl'⟩ | ⟨rfl, l₁, hl₁, rfl⟩
  · refine (resumeAll_traced hks _ w₂).mono fun z w₃ h₃ => ?_
    obtain ⟨rfl, rfl⟩ := h₃
    have hnever (hlt : n < l.processes.size) : l.client.peer ≠ none := absurd hn (Nat.ne_of_gt hlt)
    have hnobody (q : PeerId) (hq : l.client.peer = some q) (r : PendingRequest)
        (hmem : r ∈ l.pending q) : none = some r.future := by
      cases hq.symm.trans (show l.client.peer = some p from hf.peer)
      rw [show l.pending p = [] from hp.2.2] at hmem
      cases hmem
    rcases hl' with rfl | rfl
    · refine ⟨hw₂ ▸ hmade, fun l' hc => ⟨[], ?_⟩⟩
      rw [hw₂] at hc
      exact .of_closes hc hl hw.closed hw.promised (.inl hf.calls) hnever hnobody nofun
    · have hp : Link.Proceeds l l.unstarted := Link.proceeds_alike rfl rfl rfl (fun _ _ => id) nofun
      refine ⟨hw₂ ▸ hmade, fun l' hc => ⟨[], ?_⟩⟩
      rw [hw₂] at hc
      exact .of_closes (l := l.unstarted) hc (hl.alike hp rfl) hw.closed hw.promised (.inl hf.calls)
        (fun hlt => absurd hn (Nat.ne_of_gt hlt)) nofun nofun
  · refine (resumeAll_traced hks _ w₂).mono fun z w₃ h₃ => ?_
    obtain ⟨rfl, rfl⟩ := h₃
    have hbacklog : l.Backlog qs := hw.mono (Link.proceeds_acting hr rfl).toSparing rfl rfl
    obtain ⟨hloop, htasks, hl₁, hbacklog, hfacing, hp⟩ :=
      Link.ran_undisturbed hl hbacklog ⟨hf.peer, hf.lastId, hf.calls⟩ hp hn hl₁
    have hmade₁ : (l₁.tasks.getD t default).outcome < l₁.loop.futures.size := by
      rw [htasks, hloop]
      exact hmade
    refine ⟨?_, fun l' hc =>
      ⟨_, Link.due_greetable l.processes.size hl₁ hbacklog hfacing hp hmade₁ ?_⟩⟩
    · rw [hw₂]
      refine Nat.lt_of_lt_of_le (hloop ▸ hmade) ?_
      exact Nat.le_trans (Link.sparing_attended _ x).size (Link.proceeds_greetable _).size
    · rwa [hw₂, ← htasks] at hc

end Workbench

end EditorBridge
