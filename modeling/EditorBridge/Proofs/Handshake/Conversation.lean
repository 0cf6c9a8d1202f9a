/-
A server hears everything in order.

A client at rest is asked to start, and then calls are made and given up, bystanders begin to wait,
the loop does its jobs, time passes and the server writes what it likes, in any order; only the
process is not told to end, nor does it.  All of this leaves the greeting in one of its
phases, or takes it to the next (`Goes.phased`).  So what the server has heard can be told from
the calls that were made so far: nothing or the greeting alone as long as the client is not
welcome, and then the greeting, the word that it is over and every call in order.  A
server that agreed has heard all that once the loop has nothing left to do.
-/
import EditorBridge.Proofs.Handshake.Talking
import Mathlib.Logic.Relation

namespace EditorBridge

open Act (Ends Keeps Leaves)
open Json (Writable)

namespace Link

variable {l : Link} {A : List TaskId} {X F : List FutureId} {a : Option FutureId} {p : PeerId}
  {n : ProcessId} {qs : List Queued} {g : FutureId} {r : PendingRequest} {j : Job} {js : List Job}

/-- What a process has heard from the client whose calls are these. -/
def Heard (n : ProcessId) (qs : List Queued) (l : Link) : Prop :=
  if l.client.initialized then
    ∃ params, l.callsTo n = hello params :: thanks :: (Queued.numbered 2 qs).filter isCall
  else l.callsTo n = [] ∨ ∃ params, l.callsTo n = [hello params]

/-- Calls that can be written are taken. -/
def Takes (l : Link) : Prop := ∀ method params, Writable params →
  (Ends (notifyServer method params) l fun y _ => ∃ r, y = .ok r) ∧
    ∀ target token, Ends (requestServer method params target token) l fun y _ => ∃ f, y = .ok f

/-- A job that concerns some activities gives one of them a turn. -/
theorem Undisturbed.turn (h : l.Undisturbed A X F) (hr : l.loop.ready = j :: js)
    (hj : j.concerns A = true) : ∃ t ∈ A, j = .step t ∨ ∃ f, j = .call (.wake t) f := by
  have hready : j ∈ l.loop.ready := hr ▸ List.mem_cons_self
  cases j with
  | step t => exact ⟨t, by simpa [Job.concerns] using hj, .inl rfl⟩
  | die m code => exact absurd (.inl hready) (h.lasts m code)
  | call k f =>
    cases k with
    | wake t => exact ⟨t, by simpa [Job.concerns] using hj, .inr ⟨f, rfl⟩⟩
    | gone => exact absurd hready h.not_gone
    | _ => cases hj
  | _ => cases hj

namespace Phase

variable (h : l.Phase n qs a A)

include h

theorem heard : l.Heard n qs := by
  unfold Heard
  cases h with
  | asked _ _ _ hclosed _ _ _ hcalls =>
    rw [if_neg (by simp [hclosed])]
    exact .inl hcalls
  | launching _ _ _ hw hf | due _ _ hw hf =>
    rw [if_neg (by simp [hw.closed])]
    exact .inl hf.calls
  | greeting _ _ hw hf =>
    rw [if_neg (by simp [hw.closed])]
    exact .inr ⟨_, hf.calls⟩
  | welcomed _ hopen hf =>
    rw [if_pos hopen]
    exact ⟨_, hf.calls⟩
  | lost _ hclosed _ hcalls =>
    rw [if_neg (by simp [hclosed])]
    exact hcalls

/-- A client whose process runs has an end. -/
theorem peer (hn : n < l.processes.size) : l.client.peer ≠ none := by
  have hend {p : PeerId} {i : Nat} {ms : List Value} (hf : l.Facing p n i ms) :
      l.client.peer ≠ none := by
    rw [hf.peer]
    exact nofun
  cases h with
  | asked _ _ _ _ _ _ hsize => exact absurd hn (Nat.not_lt.2 (Nat.le_of_eq hsize))
  | launching _ _ _ _ hf | due _ _ _ hf | greeting _ _ _ hf | welcomed _ _ hf => exact hend hf
  | lost _ _ _ _ hpeer => exact hpeer hn

theorem takes (hn : n < l.processes.size) : l.Takes := fun _ _ hp =>
  ⟨(notifyServer_phase h hp).mono fun _ _ h' => h'.1 (h.peer hn),
    fun _ _ => (requestServer_phase h hp).mono fun _ _ h' => h'.1 (h.peer hn)⟩

/-- As long as the client is not welcome, nothing but the greeting may wait to be answered. -/
theorem answer (hpeer : l.client.peer = some p) (hclosed : l.client.initialized = false)
    (hr : r ∈ l.pending p) : a = some r.future := by
  have hnone {p' : PeerId} {i : Nat} {ms : List Value} (hf : l.Facing p' n i ms)
      (hempty : l.pending p' = []) : False := by
    cases hpeer.symm.trans hf.peer
    rw [hempty] at hr
    cases hr
  cases h with
  | asked _ _ _ _ hnone => cases hpeer.symm.trans hnone
  | launching _ _ _ _ hf hp | due _ _ _ hf hp => exact (hnone hf hp.2.2).elim
  | greeting _ _ _ hf _ hp ha =>
    cases hpeer.symm.trans hf.peer
    rw [ha, hp r hr]
  | welcomed _ hopen => cases hclosed.symm.trans hopen
  | lost _ _ _ _ _ hp => exact hp p hpeer r hr

end Phase

/-- **A server that agreed** was told so once there is nothing left to do. -/
theorem Phase.opened (h : l.Phase n qs (some g) A) {reply : Reply}
    (hg : l.loop.ending? g = some (.result reply)) (hidle : l.loop.ready = []) :
    l.client.initialized = true := by
  cases h with
  | asked _ _ _ _ _ _ _ _ ha | launching _ _ _ _ _ _ _ _ ha | due _ _ _ _ _ ha => cases ha
  | @greeting t p x g' params h ht hw hf hlink hp ha =>
    cases ha
    -- Whoever waits for the answer was told, or would still be in the queue.
    rcases ((ht.wakes g).2 rfl).asks h.fit.sane with hcalls | hj
    · have hd := (h.fit.sane.calls g _ hcalls).1
      rw [Loop.done, hg] at hd
      cases hd
    · rw [hidle] at hj
      cases hj
  | welcomed _ hopen => exact hopen
  | lost _ _ _ _ _ _ ha =>
    obtain ⟨e, he, hne⟩ := ha g rfl
    cases he.symm.trans hg
    exact absurd rfl (hne reply)

end Link

namespace Workbench

open Link (Phase)

variable {w₀ w w' : Workbench} {A : List TaskId} {a : Option FutureId} {n : ProcessId}
  {qs : List Queued} {j : Job} {js : List Job}

/-! ### Jobs -/

/-- A greeting is in one of its phases.  Once it is known whose answer is waited for, that remains
so. -/
def Phased (n : ProcessId) (qs : List Queued) (a : Option FutureId) (w : Workbench) : Prop :=
  ∃ A a', (∀ g, a = some g → a' = some g) ∧ w.link.Phase n qs a' A

/-- **A job** leaves a greeting in its phase, or takes it to the next one. -/
theorem doJob_phased (h : w.link.Phase n qs a A) (hr : w.link.loop.ready = j :: js) :
    Ends (doJob j) { w with link := w.link.taken js } fun _ w' => Phased n qs a w' := by
  obtain ⟨X, F, hd, -⟩ := h.undisturbed
  cases hj : j.concerns A with
  | false =>
    exact (doJob_tacit hr hj).mono fun _ w' hs => ⟨A, a, fun _ => id, h.mono hs⟩
  | true =>
    obtain ⟨t, ht, hturn⟩ := hd.turn hr hj
    have howes : w.link.loop.Owes j := .inl (hr ▸ List.mem_cons_self)
    have hstep {a' : Option FutureId} {u : TaskId} {ks : List Resumption} (ht' : t ∈ [u])
        (hacts : w.link.Acts u ks none 1)
        (hstep : w.link.loop.ready = .step u :: js → Ends (stepTask u)
          { w with link := w.link.taken js } fun _ w' => Phased n qs a' w') :
        Ends (doJob j) { w with link := w.link.taken js } fun _ w' => Phased n qs a' w' := by
      cases List.mem_singleton.1 ht'
      rcases hturn with rfl | ⟨f, rfl⟩
      · exact hstep hr
      · cases (hacts.wakes f).1 howes
    cases h with
    | asked h hacts hqs _ _ hprocess hn hcalls ha =>
      subst hqs ha
      exact hstep ht hacts fun hr => (asked_turn hr h hacts hprocess hn hcalls).mono
        fun _ w' h' => ⟨_, none, nofun, h'⟩
    | launching h hacts hks hw hf hp hx hn ha =>
      subst ha
      exact hstep ht hacts fun hr => (launching_turn hr h hacts hks hw hf hp hx hn).mono
        fun _ w' ⟨A', h'⟩ => ⟨A', none, nofun, h'⟩
    | due h hacts hw hf hp ha =>
      subst ha
      exact hstep ht hacts fun hr => (due_turn hr h hacts hw hf hp).mono
        fun _ w' ⟨A', a', h'⟩ => ⟨A', a', nofun, h'⟩
    | greeting h hacts hw hf hlink hp ha =>
      cases List.mem_singleton.1 ht
      subst ha
      rcases hturn with rfl | ⟨f, rfl⟩
      · have hpos := Loop.turns_pos (A := [t]) (hr ▸ List.mem_cons_self) List.mem_cons_self
        exact absurd hacts.turns (Nat.ne_of_gt hpos)
      · cases (hacts.wakes f).1 howes
        exact (greeting_turn hr h hacts hw hf hlink hp).mono
          fun _ w' h' => ⟨[], _, fun _ => id, h'⟩
    | welcomed | lost => cases ht

/-- **The loop** does as many jobs as it likes. -/
theorem settle_phased (h : Phased n qs a w) (m : Nat) :
    Ends (settle m) w fun _ w' => Phased n qs a w' := by
  induction m generalizing w with
  | zero => exact .pure h
  | succ m ih =>
    obtain ⟨A, a', ha, hphase⟩ := h
    unfold settle
    refine .read ?_
    split
    · exact .pure ⟨A, a', ha, hphase⟩
    rename_i j lo hnext
    unfold Loop.next? at hnext
    split at hnext
    · cases hnext
    rename_i j js hr
    cases hnext
    refine .bind (.on (.change ?_))
    refine .bind (.bind (.outcome ((doJob_phased hphase hr).mono fun y w₁ h₁ => ?_)))
    obtain ⟨A₁, a₁, ha₁, h₁⟩ := h₁
    have h₁ : Phased n qs a w₁ := ⟨A₁, a₁, fun g hg => ha₁ g (ha g hg), h₁⟩
    cases y with
    | ok _ => exact .pure (ih h₁)
    | error f =>
      show Ends (if _ then _ else _) w₁ _
      split
      · exact .throw h₁
      · exact .pure (ih h₁)

/-! ### Conversations -/

/-- Whether it does not tell the process to end, nor somebody to give up. -/
def Use.Harmless : Use → Prop
  | works _ | passes _ | decides _ | writes .. | cancels _ => True
  | _ => False

theorem act_phased {x : Use} (hx : x.Harmless) (h : Phased n qs a w) :
    Ends x.act w fun _ w' => Phased n qs a w' := by
  have htacit {b : Act Link Unit} (hb : ∀ A f, Keeps (Link.Tacit A f) b) :
      Ends (onLink b) w fun _ w' => Phased n qs a w' := by
    obtain ⟨A, a', ha, h⟩ := h
    exact .on fun j => ⟨A, a', ha, h.mono fun f => (hb A f).keeps ⟨j, w.link⟩⟩
  cases x with
  | works jobs => exact settle_phased h jobs
  | passes time => exact htacit fun A f => Link.tacit_onLoop fun _ => Link.tacit_advanceTo time
  | decides s => exact htacit fun A f => Link.tacit_change fun _ =>
      ⟨rfl, rfl, rfl, rfl, rfl, rfl, rfl⟩
  | writes m output bytes => exact htacit fun A f => Link.tacit_receiveOutput m output bytes
  | cancels t => exact htacit fun A f => Link.tacit_cancelToken t
  | _ => cases hx

/-- A bridge in use, with the calls that were made to the server so far.  A request that was given
up before the client was welcome is none of them. -/
structure Conversation where
  calls : List Queued := []
  bench : Workbench

namespace Conversation

/-- What may happen while a process lasts. -/
inductive Goes (s : Conversation) : Conversation → Prop
  | uses (x : Use) (hx : x.Harmless) {w : Workbench} (hw : x.act.Leaves s.bench w) :
    Goes s { s with bench := w }
  /-- A notification is sent. -/
  | notifies (method : String) (params : Value) (hp : Writable params) {y : Except Failure Unit}
    {w : Workbench} (hw : (onLink (Link.notifyServer method params)).Gives s.bench y w) :
    Goes s ⟨Link.calledAlso s.calls y fun _ => .notification method params, w⟩
  /-- A request is sent. -/
  | asks (method : String) (params : Value) (target : Wire.Target) (token : Option TokenId)
    (hp : Writable params) {y : Except Failure FutureId} {w : Workbench}
    (hw : (onLink (Link.requestServer method params target token)).Gives s.bench y w) :
    Goes s ⟨Link.calledAlso s.calls y (.request method params target token), w⟩
  /-- A request is given up by who made it. -/
  | drops (f : FutureId) (hf : f ∈ s.calls.filterMap Queued.result?) {w : Workbench}
    (hw : (Use.drops f).act.Leaves s.bench w) : Goes s ⟨s.bench.link.callsWithout s.calls f, w⟩
  /-- Somebody begins to wait for readiness. -/
  | awaits {w : Workbench} (hw : (onLink (Link.startTask .await)).Leaves s.bench w) :
    Goes s { s with bench := w }

/-- A conversation goes on for a while. -/
abbrev Continues : Conversation → Conversation → Prop := Relation.ReflTransGen Goes

variable {s s' : Conversation}

/-- **Whatever happens** leaves a greeting in one of its phases. -/
theorem Goes.phased (h : s.Goes s') (hp : Phased n s.calls a s.bench) :
    Phased n s'.calls a s'.bench := by
  cases h with
  | uses x hx hw => exact hw.elim (act_phased hx hp)
  | notifies method params hwrites hw =>
    obtain ⟨A, a', ha, hphase⟩ := hp
    refine hw.elim (Q := fun y w => Phased n
      (Link.calledAlso s.calls y fun _ => .notification method params) a w) (.on ?_)
    exact (Link.notifyServer_phase hphase hwrites).mono fun _ _ h' => ⟨A, a', ha, h'.2⟩
  | asks method params target token hwrites hw =>
    obtain ⟨A, a', ha, hphase⟩ := hp
    refine hw.elim (Q := fun y w => Phased n (Link.calledAlso s.calls y _) a w) (.on ?_)
    exact (Link.requestServer_phase hphase hwrites).mono fun _ _ h' => ⟨A, a', ha, h'.2⟩
  | drops f hf hw =>
    obtain ⟨A, a', ha, hphase⟩ := hp
    exact hw.elim (.ignore (.on ((Link.drop_phase hphase hf).mono fun _ _ h' => ⟨A, a', ha, h'⟩)))
  | awaits hw =>
    obtain ⟨A, a', ha, hphase⟩ := hp
    refine hw.elim (.on ((Link.startTask_begun .await _).mono fun _ l h' => ?_))
    obtain ⟨-, rfl⟩ := h'
    exact ⟨A, a', ha, hphase.mono fun f => Link.tacit_begun rfl⟩

theorem Continues.phased (h : s.Continues s') (hp : Phased n s.calls a s.bench) :
    Phased n s'.calls a s'.bench := by
  induction h with
  | refl => exact hp
  | tail _ hg ih => exact hg.phased ih

/-- No process runs for the client, nobody is told of the end of one, and whoever has something to
do waits for readiness. -/
structure Resting (w : Workbench) : Prop where
  undisturbed : w.link.Undisturbed [] [] []
  closed : w.link.client.initialized = false
  peer : w.link.client.peer = none
  process : w.link.client.process = none
  calls : w.link.callsTo w.link.processes.size = []

/-- **A client at rest** that is asked to start is in the first phase. -/
theorem Resting.asked (h : Resting w) : Ends (onLink (Link.startTask .start)) w fun _ w' =>
    Phased w.link.processes.size [] none w' := by
  refine .on ((Link.startTask_begun .start w.link).mono fun y l hl => ?_)
  obtain ⟨-, rfl⟩ := hl
  have hacts := Link.acts_begun h.undisturbed .start
  have hp := Link.proceeds_begun (l := w.link) .start
  refine ⟨[w.link.tasks.size], none, fun _ h => ?_, .asked (h.undisturbed.proceeds hp
    (fun u hu => ?_) fun u hu => ?_) hacts rfl h.closed h.peer h.process rfl h.calls rfl⟩
  · cases h
  · have hold : u ≠ w.link.tasks.size := fun heq => hu (heq ▸ List.mem_cons_self)
    rw [Link.Over, Link.rest, Link.task_begun, if_neg hold]
    exact (h.undisturbed.fit.mild u List.not_mem_nil).imp (hp.loop.done _) id
  · cases List.mem_singleton.1 hu
    exact ⟨hacts.there, List.forall_mem_nil _⟩

/-- **A server hears everything in order**, whenever it answers: first the greeting, then that the
greeting is over, and then the calls as they were made.  Once its process runs no call is
refused, and if it agrees the client is welcome as soon as there is nothing left to do. -/
theorem hears_inOrder (hw₀ : Resting w₀) (hw : (onLink (Link.startTask .start)).Leaves w₀ w)
    (h : Continues { bench := w } s) :
    s.bench.link.Heard w₀.link.processes.size s.calls ∧
      (w₀.link.processes.size < s.bench.link.processes.size → s.bench.link.Takes) ∧
      ∀ p r reply, s.bench.link.client.peer = some p → s.bench.link.client.initialized = false →
        r ∈ s.bench.link.pending p → ∀ s', s.Continues s' →
        s'.bench.link.loop.ending? r.future = some (.result reply) →
        s'.bench.link.loop.ready = [] → s'.bench.link.client.initialized = true := by
  obtain ⟨A, a, -, hphase⟩ := h.phased (hw.elim hw₀.asked)
  refine ⟨hphase.heard, hphase.takes, fun p r reply hpeer hclosed hr s' hs' hg hidle => ?_⟩
  obtain ⟨A', a', ha', hphase'⟩ := hs'.phased ⟨A, a, fun _ => id, hphase⟩
  rw [ha' _ (hphase.answer hpeer hclosed hr)] at hphase'
  exact hphase'.opened hg hidle

/-! ### A run -/

theorem resting_watched : Resting watched where
  undisturbed := by
    have hnobody (j : Job) : ¬watched.link.loop.Owes j := by
      rintro (hj | ⟨t, ht, -⟩ | ⟨k, f, -, fut, hfut, -⟩)
      · cases hj
      · cases ht
      · simp [watched] at hfut
    refine ⟨⟨rfl, rfl, dormant_watched.orderly.sane, List.forall_mem_nil _,
      fun j hj => absurd hj (hnobody j), fun t _ => .inr (List.forall_mem_nil _)⟩,
      fun f _ => ⟨fun j hj => absurd hj (hnobody j), fun p r hr => ?_,
      fun t ht => absurd ht (Nat.not_lt_zero t), fun h => ?_⟩, fun m code => hnobody _,
      fun f hf => absurd hf (hnobody _), List.forall_mem_nil _, List.forall_mem_nil _⟩
    · cases (show watched.link.pending p = [] from rfl) ▸ hr
    · cases h
  closed := rfl
  peer := rfl
  process := rfl
  calls := rfl

/-- What a server says that agrees to be greeted. -/
def agreement : Rpc.Bytes :=
  (Rpc.framed ("\x7b\"jsonrpc\":\"2.0\",\"id\":1," ++
    "\"result\":\x7b\"capabilities\":\x7b\x7d\x7d\x7d")).toUTF8.toList

/-- A request and a notification wait for a server that then agrees.  Another notification is made
between its answer and the next turn of the loop, and the last one afterwards. -/
theorem hears_inOrder_agreement : ∃ s s' : Conversation, s.Continues s' ∧
    (s.calls.length, s.bench.link.client.initialized, (s.bench.link.callsTo 0).length) =
      (2, false, 1) ∧
    s'.calls.length = 4 ∧ s'.bench.link.client.initialized = true ∧
      s'.bench.link.Heard 0 s'.calls := by
  have hw := leaves_thereafter (onLink (Link.startTask .start)) watched
  generalize hstart : thereafter (onLink (Link.startTask .start)) watched = w at hw
  have h : Continues { bench := w } { bench := w } := .refl
  have h := h.tail (.uses (.works 2) trivial (leaves_thereafter _ _))
  have h := h.tail (.asks "a" .null .unchanged none .null (gives_thereafter _ _))
  have h := h.tail (.notifies "b" .null .null (gives_thereafter _ _))
  have h := h.tail (.uses (.works 9) trivial (leaves_thereafter _ _))
  generalize hs : Conversation.mk _ (thereafter (Use.works 9).act _) = s at h
  have hgreeted : (s.calls.length, s.bench.link.client.initialized,
    (s.bench.link.callsTo 0).length) =
      (2, false, 1) ∧ s.bench.link.client.peer = some 0 ∧
      (s.bench.link.pending 0).map (·.future) = [5] := by
    rw [← hs, ← hstart]
    decide +kernel
  obtain ⟨hcounts, hpeer, hpending⟩ := hgreeted
  obtain ⟨r, hr, hfuture⟩ := List.mem_map.1 (hpending ▸ List.mem_cons_self)
  have h' : Continues s s := .refl
  have h' := h'.tail (.uses (.writes 0 1 agreement) trivial (leaves_thereafter _ _))
  have h' := h'.tail (.notifies "c" .null .null (gives_thereafter _ _))
  have h' := h'.tail (.uses (.works 9) trivial (leaves_thereafter _ _))
  have h' := h'.tail (.notifies "d" .null .null (gives_thereafter _ _))
  generalize hs' :
    Conversation.mk _ (thereafter (onLink (Link.notifyServer "d" .null)) _) = s' at h'
  have hanswered : s'.calls.length = 4 ∧ s'.bench.link.loop.ready.length = 0 ∧
      ((s'.bench.link.loop.ending? 5).bind (·.toExcept.toOption)).isSome = true := by
    rw [← hs', ← hs, ← hstart]
    decide +kernel
  obtain ⟨hcalls, hidle, hended⟩ := hanswered
  obtain ⟨reply, he⟩ : ∃ reply, s'.bench.link.loop.ending? 5 = some (.result reply) := by
    cases he : s'.bench.link.loop.ending? 5 with
    | none =>
      rw [he] at hended
      cases hended
    | some e =>
      rw [he] at hended
      cases e with
      | result reply => exact ⟨reply, rfl⟩
      | _ => cases hended
  obtain ⟨-, -, hopens⟩ := hears_inOrder resting_watched hw h
  have hclosed : s.bench.link.client.initialized = false := (Prod.mk.inj (Prod.mk.inj hcounts).2).1
  refine ⟨s, s', h', hcounts, hcalls, ?_, (hears_inOrder resting_watched hw (h.trans h')).1⟩
  exact hopens 0 r reply hpeer hclosed hr s' h' (hfuture ▸ he) (List.length_eq_zero_iff.1 hidle)

end Conversation

end Workbench

end EditorBridge
