/-
The stages of a server process.

A client that was asked to start makes an end and two futures, one for readiness and one for
the end of the process.  It then runs the process, and from then on the link owes exactly one
call about the end of it.  That call fails readiness, drops what waits in the queue and is
announced, and after it the client has no process.  `Posture` is the little that has to be known
about a link to tell these stages apart, and nothing but the three acts between them
changes it.
-/
import EditorBridge.Proofs.Client.Turning

namespace EditorBridge

open Act (Ends Keeps Reads)
open Resumption (All)

/-- Whether it does nothing but to record the failure of a call. -/
@[reducible] def Resumption.isTraced : Resumption → Bool
  | .traced .. => true
  | _ => false

namespace Link

variable {l l' : Link} {hand : List Job} {own W : List TaskId} {F : List FutureId} {t : TaskId}
  {g : Task → Task} {p : PeerId} {n : ProcessId} {r x : FutureId} {s : Nat}

/-! ### Postures -/

/-- What tells the stages of a server process apart. -/
structure Posture where
  processes : Nat
  peer : Option PeerId
  process : Option ProcessId
  ready : Option FutureId
  /-- The only end that may be connected. -/
  connected : Option PeerId
  /-- How often the end of the process is still to be told. -/
  gones : Nat
  /-- How often the end of a process was announced. -/
  stops : Nat

/-- A link is in a posture. -/
structure Stands (c : Posture) (hand : List Job) (l : Link) : Prop where
  processes : l.processes.size = c.processes
  peer : l.client.peer = c.peer
  process : l.client.process = c.process
  ready : l.client.ready = c.ready
  connected : ∀ q, c.connected ≠ some q → l.outlet q = none
  gones : l.loop.gones + hand.countP Job.isGone = c.gones
  stops : l.stops = c.stops

namespace Stands

variable {c : Posture}

theorem mono (h : l.Stands c hand) (hb : Bides [] [] l l') : l'.Stands c hand where
  processes := hb.parts.size.trans h.processes
  peer := hb.client.1.trans h.peer
  process := hb.client.2.1.trans h.process
  ready := hb.client.2.2.1.trans h.ready
  connected q hq := by
    rcases hb.outlets q with hout | hout
    · exact hout.trans (h.connected q hq)
    · exact hout
  gones := hb.gones ▸ h.gones
  stops := hb.stops.trans h.stops

theorem rested (h : l.Stands c hand) : (l.rested t g).Stands c hand := { h with }

/-- A job that does not tell of the end of the process need not be kept. -/
theorem put (h : l.Stands c hand) (hj : hand.countP Job.isGone = 0) : l.Stands c [] where
  processes := h.processes
  peer := h.peer
  process := h.process
  ready := h.ready
  connected := h.connected
  gones := by simpa [hj] using h.gones
  stops := h.stops

end Stands

/-- The future of readiness may be remembered from an earlier process, but has ended then. -/
structure Called (n s : Nat) (ready : Option FutureId) (hand : List Job) (l : Link) : Prop where
  stands : l.Stands ⟨n, none, none, ready, none, 0, s⟩ hand
  done : ∀ r, ready = some r → l.loop.done r = true

/-- A client has an end without a process. -/
structure Starting (n s : Nat) (p : PeerId) (r x : FutureId) (hand : List Job) (l : Link) : Prop where
  stands : l.Stands ⟨n, some p, none, some r, none, 0, s⟩ hand
  exited : l.client.exited = some x
  unspawned : l.Unspawned p
  made : r < l.loop.futures.size ∧ x < l.loop.futures.size

/-- The process of a client was run, and its end was not heard of. -/
structure Running (n s : Nat) (p : PeerId) (r x : FutureId) (hand : List Job) (l : Link) : Prop where
  stands : l.Stands ⟨n + 1, some p, some n, some r, some p, 1, s⟩ hand
  process : l.owner n = p ∧ l.exit n = x
  made : r < l.loop.futures.size
  listens : l.Hears hand x .gone

/-- The end of the process was heard of. -/
structure Finished (n s : Nat) (p : PeerId) (ready : Option FutureId) (hand : List Job) (l : Link) :
    Prop where
  stands : l.Stands ⟨n + 1, none, none, ready, some p, 0, s + 1⟩ hand
  owner : l.owner n = p
  done : ∀ r, ready = some r → l.loop.done r = true
  queue : l.client.queued = []

section Staying

variable {ready : Option FutureId}

theorem Called.mono (h : l.Called n s ready hand) (hb : Bides [] [] l l') : l'.Called n s ready hand :=
  ⟨h.stands.mono hb, fun r hr => hb.loop.done r (h.done r hr)⟩

theorem Starting.mono (h : l.Starting n s p r x hand) (hb : Bides [] [] l l') :
    l'.Starting n s p r x hand where
  stands := h.stands.mono hb
  exited := hb.client.2.2.2.trans h.exited
  unspawned := by
    refine ⟨hb.parts.peers ▸ h.unspawned.1, fun m hm => ?_⟩
    rw [(hb.parts.same m).1]
    exact h.unspawned.2 m (hb.parts.size ▸ hm)
  made := h.made.imp (Nat.lt_of_lt_of_le · hb.loop.futures) (Nat.lt_of_lt_of_le · hb.loop.futures)

theorem Running.mono (h : l.Running n s p r x hand) (hb : Bides [] [] l l') :
    l'.Running n s p r x hand where
  stands := h.stands.mono hb
  process := ⟨(hb.parts.same n).1.trans h.process.1, (hb.parts.same n).2.trans h.process.2⟩
  made := Nat.lt_of_lt_of_le h.made hb.loop.futures
  listens := (h.listens.mono hb.loop).resolve_right id

theorem Finished.mono (h : l.Finished n s p ready hand) (hb : Bides [] [] l l') :
    l'.Finished n s p ready hand where
  stands := h.stands.mono hb
  owner := (hb.parts.same n).1.trans h.owner
  done r hr := hb.loop.done r (h.done r hr)
  queue := hb.shut h.stands.peer h.queue

/-! Nothing of it depends on what activities have left to do. -/

theorem Called.rested (h : l.Called n s ready hand) : (l.rested t g).Called n s ready hand :=
  ⟨h.stands.rested, h.done⟩

theorem Starting.rested (h : l.Starting n s p r x hand) : (l.rested t g).Starting n s p r x hand :=
  { h with stands := h.stands.rested }

theorem Running.rested (h : l.Running n s p r x hand) : (l.rested t g).Running n s p r x hand :=
  { h with stands := h.stands.rested }

theorem Finished.rested (h : l.Finished n s p ready hand) :
    (l.rested t g).Finished n s p ready hand :=
  { h with stands := h.stands.rested }

end Staying

/-- An activity was begun, and this is what it has left to do. -/
def Plans (t : TaskId) (ks : List Resumption) (l : Link) : Prop := t < l.tasks.size ∧ l.rest t = ks

theorem Plans.mono {ks : List Resumption} (h : l.Plans t ks) (hb : Bides [] [] l l') : l'.Plans t ks :=
  ⟨Nat.lt_of_lt_of_le h.1 hb.tasks, (hb.rest h.1).trans h.2⟩

theorem Plans.rested {u : TaskId} {ks : List Resumption} (hu : u ≠ t) (h : l.Plans u ks) :
    (l.rested t g).Plans u ks := by
  refine ⟨by simpa [Link.rested] using h.1, ?_⟩
  rw [rest, getD_rested hu]
  exact h.2

/-- **The stages** of the process that activity `t₀` starts: it is asked to, it is about to be run, it
was run, its end was heard of, or it could not be run. -/
inductive Stage (t₀ : TaskId) (n s : Nat) (W : List TaskId) (F : List FutureId) (hand : List Job)
    (l : Link) : Prop
  | called {ready : Option FutureId} (h : l.Alive [t₀] W F hand) (hF : F = [])
    (hs : l.Called n s ready hand) (hp : l.Plans t₀ [.start])
  | starting {p : PeerId} {r x : FutureId} {ks : List Resumption} (h : l.Alive [t₀] W F hand)
    (hs : l.Starting n s p r x hand) (hp : l.Plans t₀ (.spawned p x :: ks))
    (hks : All Resumption.isTraced ks)
  | running {p : PeerId} {r x : FutureId} (h : l.Alive [] W F hand) (hs : l.Running n s p r x hand)
  | finished {p : PeerId} {ready : Option FutureId} (h : l.Alive [] W F hand)
    (hs : l.Finished n s p ready hand)
  | never (h : l.Alive [] [] [] hand) (hn : l.processes.size = n)
    (hg : l.loop.gones + hand.countP Job.isGone = 0)

namespace Stage

variable {t₀ : TaskId}

theorem orderly (h : l.Stage t₀ n s W F hand) : l.Orderly := by
  cases h with
  | called h => exact h.orderly
  | starting h => exact h.orderly
  | running h => exact h.orderly
  | finished h => exact h.orderly
  | never h => exact h.orderly

/-- Whatever serves those who wait leaves a process in its stage. -/
theorem served (h : l.Stage t₀ n s W F hand) (hs : l.Serves l') : l'.Stage t₀ n s W F hand := by
  have hb := (hs h.orderly).2
  cases h with
  | called h hF hc hp => exact .called (h.served hs) hF (hc.mono hb) (hp.mono hb)
  | starting h hc hp hks => exact .starting (h.served hs) (hc.mono hb) (hp.mono hb) hks
  | running h hc => exact .running (h.served hs) (hc.mono hb)
  | finished h hc => exact .finished (h.served hs) (hc.mono hb)
  | never h hn hg => exact .never (h.served hs) (hb.parts.size.trans hn) (hb.gones ▸ hg)

end Stage

/-! ### A start -/

/-- A new end looks like one that is not there. -/
theorem field_push {β : Type} {e : Peer} {g : Peer → β} (hg : g e = g default) (q : PeerId) :
    g ((l.peers.push e).getD q default) = g (l.peers.getD q default) := by
  by_cases hq : q < l.peers.size
  · simp [Array.getElem?_push, Nat.ne_of_lt hq]
  · by_cases heq : q = l.peers.size
    · subst heq
      simpa using hg
    · simp [Array.getElem?_push, heq, hq]

section Beginning

variable {lo : Loop Reply Callback Job}

theorem outlet_starting (q : PeerId) : (l.starting r x lo).outlet q = l.outlet q :=
  field_push (l := l) (e := Peer.ofClient) (g := Peer.outlet) rfl q

theorem pending_starting (q : PeerId) : (l.starting r x lo).pending q = l.pending q :=
  field_push (l := l) (e := Peer.ofClient) (g := Peer.pending) rfl q

theorem lastId_starting (q : PeerId) : (l.starting r x lo).lastId q = l.lastId q :=
  field_push (l := l) (e := Peer.ofClient) (g := Peer.lastId) rfl q

/-- A client that is asked to start has an end, and is in order. -/
theorem orderly_starting (h : l.Orderly) (hlo : l.loop.Evolves lo) : (l.starting r x lo).Orderly where
  sane := hlo.sane h.sane
  scripts := h.scripts
  tables q := (h.tables q).mono (Nat.le_of_eq (lastId_starting q).symm) (pending_starting q)
    (outlet_starting q) hlo.futures
  outcomes t ht := Nat.lt_of_lt_of_le (h.outcomes t ht) hlo.futures
  owners m hm := Nat.lt_of_lt_of_le (h.owners m hm) (by simp [Link.starting])
  exits m hm := Nat.lt_of_lt_of_le (h.exits m hm) hlo.futures
  told m hm := by
    obtain ⟨hout, hdone⟩ := h.told m hm
    exact ⟨(outlet_starting _).trans hout, hlo.done _ hdone⟩
  keepable := nofun

theorem carries_starting (hlo : l.loop.Evolves lo) : Carries [] l (l.starting r x lo) :=
  .of_tasks hlo.toRemembers rfl fun q _ hr => .inl ((pending_starting (l := l) q).symm ▸ hr)

/-- A client that is asked to start stands for an end that has no process. -/
theorem Called.starting {ready : Option FutureId} (h : l.Called n s ready hand) (ho : l.Orderly)
    (hlo : l.loop.Evolves lo) (hr : r < lo.futures.size) (hx : x < lo.futures.size) :
    (l.starting r x lo).Starting n s l.peers.size r x hand where
  stands := {
    processes := h.stands.processes
    peer := rfl
    process := h.stands.process
    ready := rfl
    connected := fun q hq => (outlet_starting q).trans (h.stands.connected q hq)
    gones := hlo.gones ▸ h.stands.gones
    stops := h.stands.stops }
  exited := rfl
  unspawned := ⟨by simp [Link.starting], fun m hm => Nat.ne_of_lt (ho.owners m hm)⟩
  made := ⟨hr, hx⟩

end Beginning

/-- What is known of a start in its turn: it was begun, and waits for the process. -/
def Launched (n s : Nat) (hand : List Job) (l : Link) (y : Except Failure Step) (l' : Link) : Prop :=
  ∃ p r x ks, y = .ok (.turn (.spawned p x :: ks)) ∧ All Resumption.isTraced ks ∧ l'.Orderly ∧
    Carries [] l l' ∧ SameReady l l' ∧ l'.Starting n s p r x hand

/-- **A start** is begun if no process is there. -/
theorem start_begins {ready : Option FutureId} (h : l.Called n s ready hand) (ho : l.Orderly) :
    Ends start l (Launched n s hand l) := by
  refine .read ?_
  split
  · rename_i hp
    rw [h.stands.process] at hp
    cases hp
  refine .bind (newFuture_ends.mono fun y l₁ h₁ => ?_)
  obtain ⟨rfl, rfl⟩ := h₁
  refine .bind (newFuture_ends.mono fun y l₂ h₂ => ?_)
  obtain ⟨rfl, rfl⟩ := h₂
  refine .bind (.read (.change_bind (.pure (.change_bind (.read (.bind (.log ?_)))))))
  have hlo := l.loop.evolves_create.trans (Loop.evolves_create l.loop.create.2)
  have hstarting := h.starting (r := l.loop.create.1) (x := l.loop.create.2.create.1) ho hlo
    (by simp [Loop.create]) (by simp [Loop.create])
  exact .change_bind (.pure ⟨_, _, _, [], rfl, .nil, orderly_starting ho hlo, carries_starting hlo,
    fun r hr => .inl (hlo.done r (h.done r (h.stands.ready.symm.trans hr))), hstarting⟩)

theorem tracedStart_begins {ready : Option FutureId} (h : l.Called n s ready hand) (ho : l.Orderly) :
    Ends tracedStart l (Launched n s hand l) := by
  refine .recorded (start_begins h ho) (fun _ _ => id) (fun f more l' h' => ?_) fun more l' h' => ?_
  · obtain ⟨_, _, _, _, heq, -⟩ := h'
    cases heq
  · obtain ⟨p, r, x, ks, heq, hks, h'⟩ := h'
    cases heq
    exact ⟨p, r, x, _, rfl, hks.append (List.forall_mem_singleton.2 rfl), h'⟩

end Link

end EditorBridge
