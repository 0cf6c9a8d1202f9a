/-
A server process is run for a client.

The process belongs to the end that the start made, and when it runs the end is connected
to it, if it takes input at all (`Ran`).  From then on its future is asked to tell of its
end, once.  If the process cannot be run there is nobody to wait for, and so nothing is
promised about those who do.
-/
import EditorBridge.Proofs.Client.Stages

namespace EditorBridge.Link

open Act (Ends Keeps)
open Resumption (All)

variable {l l' : Link} {hand : List Job} {p : PeerId} {n : ProcessId} {r x : FutureId} {s : Nat}

/-- A process runs for an end, which may be connected to it, and all else is as it was. -/
structure Ran (p : PeerId) (x : FutureId) (l l' : Link) : Prop where
  loop : l'.loop = l.loop
  tasks : l'.tasks = l.tasks
  client : l'.client = l.client
  rest : (l'.scripts, l'.stops) = (l.scripts, l.stops)
  processes : l'.processes = (l.withProcess p x).processes
  peers : l'.peers.size = l.peers.size
  pending : ∀ q, l'.pending q = l.pending q
  lastId : ∀ q, l'.lastId q = l.lastId q
  outlet : ∀ q, q ≠ p → l'.outlet q = l.outlet q

/-- Running a process either fails or does it. -/
theorem spawn_runs (hp : p < l.peers.size) (x : FutureId) :
    Ends (spawn p x) l fun y l' => match y with
      | .ok n => n = l.processes.size ∧ Ran p x l l'
      | .error _ => l' = l := by
  have hrun : Ran p x l (l.withProcess p x) :=
    ⟨rfl, rfl, rfl, rfl, rfl, rfl, fun _ => rfl, fun _ => rfl, fun _ _ => rfl⟩
  have hconnected : Ran p x l ((l.withProcess p x).withOutlet p l.processes.size) := by
    refine ⟨rfl, rfl, rfl, rfl, rfl, Array.size_modify .., fun q => ?_, fun q => ?_, fun q hq => ?_⟩
    · exact getD_modify Peer.pending rfl q
    · exact getD_modify Peer.lastId rfl q
    · exact (outlet_withOutlet (l := l.withProcess p x) hp _ q).trans (if_neg hq)
  refine .read ?_
  dsimp only
  split
  · exact .bind (.throw rfl)
  · refine .change_bind ?_
    split
    · exact .change_bind (.pure ⟨rfl, hconnected⟩)
    · exact .pure ⟨rfl, hrun⟩

theorem exit_withProcess (l : Link) (p : PeerId) (x : FutureId) (n : ProcessId) :
    (l.withProcess p x).exit n = if n = l.processes.size then x else l.exit n := by
  by_cases hn : n = l.processes.size <;>
    simp [exit, withProcess, Array.getElem?_push, hn]

namespace Ran

theorem size (h : Ran p x l l') : l'.processes.size = l.processes.size + 1 := by
  rw [h.processes]
  exact Array.size_push ..

theorem owner (h : Ran p x l l') (n : ProcessId) :
    l'.owner n = if n = l.processes.size then p else l.owner n := by
  rw [← owner_withProcess, Link.owner, h.processes, Link.owner]

theorem exit (h : Ran p x l l') (n : ProcessId) :
    l'.exit n = if n = l.processes.size then x else l.exit n := by
  rw [← exit_withProcess, Link.exit, h.processes, Link.exit]

/-- A process that was just run has not ended. -/
theorem dead (h : Ran p x l l') (hd : l'.Dead n) : n < l.processes.size ∧ l.Dead n := by
  rw [Dead, h.processes] at hd
  rcases Nat.lt_trichotomy n l.processes.size with hn | rfl | hn
  · refine ⟨hn, ?_⟩
    simpa [Dead, withProcess, Array.getElem?_push, Nat.ne_of_lt hn] using hd
  · simp [withProcess] at hd
  · have hnone : ¬n < l.processes.size := Nat.not_lt_of_lt hn
    simp [withProcess, Array.getElem?_push, Nat.ne_of_gt hn, hnone] at hd
    exact absurd hd (by decide)

/-- A link with one more process is in order, whatever its client knows of it. -/
theorem orderly (h : Ran p x l l') (ho : l.Orderly) (hp : l.Unspawned p)
    (hx : x < l.loop.futures.size) (hpending : l.pending p = []) : l'.Orderly where
  sane := h.loop ▸ ho.sane
  scripts := (Prod.mk.inj h.rest).1.trans ho.scripts
  tables q := by
    have htable := ho.tables q
    refine ⟨h.pending q ▸ htable.ids, ?_, ?_, fun hnone => ?_⟩
    · rw [h.pending, h.lastId]
      exact htable.bounded
    · rw [h.pending, h.loop]
      exact htable.made
    · rw [h.pending]
      by_cases hq : q = p
      · exact hq ▸ hpending
      · exact htable.closed ((h.outlet q hq).symm.trans hnone)
  outcomes t ht := by
    rw [h.tasks] at ht ⊢
    exact h.loop ▸ ho.outcomes t ht
  owners m hm := by
    rw [h.owner, h.peers]
    split
    · exact hp.1
    · rename_i hne
      exact ho.owners m (Nat.lt_of_le_of_ne (Nat.le_of_lt_succ (h.size.symm ▸ hm : m < l.processes.size + 1)) hne)
  exits m hm := by
    rw [h.exit, h.loop]
    split
    · exact hx
    · rename_i hne
      exact ho.exits m (Nat.lt_of_le_of_ne (Nat.le_of_lt_succ (h.size.symm ▸ hm : m < l.processes.size + 1)) hne)
  told m hm := by
    obtain ⟨hlt, hdead⟩ := h.dead hm
    rw [h.owner, h.exit, h.loop, if_neg (Nat.ne_of_lt hlt), if_neg (Nat.ne_of_lt hlt),
      h.outlet _ (hp.2 m hlt)]
    exact ho.told m hdead
  keepable q hq := (ho.keepable q (h.client ▸ hq)).mono (Nat.le_of_eq (by rw [h.loop]))

end Ran

/-- The link of a client that asks for the end of its process to be told. -/
def attended (n : ProcessId) (x : FutureId) (l : Link) : Link :=
  { l with
    client := { l.client with process := some n }
    loop := l.loop.whenDone .call x .gone }

theorem orderly_attended (h : l.Orderly) : (l.attended n x).Orderly := by
  have hloop : l.loop.Remembers (l.attended n x).loop := Loop.remembers_whenDone rfl
  refine ⟨hloop.sane h.sane, h.scripts, fun q => ?_, fun t ht => ?_, h.owners, fun m hm => ?_,
    fun m hm => ?_, fun q hq => ?_⟩
  · exact (h.tables q).mono (Nat.le_refl _) rfl rfl hloop.futures
  · exact Nat.lt_of_lt_of_le (h.outcomes t ht) hloop.futures
  · exact Nat.lt_of_lt_of_le (h.exits m hm) hloop.futures
  · exact ⟨(h.told m hm).1, hloop.done _ (h.told m hm).2⟩
  · exact (h.keepable q hq).mono hloop.futures

theorem Ran.carries (h : Ran p x l l') : Carries [] l (l'.attended n x) :=
  .of_tasks (h.loop ▸ Loop.remembers_whenDone rfl) h.tasks fun q r hr => .inl (by
    rw [← h.pending q] at hr
    exact hr)

/-- A client whose process runs is told of its end. -/
theorem Starting.ran (h : l.Starting n s p r x hand) (hr : Ran p x l l') :
    (l'.attended n x).Running n s p r x hand where
  stands := {
    processes := hr.size.trans (congrArg (· + 1) h.stands.processes)
    peer := (congrArg Client.peer hr.client).trans h.stands.peer
    process := rfl
    ready := (congrArg Client.ready hr.client).trans h.stands.ready
    connected := fun q hq =>
      (hr.outlet q fun heq => hq (congrArg some heq.symm)).trans (h.stands.connected q nofun)
    gones := by
      have hgones := Loop.gones_whenDone (k := .gone) h.made.2
      have hzero := h.stands.gones
      rw [if_pos rfl] at hgones
      simp only [attended, hr.loop, hgones]
      simp only at hzero
      omega
    stops := (Prod.mk.inj hr.rest).2.trans h.stands.stops }
  process := by
    have hn : n = l.processes.size := h.stands.processes.symm
    exact ⟨(hr.owner n).trans (if_pos hn), (hr.exit n).trans (if_pos hn)⟩
  made := by
    have hloop : l.loop.Grows (l'.attended n x).loop := by
      simp only [attended, hr.loop]
      exact Loop.grows_whenDone ..
    exact Nat.lt_of_lt_of_le h.made.1 hloop.futures
  listens := by
    refine .inl ?_
    simp only [attended, hr.loop]
    exact Loop.asks_whenDone h.made.2 .gone

/-- How running the process of a start goes: it runs and the client is told of its end, or there is
no process more than before. -/
def Spawned (n s : Nat) (p : PeerId) (r x : FutureId) (hand : List Job) (l : Link)
    (y : Except Failure Step) (l' : Link) : Prop :=
  l'.Orderly ∧ Carries [] l l' ∧
    ((∃ f, y = .error f) ∧ l'.processes.size = n ∧ l'.loop.gones = l.loop.gones ∨
      y = .ok (.done .nothing) ∧ l'.Running n s p r x hand ∧ SameReady l l' ∧
        ∀ f, l.Secured f → l'.Secured f)

/-- **The process of a client** is greeted. -/
theorem running_ends (h : l.Starting n s p r x hand) (ho : l.Orderly) (hran : Ran p x l l') :
    Ends (running n) l' (Spawned n s p r x hand l) := by
  have hx : l'.client.exited = some x := (congrArg Client.exited hran.client).trans h.exited
  have hord : (l'.attended n x).Orderly :=
    orderly_attended (hran.orderly ho h.unspawned h.made.2
      ((ho.tables p).closed (h.stands.connected p nofun)))
  have hsecured (f : FutureId) (hf : l.Secured f) : (l'.attended n x).Secured f :=
    hf.imp hran.carries.provided fun ⟨q, hq, hf⟩ => ⟨q, (congrArg Client.queued hran.client).symm ▸ hq, hf⟩
  refine .change_bind (.read ?_)
  split
  · rename_i hnone
    cases hx.symm.trans hnone
  rename_i x' hx'
  obtain rfl : x = x' := Option.some.inj (hx.symm.trans hx')
  refine .bind ((whenDone_ends x .gone _).mono fun y l₁ h₁ => ?_)
  obtain ⟨rfl, rfl⟩ := h₁
  refine .bind ((startTask_serves .greet rfl (l'.attended n x)).mono fun y l₂ h₂ => ?_)
  obtain ⟨rfl, hs, -⟩ := h₂
  refine .change_bind (.pure ?_)
  have hs' := trans_of Serves hs ((serves_onClient_greeting (some (l'.attended n x).tasks.size)).keeps
    ⟨default, l₂⟩)
  obtain ⟨hord', hb⟩ := hs' hord
  refine ⟨hord', hran.carries.trans hb.toCarries, .inr ⟨rfl, (h.ran hran).mono hb, fun f hf => ?_,
    fun f hf => hb.secured (hsecured f hf)⟩⟩
  have hready : l'.client.ready = some f := (congrArg Client.ready hran.client).trans hf
  exact .inr (hb.client.2.2.1.trans hready)

/-- **The end of a start**: the process runs and is greeted, or could not be run. -/
theorem whenSpawned_spawns (h : l.Starting n s p r x hand) (ho : l.Orderly)
    (y : Except Failure Reply) : Ends (whenSpawned p x y) l (Spawned n s p r x hand l) := by
  have hnever (f : Failure) : Spawned n s p r x hand l (.error f) l :=
    ⟨ho, .refl l, .inl ⟨⟨f, rfl⟩, h.stands.processes, rfl⟩⟩
  refine .bind (.ofExcept ?_)
  cases y with
  | error f => exact hnever f
  | ok _ =>
    refine .bind (.outcome ((spawn_runs h.unspawned.1 x).mono fun y l₁ h₁ => ?_))
    cases y with
    | ok m =>
      obtain ⟨rfl, hran⟩ := h₁
      rw [h.stands.processes]
      exact running_ends h ho hran
    | error f =>
      subst h₁
      dsimp only
      split
      · exact .bind (.throw (hnever f))
      · refine .change_bind (.read (.throw ⟨?_, ?_, .inl ⟨⟨_, rfl⟩, h.stands.processes, rfl⟩⟩))
        · exact ho.of_client ho.keepable
        · exact .of_tasks (.refl _) rfl fun _ _ => .inl

end EditorBridge.Link
