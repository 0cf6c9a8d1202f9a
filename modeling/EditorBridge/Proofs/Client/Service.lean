/-
Nobody waits for a server that is dead.

A client at rest is asked to start, and then anything may happen in any order: messages are
sent, somebody waits for readiness, the client is stopped, the loop does its jobs, time passes,
the server writes what it likes and ends when it likes, and whatever can be cancelled is.  As
long as what the server writes can be understood, its process is in a stage all the time
(`Service.stage`).  Once the process has ended and everybody was called who asked to be, the
stage is the last one, and then nobody waits (`Service.nobodyWaits`) and the client is at rest
again.
-/
import EditorBridge.Proofs.Client.Rounds

namespace EditorBridge

open Act (Ends Gives Keeps Leaves)
open Json (Writable)
open Resumption (All)

namespace Link

variable {l l' : Link} {own W W' : List TaskId} {F F' : List FutureId} {t₀ : TaskId}
  {n : ProcessId} {s : Nat} {o : FutureId}

/-! ### Those who begin to wait -/

/-- Whoever begins to wait for readiness is queued. -/
theorem Alive.await (h : l.Alive own W F []) (hs : l.Serves l')
    (ht : l'.tasks = l.tasks.push { rest := [.await], outcome := o })
    (hj : Job.step l.tasks.size ∈ l'.loop.ready) : l'.Alive own (l.tasks.size :: W) F [] := by
  have h' := h.served hs
  have hrest : l'.rest l.tasks.size = [.await] := by simp [rest, ht]
  refine ⟨h'.orderly, List.forall_mem_cons.2 ⟨by simp [ht], h'.waiters⟩, fun t hown => ?_, h'.given, h'.secured⟩
  refine ⟨(h'.active t hown).tame, fun hmem => ?_⟩
  rcases List.mem_cons.1 hmem with rfl | hmem
  · exact .queued hrest (.inl hj)
  · exact (h'.active t hown).waits hmem

/-- The link once an activity was begun. -/
def begun (k : Resumption) (l : Link) : Link :=
  { l with
    loop := l.loop.create.2.soon (.step l.tasks.size)
    tasks := l.tasks.push { rest := [k], outcome := l.loop.futures.size } }

theorem startTask_begun (k : Resumption) (l : Link) :
    Ends (startTask k) l fun y l' => y = .ok l.tasks.size ∧ l' = l.begun k := fun _ => ⟨rfl, rfl⟩

/-- Activities begin alike, whatever they have to do. -/
theorem begun_rested (k k' : Resumption) (l : Link) :
    (l.begun k).rested l.tasks.size (fun task => { task with rest := [k'] }) = l.begun k' := by
  have htasks : ((l.begun k).tasks.modify l.tasks.size fun task => { task with rest := [k'] }) =
      (l.begun k').tasks := by
    refine Array.ext (by simp [begun]) fun i hi hi' => ?_
    simp only [begun, Array.getElem_modify, Array.getElem_push]
    split
    · rename_i heq
      subst heq
      simp
    · rename_i hne
      have hlt : i < l.tasks.size := by
        simp only [begun, Array.size_push] at hi'
        omega
      simp [hlt]
  rw [rested, htasks]
  rfl

/-- More futures may be given away. -/
theorem Alive.give (h : l.Alive own W F []) (hF : ∀ f ∈ F', f < l.loop.futures.size ∧ l.Secured f) :
    l.Alive own W (F' ++ F) [] where
  orderly := h.orderly
  waiters := h.waiters
  active := h.active
  given := List.forall_mem_append.2 ⟨fun f hf => (hF f hf).1, h.given⟩
  secured := List.forall_mem_append.2 ⟨fun f hf => .inl (hF f hf).2, h.secured⟩

/-- More may begin to wait in any stage, but nobody is given a future before there is an end. -/
theorem Stage.extended (h : l.Stage t₀ n s W F []) (hs : l.Serves l')
    (hF : l.client.peer = none → F = [] → F' = [])
    (ha : ∀ own, l.Alive own W F [] → l'.Alive own W' F' []) : l'.Stage t₀ n s W' F' [] := by
  have hb := (hs h.orderly).2
  cases h with
  | called h hF' hc hp => exact .called (ha _ h) (hF hc.stands.peer hF') (hc.mono hb) (hp.mono hb)
  | starting h hc hp hks => exact .starting (ha _ h) (hc.mono hb) (hp.mono hb) hks
  | running h hc => exact .running (ha _ h) (hc.mono hb)
  | finished h hc => exact .finished (ha _ h) (hc.mono hb)
  | never h hn hg => exact .never (h.served hs) (hb.parts.size.trans hn) (hb.gones ▸ hg)

theorem lt_of_dead (h : l.Dead n) : n < l.processes.size := by
  refine Nat.lt_of_not_le fun hle => ?_
  rw [Dead, Array.getD_eq_getD_getElem?, Array.getElem?_eq_none hle] at h
  cases h

/-- A client whose process ended is connected to nobody. -/
theorem Finished.outlets {p : PeerId} {ready : Option FutureId} (h : l.Finished n s p ready [])
    (ho : l.Orderly) (hd : l.Dead n) (q : PeerId) : l.outlet q = none := by
  by_cases hq : q = p
  · have hnone := (ho.told n hd).1
    rw [h.owner] at hnone
    exact hq ▸ hnone
  · exact h.stands.connected q fun heq => hq (Option.some.inj heq).symm

theorem Finished.tables {p : PeerId} {ready : Option FutureId} (h : l.Finished n s p ready [])
    (ho : l.Orderly) (hd : l.Dead n) (q : PeerId) : l.pending q = [] :=
  (ho.tables q).closed (h.outlets ho hd q)

/-- Without an end no message is taken. -/
theorem requestServer_none {method : String} {params : Value} {target : Wire.Target}
    {token : Option TokenId} (h : l.client.peer = none) :
    Ends (requestServer method params target token) l fun y l' =>
      y = .error (.client .notRunning) ∧ l' = l := by
  unfold requestServer
  refine .read ?_
  rw [if_pos (by simp [sendsNow, h])]
  refine .bind ((clientPeer_none h).mono fun y l' hy => ?_)
  obtain ⟨rfl, hl⟩ := hy
  exact ⟨rfl, hl⟩

theorem notifyServer_none {method : String} {params : Value} (h : l.client.peer = none) :
    Ends (notifyServer method params) l fun y l' =>
      y = .error (.client .notRunning) ∧ l' = l := by
  unfold notifyServer
  refine .read ?_
  rw [if_pos (by simp [sendsNow, h])]
  refine .bind ((clientPeer_none h).mono fun y l' hy => ?_)
  obtain ⟨rfl, hl⟩ := hy
  exact ⟨rfl, hl⟩

end Link

namespace Workbench

open Link (Alive)

variable {w₀ w w' : Workbench} {F : List FutureId} {W : List TaskId}

/-! ### Clients at rest -/

/-- No process runs for the client and nobody is connected, and whoever waited was told. -/
structure Dormant (w : Workbench) : Prop where
  orderly : w.link.Orderly
  peer : w.link.client.peer = none
  process : w.link.client.process = none
  outlets : ∀ p, w.link.outlet p = none
  ready : ∀ r, w.link.client.ready = some r → w.link.loop.done r = true
  gones : w.link.loop.gones = 0
  tame : ∀ t, w.link.Over t ∨ All Resumption.ofClient (w.link.rest t)
  observed : w.onStop.listeners.count .observer = 1

theorem Dormant.stands (h : w.Dormant) : w.link.Called w.link.processes.size w.link.stops
    w.link.client.ready [] where
  stands := ⟨rfl, h.peer, h.process, rfl, fun p _ => h.outlets p, h.gones, rfl⟩
  done := h.ready

/-- **A client at rest** that is asked to start is in the first stage. -/
theorem Dormant.called (h : w.Dormant) :
    Ends (onLink (Link.startTask .start)) w fun _ w' => w'.onStop = w.onStop ∧
      w'.link.Stage w.link.tasks.size w.link.processes.size w.link.stops [] [] [] := by
  have halive : w.link.Alive [] [] [] [] :=
    ⟨h.orderly, nofun, fun t _ => ⟨h.tame t, nofun⟩, nofun, nofun⟩
  have hs : w.link.Serves (w.link.begun .await) :=
    (Link.startTask_serves .await rfl w.link default).2.1
  have hsize : w.link.tasks.size < (w.link.begun .await).tasks.size := by simp [Link.begun]
  refine .on ((Link.startTask_begun .start w.link).mono fun y l hl => ?_)
  obtain ⟨-, rfl⟩ := hl
  rw [← Link.begun_rested .await .start]
  refine ⟨rfl, .called ((halive.served hs).rested fun _ => rfl) rfl (h.stands.mono (hs h.orderly).2).rested ⟨?_, ?_⟩⟩
  · simpa [Link.rested] using hsize
  · rw [Link.rest, Link.getD_rested_self hsize]

/-! ### Runs -/

/-- What may happen while a client is in use. -/
inductive Use where
  /-- A notification is sent. -/
  | notifies (method : String) (params : Value)
  /-- The client is to stop. -/
  | stops (arguments : List String) (timeout : Option Int)
  /-- The loop does so many jobs, or as many as there are. -/
  | works (jobs : Nat)
  /-- The clock goes on, up to a time. -/
  | passes (time : Nat)
  /-- It is decided anew how attempts to run a server process end. -/
  | decides (s : Spawning)
  /-- A server process writes to one of its outputs. -/
  | writes (n : ProcessId) (output : Int) (bytes : Rpc.Bytes)
  /-- A server process ends. -/
  | exits (n : ProcessId) (code : Int)
  /-- A token is cancelled. -/
  | cancels (t : TokenId)
  /-- A future is cancelled. -/
  | drops (f : FutureId)
  /-- An activity is cancelled. -/
  | interrupts (t : TaskId)

namespace Use

def act : Use → Act Workbench Unit
  | notifies method params => onLink (Link.notifyServer method params)
  | stops arguments timeout => do let _ ← onLink (Link.startTask (.stop arguments timeout))
  | works jobs => settle jobs
  | passes time => onLink (Link.onLoop (·.advanceTo time))
  | decides s => onLink (Act.change fun l => { l with spawning := s })
  | writes n output bytes => onLink (Link.receiveOutput n output bytes)
  | exits n code => onLink (Link.die n code)
  | cancels t => onLink (Link.cancelToken t)
  | drops f => do let _ ← onLink (Link.settleOpen f .cancelled)
  | interrupts t => onLink (Link.cancelTask t)

/-- Whatever is sent can be written, and the server is understood. -/
def Allowed (w : Workbench) : Use → Prop
  | notifies _ params => Writable params
  | writes n output bytes => output = 1 → w.link.Understood (w.link.owner n) bytes
  | _ => True

theorem act_stage {t₀ : TaskId} {n : ProcessId} {s : Nat} {x : Use} (hx : x.Allowed w)
    (h : w.link.Stage t₀ n s W F []) (hl : w.onStop.listeners.count .observer = 1) :
    Ends x.act w fun _ w' => w'.onStop = w.onStop ∧ w'.link.Stage t₀ n s W F [] := by
  have hserved {α : Type} {a : Act Link α} (ha : Ends a w.link fun _ => w.link.Serves) :
      Ends (onLink a) w fun _ w' => w'.onStop = w.onStop ∧ w'.link.Stage t₀ n s W F [] :=
    .on (ha.mono fun _ _ hs => ⟨rfl, h.served hs⟩)
  cases x with
  | notifies method params => exact hserved (Link.notifyServer_serves hx w.link)
  | stops arguments timeout =>
    exact .ignore (hserved ((Link.startTask_serves _ rfl w.link).mono fun _ _ h => h.2.1))
  | works jobs => exact settle_stage h hl jobs
  | passes time => exact hserved fun _ => Link.serves_loop (Loop.evolves_advanceTo h.orderly.sane time)
  | decides s =>
    refine hserved (Keeps.ends ?_ w.link)
    exact Link.serves_change (fun _ => rfl) (fun _ => rfl) (fun _ => rfl) (fun _ => rfl) (fun _ => rfl)
      fun _ => rfl
  | writes n output bytes => exact hserved (Link.receiveOutput_serves hx)
  | exits n code => exact hserved ((Link.serves_die n code).ends w.link)
  | cancels t => exact hserved ((Link.serves_cancelToken t).ends w.link)
  | drops f => exact .ignore (hserved ((Link.serves_settleOpen f .cancelled).ends w.link))
  | interrupts t => exact hserved ((Link.serves_cancelTask t).ends w.link)

end Use

/-- **A client in use**, from a start at rest on: the futures that were given for requests since
then, and the activities that wait for readiness. -/
inductive Service (w₀ : Workbench) : List FutureId → List TaskId → Workbench → Prop
  | starts {w : Workbench} (hw : (onLink (Link.startTask .start)).Leaves w₀ w) : Service w₀ [] [] w
  | uses {F : List FutureId} {W : List TaskId} {w w' : Workbench} (h : Service w₀ F W w) (x : Use)
    (hx : x.Allowed w) (hw : x.act.Leaves w w') : Service w₀ F W w'
  /-- A request is sent, and its future given away if it is not refused. -/
  | asks {F : List FutureId} {W : List TaskId} {w w' : Workbench} (h : Service w₀ F W w)
    (method : String) (params : Value) (target : Wire.Target) (token : Option TokenId)
    (hp : Writable params) {y : Except Failure FutureId}
    (hw : (onLink (Link.requestServer method params target token)).Gives w y w') :
    Service w₀ (y.toOption.toList ++ F) W w'
  /-- Somebody begins to wait for readiness. -/
  | awaits {F : List FutureId} {W : List TaskId} {w w' : Workbench} (h : Service w₀ F W w)
    (hw : (onLink (Link.startTask .await)).Leaves w w') : Service w₀ F (w.link.tasks.size :: W) w'

/-- The process of a client in use is in a stage. -/
def Staged (w₀ : Workbench) (F : List FutureId) (W : List TaskId) (w : Workbench) : Prop :=
  w.onStop = w₀.onStop ∧
    w.link.Stage w₀.link.tasks.size w₀.link.processes.size w₀.link.stops W F []

/-- A future that is given for a request is not forgotten. -/
theorem Staged.asked (h : Staged w₀ F W w) {method : String} {params : Value} {target : Wire.Target}
    {token : Option TokenId} (hp : Writable params) :
    Ends (onLink (Link.requestServer method params target token)) w
      fun y w' => Staged w₀ (y.toOption.toList ++ F) W w' := by
  obtain ⟨hstop, hstage⟩ := h
  by_cases hpeer : w.link.client.peer = none
  · refine .on ((Link.requestServer_none hpeer).mono fun y l hl => ?_)
    obtain ⟨rfl, rfl⟩ := hl
    exact ⟨hstop, hstage⟩
  · refine .on ((Link.requestServer_serves hp w.link).mono fun y l hl => ⟨hstop, ?_⟩)
    obtain ⟨hs, hsecured⟩ := hl
    refine hstage.extended hs (fun hnone => absurd hnone hpeer) fun own ha =>
      (ha.served hs).give fun f hf => ?_
    cases y with
    | error e => cases hf
    | ok g =>
      cases List.mem_singleton.1 hf
      exact (hsecured f rfl ha.orderly).symm

namespace Service

/-- **A process is in a stage** all the time. -/
theorem stage (hw₀ : w₀.Dormant) (h : Service w₀ F W w) : Staged w₀ F W w := by
  induction h with
  | starts hw => exact hw.elim hw₀.called
  | uses h x hx hw ih =>
    exact (hw.elim (x.act_stage hx ih.2 (ih.1 ▸ hw₀.observed))).imp (·.trans ih.1) id
  | asks h method params target token hp hw ih => exact hw.elim (ih.asked hp)
  | @awaits F W w w' h hw ih =>
    refine hw.elim (P := Staged w₀ F (w.link.tasks.size :: W)) (.on ?_)
    refine (Link.startTask_serves .await rfl w.link).mono fun y l hl => ?_
    obtain ⟨-, hs, htasks, hj, -⟩ := hl
    exact ⟨ih.1, ih.2.extended hs (fun _ => id) fun own ha => ha.await hs htasks hj⟩

/-- Once everybody was called who asked to be, the end of the process was heard of. -/
theorem finished (hw₀ : w₀.Dormant) (h : Service w₀ F W w)
    (hd : w.link.Dead w₀.link.processes.size) (hc : ∀ k f, .call k f ∉ w.link.loop.ready) :
    w.link.Alive [] W F [] ∧ ∃ p ready,
      w.link.Finished w₀.link.processes.size w₀.link.stops p ready [] := by
  have hlt := Link.lt_of_dead hd
  cases (h.stage hw₀).2 with
  | called ha hF hs => exact absurd hs.stands.processes (Nat.ne_of_gt hlt)
  | starting ha hs => exact absurd hs.stands.processes (Nat.ne_of_gt hlt)
  | never ha hn => exact absurd hn (Nat.ne_of_gt hlt)
  | finished ha hs => exact ⟨ha, _, _, hs⟩
  | running ha hs =>
    -- Whoever is told of the end of the process has been, or would still be in the queue.
    have hdone := (ha.orderly.told _ hd).2
    rw [hs.process.2] at hdone
    rcases hs.listens.resolve_right List.not_mem_nil with hcalls | hj
    · cases hdone.symm.trans (ha.orderly.sane.calls _ _ hcalls).1
    · exact absurd hj (hc _ _)

end Service

/-- **Nobody waits** for the process: everything that somebody waited for is done, nothing is left to
be sent or answered, the end of the process was announced once, and nothing more is sent. -/
structure NobodyWaits (w₀ : Workbench) (F : List FutureId) (W : List TaskId) (w : Workbench) : Prop where
  futures : ∀ f ∈ F, w.link.loop.done f = true
  /-- Somebody who has not had a turn yet does not wait. -/
  waiters : ∀ t ∈ W, w.link.Over t ∨ .step t ∈ w.link.loop.ready
  queue : w.link.client.queued = []
  tables : ∀ p, w.link.pending p = []
  process : w.link.client.process = none
  announced : w.link.stops = w₀.link.stops + 1
  notifications : ∀ method params, Ends (Link.notifyServer method params) w.link fun y l =>
    y = .error (.client .notRunning) ∧ l = w.link
  requests : ∀ method params target token,
    Ends (Link.requestServer method params target token) w.link fun y l =>
      y = .error (.client .notRunning) ∧ l = w.link

namespace Service

/-- **Nobody waits on a dead server.** -/
theorem nobodyWaits (hw₀ : w₀.Dormant) (h : Service w₀ F W w)
    (hd : w.link.Dead w₀.link.processes.size) (hc : ∀ k f, .call k f ∉ w.link.loop.ready) :
    NobodyWaits w₀ F W w := by
  obtain ⟨ha, p, ready, hs⟩ := h.finished hw₀ hd hc
  have htables := hs.tables ha.orderly hd
  have hasked {f : FutureId} {k : Callback} (hf : w.link.loop.done f = true)
      (hk : w.link.loop.Asks f k) : False := by
    rcases hk with hk | hk
    · cases hf.symm.trans (ha.orderly.sane.calls f k hk).1
    · exact hc k f hk
  have howed {f : FutureId} (hf : w.link.Owed f) : w.link.loop.done f = true := by
    rcases hf with hf | ⟨q, r, hr, -⟩
    · exact hf
    · rw [htables q] at hr
      cases hr
  refine ⟨fun f hf => ?_, fun t ht => ?_, hs.queue, htables, hs.stands.process, hs.stands.stops,
    fun _ _ => Link.notifyServer_none hs.stands.peer, fun _ _ _ _ => Link.requestServer_none hs.stands.peer⟩
  · rcases (ha.secured f hf).resolve_right (by simp) with (ho | ⟨g, hg, ho⟩) | ⟨q, hq, -⟩
    · exact howed ho
    · exact (hasked (howed ho) hg).elim
    · rw [hs.queue] at hq
      cases hq
  · cases (ha.active t List.not_mem_nil).waits ht with
    | ended ho => exact .inl ho
    | queued hr hj => exact .inr (hj.resolve_right List.not_mem_nil)
    | @asleep o hr hw ho =>
      have hwakes := hw.resolve_right List.not_mem_nil
      rcases ho with ho | ⟨r, hcopies, hd⟩
      · exact (hasked ho hwakes).elim
      · refine (hasked ?_ (hcopies.resolve_right List.not_mem_nil)).elim
        exact hd.elim id fun hr => hs.done r (hs.stands.ready.symm.trans hr)

/-- The client is at rest again, and may be started once more. -/
theorem dormant (hw₀ : w₀.Dormant) (h : Service w₀ F W w)
    (hd : w.link.Dead w₀.link.processes.size) (hc : ∀ k f, .call k f ∉ w.link.loop.ready) :
    w.Dormant := by
  obtain ⟨ha, p, ready, hs⟩ := h.finished hw₀ hd hc
  exact {
    orderly := ha.orderly
    peer := hs.stands.peer
    process := hs.stands.process
    outlets := hs.outlets ha.orderly hd
    ready := fun r hr => hs.done r (hs.stands.ready.symm.trans hr)
    gones := by simpa using hs.stands.gones
    tame := fun t => (ha.active t List.not_mem_nil).tame
    observed := (h.stage hw₀).1 ▸ hw₀.observed }

end Service

/-! ### A run -/

/-- A bridge with nothing but somebody who takes note of the end of processes. -/
def watched : Workbench := { onStop := ⟨[.observer]⟩ }

theorem dormant_watched : watched.Dormant where
  orderly := {
    sane := ⟨nofun, fun f k ⟨fut, hfut, _⟩ => by simp [watched] at hfut, nofun, fun _ _ _ => nofun⟩
    scripts := rfl
    tables := fun p => ⟨.nil, nofun, nofun, fun _ => rfl⟩
    outcomes := fun t ht => absurd ht (Nat.not_lt_zero t)
    owners := fun n hn => absurd hn (Nat.not_lt_zero n)
    exits := fun n hn => absurd hn (Nat.not_lt_zero n)
    told := fun n hn => absurd (Link.lt_of_dead hn) (Nat.not_lt_zero n)
    keepable := nofun }
  peer := rfl
  process := rfl
  outlets _ := rfl
  ready := nofun
  gones := rfl
  tame t := .inr nofun
  observed := rfl

/-- What is left by an act when nothing is recorded. -/
def thereafter {α : Type} (a : Act Workbench α) (w : Workbench) : Workbench := (a ⟨{}, w⟩).2.state

theorem leaves_thereafter {α : Type} (a : Act Workbench α) (w : Workbench) :
    a.Leaves w (thereafter a w) := ⟨{}, rfl⟩

theorem gives_thereafter {α : Type} (a : Act Workbench α) (w : Workbench) :
    a.Gives w (a ⟨{}, w⟩).1 (thereafter a w) := ⟨{}, rfl, rfl⟩

/-- A server is run and asked something, and somebody waits for it, but the greeting is cut short and
then the server ends. -/
theorem nobodyWaits_deserted : ∃ F W w, Service watched F W w ∧
    w.link.Dead watched.link.processes.size ∧ (F.length, W.length, w.link.stops) = (1, 1, 1) ∧
    NobodyWaits watched F W w := by
  have hrun := Service.starts (leaves_thereafter (onLink (Link.startTask .start)) watched)
  have hrun := hrun.uses (.works 1) trivial (leaves_thereafter _ _)
  have hrun := hrun.asks "test" .null .unchanged none .null (gives_thereafter _ _)
  have hrun := hrun.awaits (leaves_thereafter _ _)
  have hrun := hrun.uses (.works 2) trivial (leaves_thereafter _ _)
  have hrun := hrun.uses (.interrupts 2) trivial (leaves_thereafter _ _)
  have hrun := hrun.uses (.exits 0 1) trivial (leaves_thereafter _ _)
  have hrun := hrun.uses (.works 20) trivial (leaves_thereafter _ _)
  generalize hw : thereafter (Use.works 20).act _ = w at hrun
  have hend : (w.link.loop.ready.length, (w.link.processes.getD 0 default).code, w.link.stops) =
      (0, some 1, 1) := by
    rw [← hw]
    decide +kernel
  obtain ⟨hready, hcode, hstops⟩ : _ ∧ _ ∧ _ := by simpa only [Prod.mk.injEq] using hend
  have hdead : w.link.Dead watched.link.processes.size := by
    show Option.isSome (w.link.processes.getD 0 default).code = true
    rw [hcode]
    rfl
  refine ⟨_, _, w, hrun, hdead, ?_, hrun.nobodyWaits dormant_watched hdead fun k f hj => ?_⟩
  · rw [hstops]
    decide +kernel
  · rw [List.length_eq_zero_iff.1 hready] at hj
    cases hj

end Workbench

end EditorBridge
