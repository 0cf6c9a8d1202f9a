/-
Those who are stranded by a start that fails.

A start gives the client an end in its first turn, and runs the process in its second one.  What
is sent in between has to wait.  If the process cannot be run the end is taken back, and so are
the futures that tell of readiness and of the end of the process, but not what waits: the
messages stay in the queue, and the futures of the requests among them stay open
(`start_strands`).  A process that ends has the queue worked off, so that whoever waits is told;
a start that fails has not, and the next start empties the queue without a word.

Of everything else a failed start leaves nothing: the client refuses what is sent to it, nobody
can wait for it to be ready, and it can be started again.
-/
import EditorBridge.Proofs.Handshake.Talking

namespace EditorBridge

open Act (Ends Gives)
open Resumption (All)

/-- Something that is sent to a server. -/
inductive Sending where
  | notification (method : String) (params : Value)
  | request (method : String) (params : Value) (target : Wire.Target) (token : Option TokenId)

/-- What was sent when a message came to wait. -/
def Queued.sending : Queued → Sending
  | notification method params => .notification method params
  | request method params target token _ => .request method params target token

namespace Link

variable {l l' l'' : Link} {qs qs' : List Queued} {p : PeerId} {x : FutureId}

/-- Sends something; a request is answered with its future. -/
def send : Sending → Act Link (Option FutureId)
  | .notification method params => do
    notifyServer method params
    return none
  | .request method params target token =>
    return some (← requestServer method params target token)

/-! ### Sending while the process is not there yet -/

/-- Messages have come to wait.  Their futures are new and open, and nothing else has changed. -/
structure Waited (qs : List Queued) (l l' : Link) : Prop where
  client : l'.client = { l.client with queued := l.client.queued ++ qs }
  spawning : l'.spawning = l.spawning
  size : l.loop.futures.size ≤ l'.loop.futures.size
  ending : ∀ f, l'.loop.ending? f = l.loop.ending? f
  opened : ∀ f ∈ qs.filterMap Queued.result?,
    f < l'.loop.futures.size ∧ l'.loop.ending? f = none

theorem Waited.refl (l : Link) : Waited [] l l :=
  ⟨by rw [List.append_nil], rfl, Nat.le_refl _, fun _ => rfl, List.forall_mem_nil _⟩

theorem Waited.trans (h : Waited qs l l') (h' : Waited qs' l' l'') : Waited (qs ++ qs') l l'' := by
  refine ⟨?_, h'.spawning.trans h.spawning, Nat.le_trans h.size h'.size,
    fun f => (h'.ending f).trans (h.ending f), fun f hf => ?_⟩
  · rw [h'.client, h.client, List.append_assoc]
  · rw [List.filterMap_append] at hf
    rcases List.mem_append.1 hf with hf | hf
    · obtain ⟨hlt, hopen⟩ := h.opened f hf
      exact ⟨Nat.lt_of_lt_of_le hlt h'.size, (h'.ending f).trans hopen⟩
    · exact h'.opened f hf

/-- **What is sent to a client with an end but without a server** waits. -/
theorem send_waits (hp : l.client.peer ≠ none) (hi : l.client.initialized = false) (s : Sending) :
    Ends (send s) l fun y l' => ∃ q : Queued, y = .ok q.result? ∧ q.sending = s ∧
      Waited [q] l l' := by
  have hlater : ¬sendsNow l.client = true := by simp [sendsNow, hi, hp]
  cases s with
  | notification method params =>
    unfold send notifyServer
    refine .bind (.read ?_)
    rw [if_neg hlater]
    refine .change (.pure ⟨.notification method params, rfl, rfl, rfl, rfl, Nat.le_refl _,
      fun _ => rfl, ?_⟩)
    exact List.forall_mem_nil _
  | request method params target token =>
    unfold send requestServer
    refine .bind (.read ?_)
    rw [if_neg hlater]
    refine .bind (newFuture_ends.mono fun y l₁ h => ?_)
    obtain ⟨rfl, rfl⟩ := h
    have hnew : l.loop.futures.size < l.loop.create.2.futures.size := by simp [Loop.create]
    refine .change_bind (.pure (.pure ⟨.request method params target token l.loop.futures.size, rfl,
      rfl, rfl, rfl, Nat.le_of_lt hnew, Loop.ending?_create l.loop, ?_⟩))
    refine List.forall_mem_singleton.2 ⟨hnew, ?_⟩
    rw [Loop.ending?_create]
    simp [Loop.ending?]

/-- Everything that is sent waits, in the order in which it was sent. -/
theorem sends_wait (hp : l.client.peer ≠ none) (hi : l.client.initialized = false)
    (ss : List Sending) : Ends (ss.mapM send) l fun y l' => ∃ qs : List Queued,
      y = .ok (qs.map Queued.result?) ∧ qs.map Queued.sending = ss ∧ Waited qs l l' := by
  induction ss generalizing l with
  | nil =>
    rw [List.mapM_nil]
    exact .pure ⟨[], rfl, rfl, .refl l⟩
  | cons s ss ih =>
    rw [List.mapM_cons]
    refine .bind ((send_waits hp hi s).mono fun y l₁ h => ?_)
    obtain ⟨q, rfl, rfl, hq⟩ := h
    have hp₁ : l₁.client.peer ≠ none := by rwa [hq.client]
    have hi₁ : l₁.client.initialized = false := by rwa [hq.client]
    refine .bind ((ih hp₁ hi₁).mono fun y l₂ h => ?_)
    obtain ⟨qs, rfl, rfl, hqs⟩ := h
    exact .pure ⟨q :: qs, rfl, rfl, hq.trans hqs⟩

/-! ### The process cannot be run -/

/-- A client that is not started refuses what is sent, and nobody can wait for it to be ready. -/
structure NotStarted (l : Link) : Prop where
  sends : ∀ s, Ends (send s) l fun y l' => y = .error (.client .notRunning) ∧ l' = l
  waits : Ends ready l fun y l' => y = .error (.client .notStarted) ∧ l' = l

theorem notStarted (hp : l.client.peer = none) (hr : l.client.ready = none) : NotStarted l := by
  refine ⟨fun s => ?_, .read ?_⟩
  · cases s with
    | notification method params =>
      refine .bind ((notifyServer_none hp).mono fun y l₁ h => ?_)
      obtain ⟨rfl, rfl⟩ := h
      exact ⟨rfl, rfl⟩
    | request method params target token =>
      refine .bind ((requestServer_none hp).mono fun y l₁ h => ?_)
      obtain ⟨rfl, rfl⟩ := h
      exact ⟨rfl, rfl⟩
  · rw [hr]
    exact .throw ⟨rfl, rfl⟩

/-- The second turn of a start that fails takes back the end, and nothing else. -/
theorem whenSpawned_fails {fail : String → Failure} (hs : l.spawning = .fails fail)
    (hf : (fail l.client.executable.command).isSystem = true) (p : PeerId) (x : FutureId)
    (reply : Reply) : Ends (whenSpawned p x (.ok reply)) l fun y l' => l' = l.unstarted ∧
      y = .error (.client (.cannotStart l.client.executable.command
        (fail l.client.executable.command).message)) := by
  have hspawn : Ends (spawn p x) l fun y l' =>
      y = .error (fail l.client.executable.command) ∧ l' = l := by
    refine .read ?_
    dsimp only
    rw [hs]
    exact .bind (.throw ⟨rfl, rfl⟩)
  refine .bind (.ofExcept (.bind (.outcome (hspawn.mono fun y l₁ h => ?_))))
  obtain ⟨rfl, rfl⟩ := h
  dsimp only
  rw [hf]
  exact .change_bind (.read (.throw ⟨rfl, rfl⟩))

/-- What a start that failed has left: a client as it was, but that it knows nothing of a server
any more and has what was sent meanwhile in its queue, and the futures of that. -/
structure Stranded (c : Client) (qs : List Queued) (l : Link) : Prop extends NotStarted l where
  client : l.client = { c with
    greeted := .nothing, initialized := false, queued := qs
    peer := none, ready := none, exited := none }
  opened : ∀ f ∈ qs.filterMap Queued.result?,
    f < l.loop.futures.size ∧ l.loop.ending? f = none

theorem stranded_unstarted (h : Waited qs l.started l') : Stranded l.client qs l'.unstarted := by
  refine { notStarted rfl rfl with client := ?_, opened := h.opened }
  rw [unstarted, h.client]
  rfl

end Link

namespace Workbench

open Link (Stranded Waited)

variable {w : Workbench} {c : Client} {qs : List Queued}

/-! ### The turns of a start -/

/-- The first turn of a start gives the client an end, and empties the queue. -/
theorem start_begins (hp : w.link.client.process = none) :
    Ends (resumeAll [.start] (.ok .nothing)) w fun y w' => w'.link = w.link.started ∧
      ∃ p x ks, All Resumption.isTraced ks ∧ y = .ok (.turn (.spawned p x :: ks)) := by
  refine resumeAll_last (a := Link.tracedStart) rfl
    ((Link.tracedStart_started hp).mono fun y l h w' hw' => ?_)
  obtain ⟨rfl, ks, hks, rfl⟩ := h
  exact ⟨hw', _, _, ks, hks, rfl⟩

/-- A client that was left behind can be started again.  Then nothing waits any more, but those who
were stranded are not told. -/
theorem start_again (h : Stranded c qs w.link) (hp : c.process = none) :
    Ends (resumeAll [.start] (.ok .nothing)) w fun y w' => (∃ rest, y = .ok (.turn rest)) ∧
      w'.link.client.queued = [] ∧
      ∀ f ∈ qs.filterMap Queued.result?, w'.link.loop.ending? f = none := by
  have hp : w.link.client.process = none := by rwa [h.client]
  refine (start_begins hp).mono fun y w' hy => ?_
  obtain ⟨hl, p, x, ks, -, rfl⟩ := hy
  rw [hl]
  refine ⟨⟨_, rfl⟩, rfl, fun f hf => ?_⟩
  exact ((Loop.ending?_create _ f).trans (Loop.ending?_create _ f)).trans (h.opened f hf).2

/-- **A start that fails strands those who sent something meanwhile.**  Of the start itself nothing
is left, but their messages stay in the queue and their futures stay open, and the next start
forgets them. -/
theorem start_strands {fail : String → Failure} (hp : w.link.client.process = none)
    (hs : w.link.spawning = .fails fail)
    (hf : (fail w.link.client.executable.command).isSystem = true) (ss : List Sending) :
    Ends (resumeAll [.start] (.ok .nothing)) w fun y w₁ => ∃ rest, y = .ok (.turn rest) ∧
      Ends (onLink (ss.mapM Link.send)) w₁ fun y w₂ => ∃ qs : List Queued,
        y = .ok (qs.map Queued.result?) ∧ qs.map Queued.sending = ss ∧
        Ends (resumeAll rest (.ok .nothing)) w₂ fun y w₃ =>
          y = .error (.client (.cannotStart w.link.client.executable.command
            (fail w.link.client.executable.command).message)) ∧
          Stranded w.link.client qs w₃.link ∧
          Ends (resumeAll [.start] (.ok .nothing)) w₃ fun y w₄ => (∃ rest, y = .ok (.turn rest)) ∧
            w₄.link.client.queued = [] ∧
            ∀ f ∈ qs.filterMap Queued.result?, w₄.link.loop.ending? f = none := by
  refine (start_begins hp).mono fun y w₁ h => ?_
  obtain ⟨hl₁, p, x, ks, hks, rfl⟩ := h
  refine ⟨_, rfl, .on ?_⟩
  rw [hl₁]
  have hpeer : w.link.started.client.peer ≠ none := nofun
  refine (Link.sends_wait hpeer rfl ss).mono fun y l₂ h => ?_
  obtain ⟨qs, rfl, rfl, hqs⟩ := h
  refine ⟨qs, rfl, rfl, ?_⟩
  have hcommand : l₂.client.executable = w.link.client.executable := by
    rw [hqs.client]
    rfl
  have hs₂ : l₂.spawning = .fails fail := hqs.spawning.trans hs
  refine resumeAll_onLink (a := Link.whenSpawned p x (.ok .nothing)) rfl
    ((Link.whenSpawned_fails hs₂ (hcommand ▸ hf) p x .nothing).mono fun y l₃ h w₃ hw₃ => ?_)
  obtain ⟨rfl, rfl⟩ := h
  refine (resumeAll_traced hks _ w₃).mono fun y w₄ h => ?_
  obtain ⟨rfl, rfl⟩ := h
  have hstranded : Stranded w.link.client qs w₄.link := hw₃ ▸ Link.stranded_unstarted hqs
  refine ⟨?_, hstranded, start_again hstranded hp⟩
  rw [← hcommand]
  rfl

/-- A client whose server cannot be found. -/
private def serverless : Workbench := { link := { spawning := .fails fun c => .system (.missing c) } }

/-- Something is said, and something is asked. -/
private def saidAndAsked : List Sending :=
  [.notification "said" .null, .request "asked" .null .unchanged none]

/-- Whoever asks while the server is looked for is stranded. -/
theorem start_strands_serverless : serverless.link.client.process = none ∧
    Ends (resumeAll [.start] (.ok .nothing)) serverless fun y w₁ => ∃ rest, y = .ok (.turn rest) ∧
      Ends (onLink (saidAndAsked.mapM Link.send)) w₁ fun _ w₂ =>
        Ends (resumeAll rest (.ok .nothing)) w₂ fun _ w₃ => ∃ f,
          f ∈ w₃.link.client.queued.filterMap Queued.result? ∧ w₃.link.loop.ending? f = none := by
  refine ⟨rfl, (start_strands (w := serverless) rfl rfl (by decide +kernel) saidAndAsked).mono
    fun y w₁ h => ?_⟩
  obtain ⟨rest, rfl, h⟩ := h
  refine ⟨rest, rfl, h.mono fun y w₂ h => ?_⟩
  obtain ⟨qs, rfl, hqs, h⟩ := h
  refine h.mono fun y w₃ h => ?_
  obtain ⟨-, h, -⟩ := h
  have hasked : .request "asked" .null .unchanged none ∈ qs.map Queued.sending := by
    rw [hqs]
    exact List.mem_cons_of_mem _ List.mem_cons_self
  obtain ⟨q, hq, hasked⟩ := List.mem_map.1 hasked
  cases q with
  | notification => cases hasked
  | request _ _ _ _ f =>
    have hf : f ∈ qs.filterMap Queued.result? := List.mem_filterMap.2 ⟨_, hq, rfl⟩
    exact ⟨f, by rwa [h.client], (h.opened f hf).2⟩

/-- **A failed start leaves something behind**: a message that waits, and a future that is open. -/
theorem not_start_leavesNothing : ∃ rest w₁ fs w₂ e w₃ f,
    Gives (resumeAll [.start] (.ok .nothing)) serverless (.ok (.turn rest)) w₁ ∧
      Gives (onLink (saidAndAsked.mapM Link.send)) w₁ (.ok fs) w₂ ∧
      Gives (resumeAll rest (.ok .nothing)) w₂ (.error e) w₃ ∧ some f ∈ fs ∧
      w₃.link.loop.ending? f = none ∧ w₃.link.client.queued ≠ [] := by
  refine ⟨_, _, _, _, _, _, 2, ⟨{}, rfl, rfl⟩, ⟨{}, rfl, rfl⟩, ⟨{}, rfl, rfl⟩, ?_, ?_, ?_⟩
  · decide +kernel
  · rfl
  · exact nofun

end Workbench

end EditorBridge
