/-
A start, from its beginning to the process.

A start makes a new end and an empty queue, so from then on nobody was told anything: the
tracker must not know anything either, and `Begins` says that this is all that it takes.
The activity then waits for the process.  When it is there it belongs to the end that the
start made, and nothing was told to it; if it cannot be run, there is no end any more.
-/
import EditorBridge.Proofs.Link.Plain
import EditorBridge.Proofs.Server.Sound

namespace EditorBridge.Link

open Act (Keeps Ends Reads Steps)

variable {c : Option Turn} {u : Turn} {t : Tracker} {l l' : Link} {p : PeerId}

/-! ### The beginning -/

/-- A start was begun in a turn, and all is as it has to be if the tracker knows nothing. -/
def Begins (u : Turn) (p : PeerId) (l l' : Link) : Prop :=
  ∀ t, Settled (some u) t l → l.spawned.length < l'.spawned.length ∧
    (t.known = [] → Settled (some { u with starts := p :: u.starts }) t l')

theorem Begins.after (p : PeerId) (l l₁ l₂ : Link) (h : Steady (some u) (some u) l l₁)
    (h' : Begins u p l₁ l₂) : Begins u p l l₂ := by
  intro t ht
  obtain ⟨ht, hs, -⟩ := h t ht
  exact hs ▸ h' t ht

/-- The link after the beginning of a start. -/
def starting (l : Link) (ready exited : FutureId) (lo : Loop Reply Callback Job) : Link :=
  { l with
    loop := lo
    peers := l.peers.push Peer.ofClient
    client := { l.client with
      greeted := .nothing, initialized := false, queued := []
      ready := some ready, exited := some exited, peer := some l.peers.size }
    spawned := l.spawned ++ [l.client.executable] }

theorem outlet_push (l : Link) (x : Peer) (hx : x.outlet = none) (p : PeerId) :
    ((l.peers.push x).getD p default).outlet = l.outlet p := by
  unfold outlet
  by_cases hp : p < l.peers.size
  · simp [Array.getElem?_push, Nat.ne_of_lt hp]
  · by_cases heq : p = l.peers.size
    · subst heq
      simp [hx]
      rfl
    · simp [Array.getElem?_push, heq, hp]

theorem settled_starting {ready exited : FutureId} {lo : Loop Reply Callback Job}
    (hlo : l.loop.Grows lo) (h : Settled (some u) t l) (ht : t.known = []) :
    Settled (some { u with starts := l.peers.size :: u.starts }) t
      (l.starting ready exited lo) := by
  have hg : l.Grows (l.starting ready exited lo) := .of_loop hlo rfl
  have houtlet (p : PeerId) : (l.starting ready exited lo).outlet p = l.outlet p :=
    outlet_push l Peer.ofClient rfl p
  have hnone : l.outlet l.peers.size = none := by simp [outlet]; rfl
  constructor
  constructor
  case recording => exact h.recording
  case listening => exact h.listening
  case obeyed =>
    intro e
    cases e with
    | queue => exact openBeforeUse_nil
    | recorder => exact h.obeyed .recorder
    | frames n => exact h.obeyed (.frames n)
    | nobody => exact openBeforeUse_nil
  case covers =>
    intro _ uri huri
    simp [ht] at huri
  case sendable => exact fun q hq => absurd hq (by simp [starting])
  case flushed => exact fun _ => rfl
  case silent =>
    rintro - p ⟨⟩ o ho
    rw [houtlet, hnone] at ho
    cases ho
  case fresh => exact h.fresh
  case outlets =>
    intro p o ho
    rw [houtlet] at ho
    exact h.outlets p o ho
  case owners =>
    intro n hn
    exact Nat.lt_of_lt_of_le (h.owners n hn) (by simp [starting])
  case served => exact nofun
  case tasked =>
    have hends : l.peers.size < (l.starting ready exited lo).peers.size := by simp [starting]
    refine (h.tasked.grows hg (Nat.le_of_lt hends) rfl fun n _ => rfl).begun hends
      (fun n hn => Nat.ne_of_lt (h.owners n hn)) fun t ht hp => ?_
    rcases h.tasked.starts_grows hg ht with hnil | ⟨hl, heq⟩
    · exact absurd hp (by simp [show (l.starting ready exited lo).starts (some u) t = [] from hnil])
    · have hp' : l.peers.size ∈ l.starts (some u) t := heq ▸ hp
      exact Nat.lt_irrefl _ (h.tasked.unspawned t hl _ hp').1
  case unscripted => exact h.unscripted
  case forgotten => exact nofun

/-- **A start** is begun, or refused while a process is there. -/
theorem steps_start (u : Turn) : Steps (Steady (some u) (some u)) (Begins u) start := by
  refine fun l => .read ?_
  split
  · exact .bind (.throw (.plain (.refl l) nofun))
  · refine .bind (newFuture_ends.mono fun r l₁ h => ?_)
    obtain ⟨rfl, rfl⟩ := h
    refine .bind (newFuture_ends.mono fun r l₂ h => ?_)
    obtain ⟨rfl, rfl⟩ := h
    refine .bind (.read (.change_bind (.pure (.change_bind (.read (.bind (.log ?_)))))))
    refine .change_bind (.pure (.start (p := l.peers.size) rfl Resumption.All.nil fun t h => ⟨by simp, ?_⟩))
    exact fun ht => settled_starting (l.loop.grows_create.trans (Loop.grows_create _)) h ht

/-! ### Stopping first -/

theorem steps_tracedStart (u : Turn) :
    Steps (Steady (some u) (some u)) (Begins u) tracedStart :=
  .traced Begins.after (steps_start u)

theorem steps_restarted (u : Turn) (r : Except Failure Reply) :
    Steps (Steady (some u) (some u)) (Begins u) (restarted r) :=
  .bind Begins.after fun _ => steps_tracedStart u

theorem steps_restart (u : Turn) : Steps (Steady (some u) (some u)) (Begins u) restart :=
  .calling Begins.after .of_plain (steps_restarted u)

/-- Starting whoever is there begins a start only if it is a client. -/
theorem steps_connect (u : Turn) : Steps (Steady (some u) (some u)) (Begins u) connect := by
  refine .bind Begins.after fun l => ?_
  split
  · refine .bind Begins.after fun _ => .bind Begins.after fun r => ?_
    split <;> exact .of_plain
  · exact steps_tracedStart u

/-! ### The end -/

theorem Settled.dropped {ps : List PeerId}
    (h : Settled (some { u with starts := p :: ps }) t l) :
    Settled (some { u with starts := ps }) t l :=
  ⟨{ h.toSound with tasked := h.tasked.dropped }, h.forgotten⟩


theorem Settled.unspawned {ps : List PeerId}
    (h : Settled (some { u with starts := p :: ps }) t l) : l.Unspawned p := by
  refine h.tasked.unspawned _ h.tasked.lives_turn p ?_
  rw [starts_turn]
  exact List.mem_cons_self

/-- A start has failed: there is no end any more, whatever the tracker knows. -/
theorem Settled.failed {exited : Option FutureId} (h : Settled c t l) (hends : 0 < l.peers.size) :
    Settled c t { l with client := { l.client with peer := none, ready := none, exited } } := by
  have hear : ear { l with client := { l.client with peer := none, ready := none, exited } } =
      .nobody := ear_eq h.recording
  have hheard : heard { l with client := { l.client with peer := none, ready := none, exited } } =
      l.heard := heard_congr rfl rfl rfl
  constructor
  · exact { h.toSound with
      obeyed := hheard ▸ h.obeyed
      covers := fun he => absurd hear he
      silent := fun _ _ hp => nomatch hp
      served := fun _ _ hp => nomatch hp
      tasked := h.tasked.grows (.of_loop (.refl _) rfl) (Nat.le_refl _) rfl fun _ _ => rfl }
  · exact fun _ hr => absurd (hr rfl) (Nat.ne_of_gt hends)

/-- A process runs for the end of a start, which is over with that. -/
theorem Settled.withProcess {ps : List PeerId} {exited : FutureId}
    (h : Settled (some { u with starts := p :: ps }) t l) :
    Settled (some { u with starts := ps }) t (l.withProcess p exited) := by
  have hsize : (l.withProcess p exited).processes.size = l.processes.size + 1 := by
    simp [Link.withProcess]
  have hold {n : ProcessId} (hn : n < l.processes.size) :
      n < (l.withProcess p exited).processes.size ∧
        (l.withProcess p exited).owner n = l.owner n := by
    rw [owner_withProcess, if_neg (Nat.ne_of_lt hn)]
    exact ⟨hsize ▸ Nat.lt_succ_of_lt hn, rfl⟩
  have hheard : (l.withProcess p exited).heard = l.heard := heard_congr rfl rfl rfl
  constructor
  · refine { h.toSound with
      listening := ?_
      obeyed := hheard ▸ h.obeyed
      fresh := ?_
      outlets := ?_
      owners := ?_
      served := ?_
      tasked := ?_ }
    · intro n
      by_cases hn : n = l.processes.size
      · simp [Link.withProcess, hn]
      · simpa [Link.withProcess, Array.getElem?_push, hn] using h.listening n
    · rw [hheard, hsize]
      exact fun n hn => h.fresh n (Nat.le_of_succ_le hn)
    · intro q o ho
      obtain ⟨n, hn, hon, hq⟩ := h.outlets q o ho
      exact ⟨n, (hold hn).1, hon, (hold hn).2.trans hq⟩
    · rw [hsize]
      intro n hn
      rw [owner_withProcess]
      split
      · exact h.unspawned.1
      · rename_i hne
        exact h.owners n (Nat.lt_of_le_of_ne (Nat.lt_succ_iff.1 hn) hne)
    · intro hi q hq
      obtain ⟨n, hn, hq⟩ := h.served hi q hq
      exact ⟨n, (hold hn).1, (hold hn).2.trans hq⟩
    · exact h.tasked.ran exited
  · exact h.forgotten

/-- The link once an end writes to a process. -/
def withOutlet (l : Link) (p : PeerId) (n : ProcessId) : Link :=
  { l with peers := l.peers.modify p fun e => { e with outlet := some { process := some n } } }

theorem outlet_withOutlet (hp : p < l.peers.size) (n : ProcessId) (q : PeerId) :
    (l.withOutlet p n).outlet q = if q = p then some { process := some n } else l.outlet q := by
  by_cases hq : q = p
  · subst hq
    simp [outlet, withOutlet, hp, Array.getElem_modify]
  · simp [outlet, withOutlet, Array.getElem?_modify, hq, Ne.symm hq]

/-- The end of a start writes to its process, which has heard nothing yet. -/
theorem Settled.withOutlet {n : ProcessId} (h : Settled c t l) (hn : n < l.processes.size)
    (hp : l.owner n = p) (hheard : l.heard (.frames (some n)) = [])
    (hi : p ∈ l.client.peer → l.client.initialized = false) :
    Settled c t (l.withOutlet p n) := by
  have houtlet := outlet_withOutlet (hp ▸ h.owners n hn) n
  have hheard' : (l.withOutlet p n).heard = l.heard := heard_congr rfl rfl rfl
  have hsize : (l.withOutlet p n).peers.size = l.peers.size := by simp [Link.withOutlet]
  have hear : (l.withOutlet p n).ear = l.ear := by
    rw [ear_eq h.recording, ear_eq (l := l.withOutlet p n) h.recording]
    rw [show (l.withOutlet p n).client = l.client from rfl]
    cases hq : l.client.peer with
    | none => rfl
    | some q =>
      by_cases hqp : q = p
      · subst hqp
        simp [hi hq]
      · simp [houtlet, hqp]
  constructor
  · refine { h.toSound with
      obeyed := hheard' ▸ h.obeyed
      covers := hear ▸ hheard' ▸ h.covers
      silent := ?_
      fresh := hheard' ▸ h.fresh
      outlets := ?_
      owners := fun m hm => hsize ▸ h.owners m hm
      tasked := ?_ }
    · intro hi' q hq o ho
      rw [hheard']
      rw [houtlet] at ho
      split at ho
      · cases ho
        exact hheard
      · exact h.silent hi' q hq o ho
    · intro q o ho
      rw [houtlet] at ho
      split at ho
      · rename_i hq
        cases ho
        exact ⟨n, hn, rfl, hp.trans hq.symm⟩
      · exact h.outlets q o ho
    · exact h.tasked.grows (.of_loop (.refl _) rfl) (Nat.le_of_eq hsize.symm) rfl fun _ _ => rfl
  · rw [hsize]
    exact h.forgotten

/-- Running a server process for the end of a start. -/
theorem spawn_ends {ps : List PeerId} {exited : FutureId}
    (h : Settled (some { u with starts := p :: ps }) t l) :
    Ends (spawn p exited) l fun r l' => match r with
      | .ok _ => Settled (some { u with starts := ps }) t l' ∧ l'.spawned = l.spawned ∧
        l'.client = l.client
      | .error _ => l' = l := by
  have hrun : Settled (some { u with starts := ps }) t (l.withProcess p exited) := h.withProcess
  have hconnected : Settled (some { u with starts := ps }) t
      ((l.withProcess p exited).withOutlet p l.processes.size) := by
    refine hrun.withOutlet (by simp [withProcess]) (by simp [owner_withProcess]) ?_ fun hp => ?_
    · exact h.fresh _ (Nat.le_refl _)
    · -- A server that is ready would have a process already.
      cases hi : l.client.initialized with
      | false => exact hi
      | true =>
        obtain ⟨n, hn, hq⟩ := h.served hi p hp
        exact absurd hq (h.unspawned.2 n hn)
  refine .read ?_
  dsimp only
  split
  · exact .bind (.throw rfl)
  · refine .change_bind ?_
    split
    · exact .change_bind (.pure ⟨hconnected, rfl, rfl⟩)
    · exact .pure ⟨hrun, rfl, rfl⟩

/-- **The end of a start**: a process runs, or there is no end any more. -/
theorem whenSpawned_ends {ps : List PeerId} (exited : FutureId) (r : Except Failure Reply) :
    Ends (whenSpawned p exited r) l fun _ =>
      Steady (some { u with starts := p :: ps }) (some { u with starts := ps }) l := by
  refine Steady.ends fun t h => .bind (.ofExcept ?_)
  cases r with
  | error f => exact ⟨h.dropped, rfl, id⟩
  | ok _ =>
    refine .bind (.outcome ((spawn_ends h).mono fun r l₁ h₁ => ?_))
    cases r with
    | ok n =>
      obtain ⟨h₁, hs, hc⟩ := h₁
      refine ((quiet_running n).ends l₁).mono fun _ l₂ h₂ => ?_
      exact ⟨h₁.told h₂ (.refl t), h₂.spawned.trans (congrArg List.length hs),
        fun hp => h₂.peer.trans (hc ▸ hp)⟩
    | error f =>
      subst h₁
      dsimp only
      split
      · exact .bind (.throw ⟨h.dropped, rfl, id⟩)
      · refine .change_bind (.read (.throw ⟨h.dropped.failed ?_, rfl, fun _ => rfl⟩))
        exact Nat.lt_of_le_of_lt (Nat.zero_le _) h.unspawned.1

end EditorBridge.Link
