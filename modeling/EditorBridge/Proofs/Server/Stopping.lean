/-
The end of a server process.

A process that is gone takes its connection with it, and from then on nobody hears what is
sent.  Once the client hears of it, it gives up its end and drops what waits.  None of this
fails, and so those who listen are told, which is when the tracker forgets what it knows.
In between it knows too much, but only of a server that is not there: what holds then is
`Sound` without the rest of `Settled`.
-/
import EditorBridge.Proofs.Server.Greeting

namespace EditorBridge.Link

open Act (Keeps Ends Reads)

variable {c : Option Turn} {t : Tracker} {l l' : Link} {p : PeerId}

/-! ### Losing the connection -/

/-- The link once an end writes to nobody and waits for nothing. -/
def disconnected (l : Link) (p : PeerId) : Link :=
  { l with peers := l.peers.modify p fun e => { e with outlet := none, pending := [] } }

theorem outlet_disconnected (l : Link) (p q : PeerId) :
    (l.disconnected p).outlet q = if q = p then none else l.outlet q := by
  unfold outlet disconnected
  by_cases hq : q = p
  · subst hq
    by_cases hlt : q < l.peers.size
    · simp [hlt, Array.getElem_modify]
    · simp [hlt]
      rfl
  · simp [Array.getElem?_modify, hq, Ne.symm hq]

theorem ear_disconnected (h : l.recording = false) (p : PeerId) :
    (l.disconnected p).ear = l.ear ∨ (l.disconnected p).ear = .nobody := by
  rw [ear_eq h, ear_eq (l := l.disconnected p) h]
  rw [show (l.disconnected p).client = l.client from rfl]
  cases l.client.peer with
  | none => exact .inl rfl
  | some q =>
    cases l.client.initialized with
    | false => exact .inl rfl
    | true =>
      simp only [outlet_disconnected, if_true]
      split
      · exact .inr rfl
      · exact .inl rfl

theorem Settled.disconnected (h : Settled c t l) (p : PeerId) : Settled c t (l.disconnected p) := by
  have hheard : (l.disconnected p).heard = l.heard := heard_congr rfl rfl rfl
  have hsize : (l.disconnected p).peers.size = l.peers.size := by simp [Link.disconnected]
  have hold {q : PeerId} {o : Outlet} (ho : o ∈ (l.disconnected p).outlet q) : o ∈ l.outlet q := by
    rw [outlet_disconnected] at ho
    split at ho
    · cases ho
    · exact ho
  constructor
  · refine { h.toSound with
      obeyed := hheard ▸ h.obeyed
      covers := fun he => ?_
      silent := fun hi q hq o ho => hheard ▸ h.silent hi q hq o (hold ho)
      fresh := hheard ▸ h.fresh
      outlets := fun q o ho => h.outlets q o (hold ho)
      owners := fun n hn => hsize ▸ h.owners n hn
      tasked := h.tasked.grows (.of_loop (.refl _) rfl) (Nat.le_of_eq hsize.symm) rfl
        fun _ _ => rfl }
    rcases ear_disconnected h.recording p with hear | hear
    · rw [hear] at he ⊢
      exact hheard ▸ h.covers he
    · exact absurd hear he
  · rw [hsize]
    exact h.forgotten

instance steady_connectionLost (p : PeerId) (reason : Option String) :
    Keeps (Steady c c) (connectionLost p reason) := by
  have hlost : Keeps (Steady c c) (onPeer p fun e => { e with outlet := none, pending := [] }) :=
    Keeps.change fun l t h => ⟨h.disconnected p, rfl, id⟩
  unfold connectionLost
  infer_instance

instance steady_processExited (n : ProcessId) : Keeps (Steady c c) (processExited n) := by
  unfold processExited
  infer_instance

instance steady_die (n : ProcessId) (code : Int) : Keeps (Steady c c) (die n code) := by
  unfold die
  infer_instance

instance steady_react (n : ProcessId) (script : Value) (id : Option Value) :
    Keeps (Steady c c) (react n script id) := by
  have hexit : Keeps (Steady c c) (match script.get? "exit" with
      | some (.int code) => die n code
      | _ => pure ()) := by
    split <;> infer_instance
  unfold react
  refine .andThen fun p => ?_
  cases id with
  | none =>
    dsimp only
    split
    · infer_instance
    · split <;> infer_instance
  | some id =>
    dsimp only
    split
    · infer_instance
    · split <;> infer_instance

/-! ### Dropping what waits -/

theorem clientPeer_none (h : l.client.peer = none) : Ends clientPeer l fun r l' =>
    r = .error (.client .notRunning) ∧ l' = l := by
  refine .read ?_
  rw [h]
  exact .throw ⟨rfl, rfl⟩

/-- Without an end, what waits is dropped, and this does not fail. -/
theorem sendQueued_dropped {q : Queued} (hp : l.client.peer = none) (hq : l.Sendable q) :
    Ends (sendQueued q) l fun r l' => r = .ok () ∧ Quiet l l' := by
  cases q with
  | notification method params =>
    refine .bind (.outcome (.bind ((clientPeer_none hp).mono fun r l₁ h₁ => ?_)))
    obtain ⟨rfl, rfl⟩ := h₁
    exact .log ⟨rfl, .refl l₁⟩
  | request method params target token result =>
    refine .read ?_
    split
    · exact .pure ⟨rfl, .refl l⟩
    · rename_i hd
      refine .bind (.outcome (.bind ((clientPeer_none hp).mono fun r l₁ h₁ => ?_)))
      obtain ⟨rfl, rfl⟩ := h₁
      exact (settle_ok _ hq.2.1 (by simpa using hd)).and ((quiet_settle result _).ends l₁)

/-- The link once its client has no end any more and nothing waits. -/
def gone (l : Link) : Link := { l with client := { l.client with
  process := none, peer := none, initialized := false, queued := [] } }

theorem Sound.gone (h : Sound c t l) : Sound c t l.gone := by
  have hear : l.gone.ear = .nobody := ear_eq h.recording
  exact { h with
    obeyed := fun e => by
      cases e with
      | queue => exact openBeforeUse_nil
      | recorder => exact h.obeyed .recorder
      | frames n => exact h.obeyed (.frames n)
      | nobody => exact openBeforeUse_nil
    covers := fun he => absurd hear he
    sendable := fun q hq => nomatch hq
    flushed := fun _ => rfl
    silent := fun _ _ hp => nomatch hp
    fresh := h.fresh
    served := fun _ _ hp => nomatch hp
    tasked := h.tasked.grows (.of_loop (.refl _) rfl) (Nat.le_refl _) rfl fun _ _ => rfl }

/-- How the announcement of the end of a process goes: until it is done nothing has changed. -/
def Ended (c : Option Turn) (t : Tracker) (l : Link) (r : Except Failure Unit) (l' : Link) : Prop :=
  l'.spawned.length = l.spawned.length ∧ match r with
    | .ok _ => Sound c t l' ∧ l'.client.peer = none
    | .error _ => Settled c t l' ∧ (l.client.peer = none → l'.client.peer = none)

/-- What is quiet may come before. -/
theorem Ended.after {α : Type} {a : Act Link α} {f : α → Act Link Unit} [ha : Keeps Quiet a]
    (hf : ∀ x l, Settled c t l → Ends (f x) l (Ended c t l)) (h : Settled c t l) :
    Ends (a >>= f) l (Ended c t l) := by
  refine .bind ((ha.ends l).mono fun r l₁ h₁ => ?_)
  have hs := h.told h₁ (.refl t)
  cases r with
  | error f => exact ⟨h₁.spawned, hs, h₁.peer.trans⟩
  | ok x =>
    refine (hf x l₁ hs).mono fun r l₂ h₂ => ⟨h₂.1.trans h₁.spawned, ?_⟩
    cases r with
    | ok _ => exact h₂.2
    | error f => exact ⟨h₂.2.1, fun hp => h₂.2.2 (h₁.peer.trans hp)⟩

/-- The client gives up its end. -/
def letGo : Act Link Unit := do
  onClient fun c => { c with process := none, peer := none, initialized := false }
  flush

/-- The connection is closed, if the process still has one. -/
def hangUp : Act Link Unit := do
  if let some n := (← theClient).process then order n "close"
  letGo

/-- A start that waits for the process fails. -/
def failReady (code : Option Int) : Act Link Unit := do
  if let some f := (← theClient).ready then
    let _ ← settleOpen f (.failed (.client (.exited code)))
  hangUp

theorem letGo_ends (h : Settled c t l) : Ends letGo l (Ended c t l) := by
  refine .change_bind (.read (.change_bind ?_))
  refine .bind ((Ends.forIn (I := Quiet l.gone) (fun q hq _ l₁ h₁ => ?_) (.refl _)).mono
    fun r l' h' => ?_)
  · have hsend : l.gone.Sendable q := (h.sendable q hq).mono (.of_loop (.refl _) rfl)
    refine .bind ((sendQueued_dropped h₁.peer (hsend.mono h₁.grows)).mono fun r l₂ h₂ => ?_)
    obtain ⟨rfl, h₂⟩ := h₂
    exact .pure ⟨⟨_, rfl⟩, h₁.trans h₂⟩
  · obtain ⟨⟨_, rfl⟩, h'⟩ := h'
    exact .pure ⟨h'.spawned, h.gone.told h' (.refl t), h'.peer⟩

/-- **The end of the server process** leaves nobody to hear what is sent. -/
theorem processGone_ends (exited : FutureId) (h : Settled c t l) :
    Ends (processGone exited) l (Ended c t l) := by
  have hclose (l : Link) (h : Settled c t l) : Ends hangUp l (Ended c t l) := by
    unfold hangUp
    refine .read ?_
    split
    · exact Ended.after (fun _ _ => letGo_ends) h
    · exact letGo_ends h
  have hready (code : Option Int) (l : Link) (h : Settled c t l) :
      Ends (failReady code) l (Ended c t l) := by
    unfold failReady
    refine .read ?_
    split
    · exact Ended.after (fun _ => hclose) h
    · exact hclose l h
  have hall (code : Option Int) : Ends (do
      if (← theClient).stopping then
        logClient .info s!"server process exited with code {exitCodeText code}"
      else
        logClient .warning s!"server process exited unexpectedly with code {exitCodeText code}"
      failReady code) l (Ended c t l) := by
    refine .read ?_
    dsimp only
    split
    · exact Ended.after (fun _ => hready code) h
    · exact Ended.after (fun _ => hready code) h
  exact .read (hall _)

end EditorBridge.Link
