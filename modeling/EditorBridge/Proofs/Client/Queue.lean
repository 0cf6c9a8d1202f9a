/-
The queue of a client serves those who wait.

A request that has to wait has a future already, so somebody may wait for it before it is
sent.  The future is provided for as long as the request is in the queue (`Secured`), and once
the queue is worked off it has ended or stands for the future of a request that was sent.
No message is lost on the way, because a failure to send is either taken for the answer or
one that parameters that can be written do not have.

What a client does besides, from greeting its server to stopping it, is put together from
acts that serve everybody.
-/
import EditorBridge.Proofs.Client.Answering
import EditorBridge.Proofs.Link.Plain
import EditorBridge.Proofs.Server.Stopping

namespace EditorBridge

open Json (Writable)

namespace Link

open Act (Ends Keeps Reads)

variable {l l' l'' : Link} {p : PeerId} {f : FutureId} {q : Queued} {held : List Queued}
  {method : String} {params : Value} {target : Wire.Target} {token : Option TokenId}

/-! ### Those who wait for a message that waits -/

/-- A future is provided for, or belongs to a message that waits. -/
def Secured (l : Link) (f : FutureId) : Prop :=
  l.Provided f ∨ ∃ q ∈ l.client.queued, q.result? = some f

/-- Nobody is forgotten who waits for a message that waits. -/
theorem Bides.secured (h : Bides [] [] l l') (hf : l.Secured f) : l'.Secured f := by
  rcases hf with hf | ⟨q, hq, hf⟩
  · exact .inl (h.provided hf)
  · rcases h.queue q hq with hq | hq | hq
    · exact .inr ⟨q, hq, hf⟩
    · cases hq
    · exact .inl (hq f hf)

/-- Futures that are owed an ending exist. -/
theorem Owed.lt (h : l.Orderly) (hf : l.Owed f) : f < l.loop.futures.size := by
  rcases hf with hf | ⟨p, r, hr, rfl⟩
  · obtain ⟨e, he⟩ := Option.isSome_iff_exists.1 hf
    exact lt_of_ending? he
  · exact (h.tables p).made r hr

/-! ### The client -/

/-- Whatever of a client nobody waits for may be changed. -/
theorem serves_onClient {f : Client → Client} (h : ∀ c, (f c).standing = c.standing) :
    Keeps Serves (onClient f) :=
  serves_change (fun _ => rfl) (fun _ => rfl) (fun _ => rfl) (fun _ => rfl) (fun l => h l.client)
    fun _ => rfl

instance serves_onClient_greeted (w : Wire) :
    Keeps Serves (onClient fun c => { c with greeted := w }) := serves_onClient fun _ => rfl

instance serves_onClient_initialized (b : Bool) :
    Keeps Serves (onClient fun c => { c with initialized := b }) := serves_onClient fun _ => rfl

instance serves_onClient_stopping (b : Bool) :
    Keeps Serves (onClient fun c => { c with stopping := b }) := serves_onClient fun _ => rfl

instance serves_onClient_greeting (t : Option TaskId) :
    Keeps Serves (onClient fun c => { c with greeting := t }) := serves_onClient fun _ => rfl

instance serves_logClient (level : Level) (text : String) : Keeps Serves (logClient level text) := by
  unfold logClient
  infer_instance

instance serves_clientPeer : Keeps Serves clientPeer := by
  unfold clientPeer
  refine .andThen fun c => ?_
  split <;> infer_instance

/-! ### Sending -/

/-- A notification is sent, or fails for a reason to drop it. -/
theorem notifyPeer_serves (hw : Writable params) (l : Link) :
    Ends (do notify (← clientPeer) method params) l fun x l' => Serves l l' ∧
      ∀ f, x = .error f → dropsFor f = true := by
  refine .bind ?_
  unfold clientPeer
  refine .read ?_
  split
  · rename_i p _
    refine .pure ((serves_notify method params).knowing ((write_ends p _ l).mono fun x l' h hs => ?_))
    refine ⟨hs, ?_⟩
    cases h with
    | unconnected => rintro f ⟨⟩; rfl
    | unwritable he => exact absurd he ((hasFrame_notification hw).render_ne _)
    | frame => exact fun f hf => by cases hf
  · exact .throw ⟨refl_of Serves l, by rintro f ⟨⟩; rfl⟩

/-- A request is sent and owed an ending, or fails for a reason to drop it and ends nothing. -/
theorem requestPeer_serves (hw : Writable params) (l : Link) :
    Ends (do sendRequest (← clientPeer) method params target token) l fun x l' => Serves l l' ∧
      match x with
      | .ok f => l.Orderly → l'.Owed f
      | .error f => dropsFor f = true ∧ l.loop.Rests l'.loop := by
  refine .bind ?_
  unfold clientPeer
  refine .read ?_
  split
  · rename_i p _
    refine .pure ((sendRequest_serves p l).mono fun x l' h => ⟨h.1, ?_⟩)
    cases x with
    | ok f => exact h.2
    | error f =>
      refine ⟨?_, h.2.2⟩
      rcases h.2.1 with rfl | hn
      · rfl
      · exact absurd hw hn
  · exact .throw ⟨refl_of Serves l, rfl, .refl _⟩

/-- **A message that had to wait** is sent or dropped, and its future is provided for. -/
theorem sendQueued_serves (hq : l.Keepable q) :
    Ends (sendQueued q) l fun x l' => x = .ok () ∧ Serves l l' ∧
      (l.Orderly → ∀ f ∈ q.result?, l'.Provided f) := by
  cases q with
  | notification method params =>
    refine .bind (.outcome ((notifyPeer_serves hq l).mono fun x l₁ h₁ => ?_))
    cases x with
    | ok _ => exact .pure ⟨rfl, h₁.1, fun _ => nofun⟩
    | error f =>
      dsimp only
      rw [h₁.2 f rfl]
      exact .log ⟨rfl, h₁.1, fun _ => nofun⟩
  | request method params target token result =>
    refine .read ?_
    split
    · rename_i hd
      refine .pure ⟨rfl, refl_of Serves l, fun _ f hf => ?_⟩
      cases hf
      exact .inl (.inl hd)
    · rename_i hd
      refine .bind (.outcome ((requestPeer_serves hq.1 l).mono fun x l₁ h₁ => ?_))
      obtain ⟨hs, h₁⟩ := h₁
      cases x with
      | ok f =>
        refine (whenDone_ends f (.pass result) l₁).mono fun x l₂ h₂ => ?_
        obtain ⟨rfl, rfl⟩ := h₂
        refine ⟨rfl, trans_of Serves hs (serves_loop (Loop.evolves_whenDone rfl)), fun h => ?_⟩
        rintro g ⟨⟩
        have ho := h₁ h
        have hstands := Loop.asks_whenDone (ho.lt (hs h).1) (.pass result)
        exact .inr ⟨f, hstands, ho.imp ((Loop.grows_whenDone ..).done f) id⟩
      | error f =>
        obtain ⟨hf, hrests⟩ := h₁
        dsimp only
        rw [hf]
        have hlt : result < l₁.loop.futures.size := Nat.lt_of_lt_of_le hq.2 hrests.size
        have hopen : l₁.loop.done result = false := by
          simpa [Loop.done, hrests.ending result hq.2] using hd
        refine ((settle_ok _ hlt hopen).and (settle_evolves result _ l₁)).mono fun x l₂ h₂ => ?_
        obtain ⟨rfl, lo, hlo, hd, rfl⟩ := h₂
        refine ⟨rfl, trans_of Serves hs (serves_loop hlo), fun _ => ?_⟩
        rintro g ⟨⟩
        exact .inl (.inl (hd hlt))

/-- All messages that had to wait are sent or dropped. -/
theorem sendAll_serves {qs : List Queued} (h : l.Orderly) (hqs : ∀ q ∈ qs, l.Keepable q) :
    Ends (ForIn.forIn qs PUnit.unit fun q (_ : PUnit) => do
      sendQueued q
      return ForInStep.yield PUnit.unit) l fun x l' => (∃ b, x = .ok b) ∧ l'.Orderly ∧
        Bides [] [] l l' ∧ ∀ q ∈ qs, ∀ f ∈ q.result?, l'.Provided f := by
  induction qs generalizing l with
  | nil => exact .pure ⟨⟨_, rfl⟩, h, .refl l, nofun⟩
  | cons q qs ih =>
    obtain ⟨hq, hqs⟩ := List.forall_mem_cons.1 hqs
    rw [List.forIn_cons]
    refine .bind (.bind ((sendQueued_serves hq).mono fun x l₁ h₁ => ?_))
    obtain ⟨rfl, hs, hprovided⟩ := h₁
    obtain ⟨ho, hb⟩ := hs h
    have hqs₁ : ∀ q ∈ qs, l₁.Keepable q := fun q hq => (hqs q hq).mono hb.loop.futures
    refine .pure ((ih ho hqs₁).mono fun x l₂ h₂ => ?_)
    obtain ⟨hx, ho₂, hb₂, hall⟩ := h₂
    refine ⟨hx, ho₂, hb.trans hb₂, List.forall_mem_cons.2 ⟨fun f hf => ?_, hall⟩⟩
    exact hb₂.provided (hprovided h f hf)

/-- Messages may be taken from a queue, but are held back then. -/
theorem Bides.of_client {c : Client} (hc : (c.peer, c.process, c.ready, c.exited) =
      (l.client.peer, l.client.process, l.client.ready, l.client.exited))
    (hq : ∀ q ∈ l.client.queued, q ∈ c.queued ∨ q ∈ held)
    (hshut : l.client.peer = none → l.client.queued = [] → c.queued = []) :
    Bides held [] l { l with client := c } where
  toCarries := .of_tasks (.refl _) rfl fun _ _ => .inl
  gones := rfl
  client := by simpa only [Prod.mk.injEq] using hc
  queue q hq' := (hq q hq').imp id .inl
  shut := hshut
  outlets _ := .inl rfl
  parts := .of_eq rfl rfl
  stops := rfl

theorem Orderly.of_client {c : Client} (h : l.Orderly) (hq : ∀ q ∈ c.queued, l.Keepable q) :
    Orderly { l with client := c } where
  sane := h.sane
  scripts := h.scripts
  tables p := (h.tables p).mono (Nat.le_refl _) rfl rfl (Nat.le_refl _)
  outcomes := h.outcomes
  owners := h.owners
  exits := h.exits
  told := h.told
  keepable q hq' := (hq q hq').mono (Nat.le_refl _)

/-- **Working off the queue** leaves nobody behind, and does not fail. -/
theorem flush_serves (h : l.Orderly) :
    Ends flush l fun x l' => x = .ok () ∧ l'.Orderly ∧ Bides [] [] l l' ∧
      (l.client.peer = none → l'.client.queued = []) := by
  have ho : Orderly { l with client := { l.client with queued := [] } } := h.of_client nofun
  have hb : Bides l.client.queued [] l { l with client := { l.client with queued := [] } } :=
    .of_client rfl (fun _ => .inr) fun _ _ => rfl
  have hqs : ∀ q ∈ l.client.queued,
      Keepable { l with client := { l.client with queued := [] } } q := fun q hq =>
    (h.keepable q hq).mono (Nat.le_refl _)
  refine .read (.change_bind (.bind ((sendAll_serves ho hqs).mono fun x l' h' => ?_)))
  obtain ⟨⟨b, rfl⟩, ho', hb', hall⟩ := h'
  exact .pure ⟨rfl, ho', (hb.trans hb').sent hall, fun hp => hb'.shut hp rfl⟩

instance serves_flush : Keeps Serves flush :=
  .of_ends fun _ j h => ⟨(flush_serves h j).2.1, (flush_serves h j).2.2.1⟩

/-! ### Calls of the client -/

/-- Messages may be put into the queue of a client with an end. -/
theorem serves_queued (hp : l.client.peer.isSome = true) (hq : l.Keepable q) :
    Serves l { l with client := { l.client with queued := l.client.queued ++ [q] } } := by
  refine fun h => ⟨h.of_client (List.forall_mem_append.2 ⟨h.keepable, List.forall_mem_singleton.2 hq⟩),
    .of_client rfl (fun _ hq => .inl (List.mem_append_left _ hq)) fun hnone => ?_⟩
  rw [hnone] at hp
  cases hp

theorem peer_of_waiting {c : Client} (h : sendsNow c = false) : c.peer.isSome = true := by
  unfold sendsNow at h
  cases hp : c.peer with
  | none => simp [hp] at h
  | some p => rfl

/-- A notification is sent or waits. -/
theorem notifyServer_serves (hw : Writable params) (l : Link) :
    Ends (notifyServer method params) l fun _ => Serves l := by
  unfold notifyServer
  refine .read ?_
  split
  · exact (notifyPeer_serves hw l).mono fun _ _ h => h.1
  · rename_i hs
    exact .change (serves_queued (peer_of_waiting (by simpa using hs)) hw)

/-- **A request** is sent or waits, and either way its future is not forgotten. -/
theorem requestServer_serves (hw : Writable params) (l : Link) :
    Ends (requestServer method params target token) l fun x l' => Serves l l' ∧
      ∀ f, x = .ok f → l.Orderly → l'.Secured f ∧ f < l'.loop.futures.size := by
  unfold requestServer
  refine .read ?_
  split
  · refine (requestPeer_serves hw l).mono fun x l' h => ⟨h.1, ?_⟩
    rintro f rfl ho
    exact ⟨.inl (.inl (h.2 ho)), (h.2 ho).lt (h.1 ho).1⟩
  · rename_i hs
    refine .bind (newFuture_ends.mono fun x l₁ h₁ => ?_)
    obtain ⟨rfl, rfl⟩ := h₁
    refine .change_bind (.pure ⟨?_, ?_⟩)
    · have hq : Keepable { l with loop := l.loop.create.2 }
          (.request method params target token l.loop.futures.size) := ⟨hw, by simp [Loop.create]⟩
      exact trans_of Serves (serves_loop l.loop.evolves_create)
        (serves_queued (peer_of_waiting (by simpa using hs)) hq)
    · rintro f ⟨⟩ -
      exact ⟨.inr ⟨_, List.mem_append_right _ (List.mem_singleton_self _), rfl⟩, by simp [Loop.create]⟩

/-! ### Greeting -/

instance serves_welcome (ready : Option FutureId) (g : Wire) : Keeps Serves (welcome ready g) := by
  have hrest : Keeps Serves (do
      Act.logBuilt Client.logger .info fun _ => greetedText g
      if let some f := ready then
        let _ ← settleOpen f (.result (.wire g))) := by
    cases ready <;> infer_instance
  unfold welcome
  infer_instance

instance serves_greetingFailed (ready : Option FutureId) (f : Failure) :
    Keeps Serves (greetingFailed ready f) := by
  unfold greetingFailed
  cases ready <;> infer_instance

instance serves_greeted (ready : Option FutureId) (r : Except Failure Reply) :
    Keeps Serves (greeted ready r) := by
  unfold greeted
  split
  · infer_instance
  · refine .andThen fun x => ?_
    split <;> infer_instance

instance serves_greet : Keeps Serves greet := by
  unfold greet
  refine .andThen fun c => .andThen fun x => ?_
  split <;> infer_instance

instance serves_ready : Keeps Serves ready := by
  unfold ready
  refine .andThen fun c => ?_
  split <;> infer_instance

/-! ### Stopping -/

section Stopping

variable (n : ProcessId) (exited : FutureId) (timeout : Option Int) (r : Except Failure Reply)

instance serves_left : Keeps Serves (left r) := by
  unfold left stopOver
  infer_instance

instance serves_leaving : Keeps Serves (leaving n exited r) := by
  unfold leaving
  split <;> infer_instance

instance serves_leave : Keeps Serves (leave n exited timeout) := by
  unfold leave
  infer_instance

instance serves_sayExit : Keeps Serves sayExit := by
  unfold sayExit
  refine .andThen fun c => ?_
  split <;> infer_instance

instance serves_shutDown : Keeps Serves (shutDown n exited timeout r) := by
  unfold shutDown
  refine .andThen fun x => ?_
  split <;> infer_instance

instance serves_stop : Keeps Serves (stop timeout) := by
  unfold stop
  refine .andThen fun c => ?_
  split
  · refine .andThen fun _ => ?_
    cases c.greeting <;> cases c.peer <;> cases c.greeted.isNothing <;> dsimp only <;>
      infer_instance
  · infer_instance

instance serves_tracedStop (arguments : List String) : Keeps Serves (tracedStop arguments timeout) := by
  unfold tracedStop
  infer_instance

end Stopping

end Link

end EditorBridge
