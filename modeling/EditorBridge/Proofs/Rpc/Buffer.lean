/-
What does not look at the buffer.

An end of a connection keeps the bytes that it could not use yet.  `held` gives it other
ones, and this file says that nobody notices: whatever is done about a message that came
in, from reading its body to the answer that is written, comes to the same with any
bytes in the buffer and leaves them where they are.  The rules of `Act.Ignores` say so
for acts that are put together from others, so only the acts that ask for an end or
change one need a word: they look at everything but the buffer.

The one act that takes an end out as a whole and puts it back is the one for responses.
It is brought into a form first in which it changes nothing but the requests that wait
(`receiveResponse_eq`).
-/
import EditorBridge.Proofs.Link.Frames

namespace EditorBridge.Link

open Act (Ignores Reads after)
open Rpc (Bytes)

variable {p q : PeerId} {b b' : Bytes} {l : Link}

/-! ### The buffer of an end -/

/-- An end with other bytes in its buffer. -/
def held (p : PeerId) (b : Bytes) (l : Link) : Link :=
  { l with peers := l.peers.modify p fun e => { e with buffer := b } }

theorem peers_held (p : PeerId) (b : Bytes) (l : Link) :
    (held p b l).peers = l.peers.modify p fun e => { e with buffer := b } := rfl

/-- All that is known of an end but its buffer is the same. -/
theorem getD_held (p : PeerId) (b : Bytes) (l : Link) (q : PeerId) :
    (held p b l).peers.getD q default = l.peers.getD q default ∨
      (held p b l).peers.getD q default = { l.peers.getD q default with buffer := b } := by
  rw [peers_held]
  by_cases hq : q < l.peers.size
  · by_cases hpq : p = q
    · subst hpq
      right
      simp [hq, Array.getElem_modify]
    · left
      simp [hq, Array.getElem_modify, hpq]
  · left
    simp [hq]

theorem buffer_held (h : p < l.peers.size) : ((held p b l).peers.getD p default).buffer = b := by
  rw [peers_held]
  simp [h, Array.getElem_modify]

theorem held_held : held p b (held p b' l) = held p b l := by
  unfold held
  rw [modify_modify]
  rfl

/-- An end may be changed as long as its buffer has no part in it. -/
theorem modify_held {f : Peer → Peer}
    (hf : ∀ e b, f { e with buffer := b } = { f e with buffer := b }) (p : PeerId) (b : Bytes)
    (l : Link) (q : PeerId) :
    { held p b l with peers := (held p b l).peers.modify q f } =
      held p b { l with peers := l.peers.modify q f } := by
  have hpeers : (l.peers.modify p fun e => { e with buffer := b }).modify q f =
      (l.peers.modify q f).modify p fun e => { e with buffer := b } := by
    refine Array.ext (by simp) fun i h₁ h₂ => ?_
    simp only [Array.getElem_modify]
    split <;> split
    · exact hf _ _
    all_goals rfl
  unfold held
  rw [hpeers]

theorem held_buffer (l : Link) (p : PeerId) : held p (l.peers.getD p default).buffer l = l := by
  unfold held
  rw [modify_eq_self rfl]

/-! ### What does not look at it -/

theorem ignores_change {f : Link → Link} (h : ∀ l, f (held p b l) = held p b (f l)) :
    Ignores (held p b) (Act.change f) := Ignores.change h

/-- An end may be asked for if its buffer has no part in what follows. -/
theorem ignores_peer {α : Type} {k : Peer → Act Link α} (h : ∀ e b, k { e with buffer := b } = k e)
    (hk : ∀ e, Ignores (held p b) (k e)) : Ignores (held p b) (peer q >>= k) := by
  refine .read (fun l => ?_) fun l => hk _
  rcases getD_held p b l q with heq | heq
  · rw [heq]
  · rw [heq, h]

instance ignores_log (level : Level) (text : String) :
    Ignores (held p b) (do Act.log (← peer q).logger level text) :=
  ignores_peer (fun _ _ => rfl) fun _ => inferInstance

instance ignores_logBuilt (level : Level) (text : Unit → Except Failure String) :
    Ignores (held p b) (do Act.logBuilt (← peer q).logger level text) :=
  ignores_peer (fun _ _ => rfl) fun _ => inferInstance

instance ignores_onLoop (f : Loop Reply Callback Job → Loop Reply Callback Job) :
    Ignores (held p b) (onLoop f) := ignores_change fun _ => rfl

instance ignores_soon (j : Job) : Ignores (held p b) (soon j) := ignores_onLoop _

instance ignores_settleOpen (f : FutureId) (e : Ending Reply) :
    Ignores (held p b) (settleOpen f e) := by
  refine .read (fun _ => rfl) fun l => ?_
  cases l.loop.settle? .call f e with
  | none => exact Ignores.pure false
  | some loop =>
    have : Ignores (held p b) (Act.change fun l : Link => { l with loop }) :=
      ignores_change fun _ => rfl
    exact Ignores.bind _ _

instance ignores_settle (f : FutureId) (e : Ending Reply) : Ignores (held p b) (settle f e) := by
  unfold settle
  infer_instance

instance ignores_isDone (f : FutureId) : Ignores (held p b) (isDone f) :=
  .read (fun _ => rfl) fun _ => inferInstance

instance ignores_setToken (t : TokenId) (token : Token Notice) :
    Ignores (held p b) (setToken t token) := ignores_change fun _ => rfl

/-! ### Writing -/

instance ignores_noticed (n : ProcessId) (message : Value) :
    Ignores (held p b) (noticed n message) := by
  unfold noticed
  split
  · refine .read (fun _ => rfl) fun l => ?_
    split <;> infer_instance
  · infer_instance

instance ignores_write (message : Value) : Ignores (held p b) (write q message) := by
  have (f : Frame) : Ignores (held p b) (Act.change fun l : Link =>
      { l with written := l.written ++ [f] }) := ignores_change fun _ => rfl
  refine ignores_peer (fun _ _ => rfl) fun e => ?_
  split
  · refine .read (fun _ => rfl) fun l => ?_
    have hwrite (o : Outlet) : Ignores (held p b) (do
        let frame ← Act.ofExcept ((Frame.of o.process message).mapError .unwritable)
        Act.logBuilt Peer.dataLogger .trace fun _ => .ok ("JSON send: " ++ Text.quote frame.body)
        Act.change fun l => { l with written := l.written ++ [frame] }
        if let some n := o.process then noticed n message) := by
      refine .andThen fun f => .andThen fun _ => .andThen fun _ => ?_
      split <;> infer_instance
    exact Ignores.ite _ _ _
  · infer_instance

instance ignores_orWarn (a : Act Link Unit) (what : String) [Ignores (held p b) a] :
    Ignores (held p b) (orWarn q a what) := by
  unfold orWarn
  refine .andThen fun r => ?_
  split
  · infer_instance
  · exact Ignores.ite _ _ _

instance ignores_sendError (id code message data : Value) :
    Ignores (held p b) (sendError q id code message data) := ignores_orWarn _ _

instance ignores_notify (method : String) (params : Value) :
    Ignores (held p b) (notify q method params) := ignores_write _

instance ignores_takeBack (id : Nat) : Ignores (held p b) (takeBack q id) :=
  ignores_peer (fun _ _ => rfl) fun _ =>
    have := ignores_peer (p := p) (b := b) (q := q) (k := fun e => do
      Act.log e.logger .debug s!"request {id} was cancelled, sending {cancelMethod}"
      orWarn q (notify q cancelMethod (Value.table [("id", .int id)]))
        s!"Can't send {cancelMethod} for request {id}") (fun _ _ => rfl) fun _ => inferInstance
    Ignores.ite _ _ _

/-! ### Tokens -/

instance ignores_noteCancelled (method : String) (f : FutureId) :
    Ignores (held p b) (noteCancelled method f) := by
  have : Ignores (held p b) (Act.change fun l : Link => { l with recorder := { l.recorder with
      notes := l.recorder.notes ++ [{ kind := "cancel", method := some method }] } }) :=
    ignores_change fun _ => rfl
  unfold noteCancelled
  refine .andThen fun _ => .read (fun _ => rfl) fun l => ?_
  infer_instance

instance ignores_heed (n : Notice) : Ignores (held p b) (heed n) := by
  unfold heed
  split <;> infer_instance

instance ignores_call (a : Act Link Unit) [Ignores (held p b) a] :
    Ignores (held p b) (Token.call a) := by
  unfold Token.call
  refine .andThen fun r => ?_
  split <;> infer_instance

instance ignores_cancelToken (t : TokenId) : Ignores (held p b) (cancelToken t) := by
  refine .read (fun l => by simp only [held]) fun l => ?_
  infer_instance

/-! ### Responses -/

/-- The request that a response answers. -/
def answered? (message : Value) (e : Peer) : Option PendingRequest :=
  (requestNumber? ((message.get? "id").getD .null)).bind fun n =>
    e.pending.find? fun r => (r.id : Int) = n

/-- An end that does not wait for a request any more. -/
def without (r : PendingRequest) (e : Peer) : Peer :=
  { e with pending := e.pending.filter fun r' => (r'.id : Int) ≠ r.id }

/-- A request that an end does not wait for any more ends with its response. -/
def conclude (p : PeerId) (message : Value) (r : PendingRequest) : Act Link Unit := do
  let id := (message.get? "id").getD .null
  if ← isDone r.future then
    Act.log (← peer p).logger .debug s!"Response for {r.method} ({id.plain}) is no longer awaited."
  else
    let e ← Act.ofExcept (endingOf r.target message)
    if let .failed (.wire f) := e then Act.logFailure (← peer p).logger (.wire f)
    settle r.future e

theorem take?_eq (n : Int) (e : Peer) : e.take? n =
    (e.pending.find? fun r => (r.id : Int) = n).map fun r => (r, without r e) := by
  unfold Peer.take?
  split
  · rename_i r hr
    have hn : (r.id : Int) = n := by simpa using List.find?_some hr
    simp only [hr, without, hn, Option.map_some]
  · rename_i hr
    simp only [hr, Option.map_none]

/-- **A response** only takes its request from the end it is for. -/
theorem receiveResponse_eq (p : PeerId) (message : Value) :
    receiveResponse p message = (do
      let id := (message.get? "id").getD .null
      match answered? message (← peer p) with
      | none =>
        Act.logBuilt (← peer p).logger .warning fun _ =>
          .ok s!"Response for unknown request id {id.shown} received."
      | some r =>
        onPeer p (without r)
        conclude p message r) := by
  funext env
  unfold receiveResponse
  simp only [Act.run_bind, (reads_peer p).reads]
  generalize hx : env.state.peers.getD p default = x
  have hanswered : (requestNumber? ((message.get? "id").getD .null)).bind (x.take? ·) =
      (answered? message x).map fun r => (r, without r x) := by
    unfold answered?
    cases requestNumber? ((message.get? "id").getD .null) with
    | none => rfl
    | some n => exact take?_eq n x
  rw [hanswered]
  cases answered? message x with
  | none => rfl
  | some r =>
    -- The end is put back as it was read, and nothing happened in the meantime.
    have hpeers : env.state.peers.modify p (fun _ => without r x) =
        env.state.peers.modify p (without r) := modify_congr (congrArg (without r) hx.symm)
    have hchange : onPeer p (fun _ => without r x) env = onPeer p (without r) env := by
      show ((Except.ok (), ⟨env.journal, { env.state with
        peers := env.state.peers.modify p fun _ => without r x }⟩) : Except Failure Unit × Env Link) = _
      rw [hpeers]
      rfl
    simp only [Option.map_some, Act.run_bind, hchange]
    rfl

/-! ### Reading -/

instance ignores_conclude (message : Value) (r : PendingRequest) :
    Ignores (held p b) (conclude q message r) := by
  unfold conclude
  refine .andThen fun done => ?_
  split
  · infer_instance
  · refine .andThen fun e => ?_
    split
    · exact ignores_peer (fun _ _ => rfl) fun _ => inferInstance
    · infer_instance

instance ignores_receiveResponse (message : Value) :
    Ignores (held p b) (receiveResponse q message) := by
  rw [receiveResponse_eq]
  refine ignores_peer (fun _ _ => rfl) fun e => ?_
  split
  · infer_instance
  · rename_i r _
    have : Ignores (held p b) (onPeer q (without r)) :=
      ignores_change fun l => modify_held (fun _ _ => rfl) p b l q
    infer_instance

instance ignores_perform (r : Reaction) (params : Wire) :
    Ignores (held p b) (perform q r params) := by
  have (method : String) : Ignores (held p b) (Act.change fun l : Link =>
      { l with calls := l.calls ++ [(method, params.toValue)] }) := ignores_change fun _ => rfl
  unfold perform
  split
  · rename_i cancels _
    cases cancels <;> infer_instance
  · infer_instance
  · infer_instance
  · refine ignores_peer (fun _ _ => rfl) fun e => .andThen fun _ => .andThen fun w => ?_
    have (d : Wire) (r : PUnit) : Ignores (held p b) (do
        Act.log (← peer q).logger .trace (diagnosticText (params.get "uri").asText d)
        pure (ForInStep.yield r)) := ignores_peer (fun _ _ => rfl) fun _ => inferInstance
    infer_instance
  · infer_instance
  · exact ignores_peer (fun _ _ => rfl) fun _ => inferInstance
  · infer_instance

instance ignores_handle (h : Handler) (params : Value) : Ignores (held p b) (handle q h params) := by
  unfold handle
  infer_instance

instance ignores_unhandled (method : Value) (id : Option Value) :
    Ignores (held p b) (unhandled q method id) := by
  unfold unhandled
  split <;> infer_instance

instance ignores_receiveCall (method message : Value) :
    Ignores (held p b) (receiveCall q method message) := by
  unfold receiveCall
  refine ignores_peer (fun e _ => ?_) fun e => .andThen fun h => ?_
  · cases method <;> rfl
  · generalize message.get? "id" = id
    split
    · infer_instance
    · refine .andThen fun r => ?_
      have hfailed (f : Failure) (a : Act Link Unit) [Ignores (held p b) a] :
          Ignores (held p b) (do Act.logFailure (← peer q).logger f; a) :=
        ignores_peer (fun _ _ => rfl) fun _ => inferInstance
      cases id with
      | none => split <;> dsimp only <;> infer_instance
      | some id => split <;> dsimp only <;> infer_instance

instance ignores_receiveMessage (message : Value) :
    Ignores (held p b) (receiveMessage q message) := by
  unfold receiveMessage
  have hread : Ignores (held p b) (match message.get? "method" with
      | some method => receiveCall q method message
      | none => receiveResponse q message) := by
    split <;> infer_instance
  have hrefused : Ignores (held p b) (do
      Act.logBuilt (← peer q).logger .error fun _ =>
        .ok ("Invalid JSON-RPC message: " ++ message.shown)
      sendError q .null (.int invalidRequest) (.str "Invalid JSON-RPC message.")) :=
    ignores_peer (fun _ _ => rfl) fun _ => inferInstance
  exact Ignores.ite _ _ _

instance ignores_readBodyOn (m : Machine) (body : Bytes) (charset : String) :
    Ignores (held p b) (readBodyOn m body charset) := by
  unfold readBodyOn
  infer_instance

instance ignores_readBody (body : Bytes) (charset : String) :
    Ignores (held p b) (readBody body charset) := by
  have hmachine (l : Link) : (held p b l).machine = l.machine := rfl
  unfold readBody
  refine .read (fun l => ?_) fun l => ignores_readBodyOn l.machine body charset
  rw [hmachine]

instance ignores_receiveBody (body : Bytes) (charset : String) :
    Ignores (held p b) (receiveBody q body charset) := by
  unfold receiveBody
  refine .andThen fun r => ?_
  split
  · infer_instance
  · infer_instance
  · infer_instance
  · exact ignores_peer (fun _ _ => rfl) fun _ => inferInstance

end EditorBridge.Link
