/-
Frames that are written and frames that are read.

Writing is the one act that can tell a server something, and `Link.Written` says exactly
what it does: nothing without a connection or for a message that has no text, one more
frame otherwise.  Everything else that has to do with a connection writes messages that
are not about documents, or none, and so is quiet.  Reading is quiet too: whatever comes
in, the answers to it are not about documents.
-/
import EditorBridge.Proofs.Link.Quiet
import EditorBridge.Proofs.Params

namespace EditorBridge

/-! ### Messages that are not about documents -/

/-- The methods that are about documents. -/
def Told.methods : List String :=
  "textDocument/didOpen" :: "textDocument/didChange" :: "textDocument/didClose" :: mentioning

theorem Told.of?_eq_none {method : String} (h : method ∉ methods) (params : Value) :
    of? method params = none := by
  simp only [methods, List.mem_cons, not_or] at h
  obtain ⟨h₁, h₂, h₃, h₄⟩ := h
  unfold of?
  cases Value.about? params <;> simp [h₁, h₂, h₃, h₄]

namespace Link

open Act (Keeps Ends Reads)
open Value (textAt?)

/-- What a whole message tells is what its method and its parameters tell. -/
theorem ofMessage?_withParams (method : String) (params : Value) (front : List (String × Value))
    (hm : (Value.table (front ++ [("params", params)])).get? "method" = some (.str method))
    (hm' : (Value.table front).get? "method" = some (.str method))
    (hp : (Value.table (front ++ [("params", params)])).get? "params" = some params)
    (hp' : (Value.table front).get? "params" = none) :
    Told.ofMessage? (withParams params front) = Told.of? method params := by
  unfold withParams
  by_cases hnull : params.isNull = true
  · cases params <;> simp [Value.isNull] at hnull
    simp [Told.ofMessage?, textAt?, hm', hp', Value.isNull]
  · simp [hnull, Told.ofMessage?, textAt?, hm, hp]

theorem told_notification (method : String) (params : Value) :
    Told.ofMessage? (notification method params) = Told.of? method params :=
  ofMessage?_withParams method params _ (by simp) (by simp) (by simp) (by simp)

theorem told_request (id : Nat) (method : String) (params : Value) :
    Told.ofMessage? (request id method params) = Told.of? method params :=
  ofMessage?_withParams method params _ (by simp) (by simp) (by simp) (by simp)

theorem told_response (id result : Value) : Told.ofMessage? (response id result) = none := by
  simp [Told.ofMessage?, response, textAt?]

theorem told_errorResponse (id code message data : Value) :
    Told.ofMessage? (errorResponse id code message data) = none := by
  simp [Told.ofMessage?, errorResponse, textAt?]

/-! ### Writing -/

variable {l : Link} {p : PeerId}

/-- Whether something can be written at an end. -/
def Connected (l : Link) (p : PeerId) (o : Outlet) : Prop :=
  l.outlet p = some o ∧
    (o.process.elim o.closing fun n => (l.processes.getD n default).closing) = false

/-- Something can be written at an end. -/
def Open (l : Link) (p : PeerId) : Prop := ∃ o, l.Connected p o

/-- What is quiet neither opens a connection nor closes one. -/
theorem open_iff_of_quiet {l' : Link} (h : Quiet l l') : l'.Open p ↔ l.Open p := by
  have houtlet : l'.outlet p = l.outlet p := congrFun (congrArg Wiring.outlet h.wiring) p
  refine exists_congr fun o => and_congr (iff_of_eq (congrArg (· = some o) houtlet)) ?_
  cases o.process with
  | none => exact Iff.rfl
  | some n => exact iff_of_eq (congrArg (fun w => w.closing n = false) h.wiring)

/-- What writing a message comes to. -/
inductive Written (p : PeerId) (message : Value) (l : Link) : Except Failure Unit → Link → Prop
  | unconnected (h : ∀ o, ¬l.Connected p o) : Written p message l (.error .notConnected) l
  | unwritable {e : Json.Unwritable} (h : Frame.render message = .error e) :
    Written p message l (.error (.unwritable e)) l
  | frame {o : Outlet} {f : Frame} {lo : Loop Reply Callback Job} (ho : l.Connected p o)
    (hp : f.process = o.process) (hm : f.message = message) (hlo : lo.futures = l.loop.futures) :
    Written p message l (.ok ()) { l with written := l.written ++ [f], loop := lo }

theorem frame_of (process : Option ProcessId) (message : Value) :
    (∃ f, Frame.of process message = .ok f ∧ f.process = process ∧ f.message = message) ∨
      ∃ e, Frame.render message = .error e ∧ Frame.of process message = .error e := by
  unfold Frame.of
  split
  · exact .inl ⟨_, rfl, rfl, rfl⟩
  · rename_i e h
    exact .inr ⟨e, h, rfl⟩

/-- A message has a frame. -/
def HasFrame (message : Value) : Prop := ∃ s, Frame.render message = .ok s

theorem HasFrame.of_writable {message : Value} (h : Json.Writable message) : HasFrame message :=
  h _ (fun n hn => by rw [hn, Bool.true_or]) .compact 0

theorem HasFrame.render_ne {message : Value} (h : HasFrame message) (e : Json.Unwritable) :
    Frame.render message ≠ .error e := by
  obtain ⟨s, hs⟩ := h
  exact fun he => nomatch hs.symm.trans he

theorem noticed_ends (n : ProcessId) (message : Value) :
    Ends (noticed n message) l fun r l' =>
      r = .ok () ∧ ∃ lo, lo.futures = l.loop.futures ∧ l' = { l with loop := lo } := by
  unfold noticed
  split
  · refine .read ?_
    split
    · exact ends_soon ⟨rfl, l.loop.soon _, rfl, rfl⟩
    · exact .pure ⟨rfl, l.loop, rfl, rfl⟩
  · exact .pure ⟨rfl, l.loop, rfl, rfl⟩

instance reads_peer (p : PeerId) : Reads (peer p) fun l => l.peers.getD p default :=
  ⟨fun _ => rfl⟩

/-- What remains to be done once it is clear that something can be written. -/
private theorem frame_ends {o : Outlet} {message : Value} (ho : l.Connected p o) :
    Ends (do
      let frame ← Act.ofExcept ((Frame.of o.process message).mapError .unwritable)
      Act.logBuilt Peer.dataLogger .trace fun _ => .ok ("JSON send: " ++ Text.quote frame.body)
      Act.change fun l => { l with written := l.written ++ [frame] }
      if let some n := o.process then noticed n message) l (Written p message l) := by
  rcases frame_of o.process message with ⟨f, hf, hp, hm⟩ | ⟨e, he, hf⟩
  · rw [hf]
    refine .bind (.pure (.bind (.logBuilt (.change_bind ?_) nofun)))
    split
    · refine (noticed_ends _ _).mono fun r l' h => ?_
      obtain ⟨rfl, lo, hlo, rfl⟩ := h
      exact .frame ho hp hm hlo
    · exact .pure (.frame ho hp hm rfl)
  · rw [hf]
    exact .bind (.throw (.unwritable he))

theorem write_ends (p : PeerId) (message : Value) (l : Link) :
    Ends (write p message) l (Written p message l) := by
  unfold write
  refine .read ?_
  split
  · rename_i o ho
    refine .read ?_
    simp only
    split
    · rename_i hclosing
      refine .bind (.throw (.unconnected fun o' ho' => ?_))
      have heq : o' = o := Option.some.inj (ho'.1.symm.trans ho)
      rw [heq] at ho'
      exact Bool.noConfusion (ho'.2.symm.trans hclosing)
    · rename_i hclosing
      exact frame_ends ⟨ho, by simpa using hclosing⟩
  · rename_i hnone
    exact .throw (.unconnected fun o ho => hnone o ho.1)

/-- A frame tells what its message tells, if its process is the one that hears. -/
theorem tells_frame {f : Frame} {lo : Loop Reply Callback Job} (hlo : lo.futures = l.loop.futures)
    (he : ∀ t, f.told? = some t → l.ear = .frames f.process) :
    Tells f.told?.toList l { l with written := l.written ++ [f], loop := lo } where
  wiring := rfl
  heard e := by
    cases htold : f.told? with
    | none =>
      cases e with
      | frames n => by_cases hn : f.process = n <;> simp [heard, hn, htold]
      | recorder | queue | nobody => simp [heard]
    | some t =>
      rw [he t htold]
      cases e with
      | frames n =>
        by_cases hn : f.process = n
        · simp [heard, hn, htold]
        · simp [heard, hn, Ne.symm hn]
      | recorder | queue | nobody => simp [heard]
  audible hne := by
    cases htold : f.told? with
    | none => simp [htold] at hne
    | some t => simp [he t htold]
  queued := ⟨[], by simp, by simp⟩
  grows := .of_loop (.of_futures hlo) rfl

/-- A message that is not about a document tells nobody anything. -/
theorem quiet_write {message : Value} (h : Told.ofMessage? message = none) :
    Keeps Quiet (write p message) := by
  refine .of_ends fun l => (write_ends p message l).mono fun r l' hw => ?_
  cases hw with
  | unconnected | unwritable => exact .refl l
  | @frame o f lo ho hp hm hlo =>
    have htold : f.told? = none := by rw [Frame.told?, hm, h]
    have := tells_frame (f := f) hlo (by simp [htold])
    rwa [htold] at this

instance quiet_orWarn (a : Act Link Unit) (what : String) [Keeps Quiet a] :
    Keeps Quiet (orWarn p a what) := by
  unfold orWarn
  refine .andThen fun r => ?_
  split <;> infer_instance

instance quiet_sendError (id code message data : Value) :
    Keeps Quiet (sendError p id code message data) :=
  have := quiet_write (p := p) (told_errorResponse id code message data)
  quiet_orWarn _ _

theorem quiet_notify {method : String} (h : method ∉ Told.methods) (params : Value) :
    Keeps Quiet (notify p method params) :=
  quiet_write (by rw [told_notification, Told.of?_eq_none h])

instance quiet_notify_cancel (params : Value) : Keeps Quiet (notify p cancelMethod params) :=
  quiet_notify (by decide) params

instance quiet_takeBack (id : Nat) : Keeps Quiet (takeBack p id) := by
  unfold takeBack
  infer_instance

/-! ### Tokens -/

instance quiet_noteCancelled (method : String) (f : FutureId) :
    Keeps Quiet (noteCancelled method f) := by
  have : Keeps Quiet (Act.change fun l : Link => { l with recorder := { l.recorder with
      notes := l.recorder.notes ++ [{ kind := "cancel", method := some method }] } }) :=
    quiet_change fun l => quiet_rest rfl rfl rfl ⟨rfl, rfl, by simp [Note.told?]⟩
  unfold noteCancelled
  infer_instance

instance quiet_heed (n : Notice) : Keeps Quiet (heed n) := by
  unfold heed
  split <;> infer_instance

instance quiet_call (a : Act Link Unit) [Keeps Quiet a] : Keeps Quiet (Token.call a) := by
  unfold Token.call
  refine .andThen fun r => ?_
  split <;> infer_instance

instance quiet_cancelToken (t : TokenId) : Keeps Quiet (cancelToken t) := by
  unfold cancelToken
  infer_instance

instance quiet_watch (t : TokenId) (n : Notice) : Keeps Quiet (watch t n) := by
  unfold watch
  infer_instance

instance quiet_watchUntil (f : FutureId) (t : TokenId) (n : Notice) :
    Keeps Quiet (watchUntil f t n) := by
  unfold watchUntil
  infer_instance

/-! ### Requests -/

/-- An end may be changed, but not what it writes to. -/
theorem quiet_modify {f : Peer → Peer} (h : (f (l.peers.getD p default)).outlet = l.outlet p) :
    Quiet l { l with peers := l.peers.modify p f } := by
  refine quiet_rest ?_ rfl rfl ⟨rfl, rfl, rfl⟩
  have hout : ({ l with peers := l.peers.modify p f } : Link).outlet = l.outlet :=
    funext (getD_modify Peer.outlet h)
  simp only [wiring, hout, Array.size_modify]

theorem quiet_onPeer {f : Peer → Peer} (h : ∀ e, (f e).outlet = e.outlet) :
    Keeps Quiet (onPeer p f) := quiet_change fun _ => quiet_modify (h _)

instance quiet_onPeer_lastId (id : Nat) : Keeps Quiet (onPeer p fun e => { e with lastId := id }) :=
  quiet_onPeer fun _ => rfl

instance quiet_onPeer_pending (r : PendingRequest) :
    Keeps Quiet (onPeer p fun e => { e with pending := e.pending ++ [r] }) :=
  quiet_onPeer fun _ => rfl

instance quiet_onPeer_buffer (bs : Rpc.Bytes) :
    Keeps Quiet (onPeer p fun e => { e with buffer := bs }) :=
  quiet_onPeer fun _ => rfl

theorem quiet_sendRequest {method : String} (h : method ∉ Told.methods) (params : Value)
    (target : Wire.Target) (token : Option TokenId) :
    Keeps Quiet (sendRequest p method params target token) := by
  have (id : Nat) : Keeps Quiet (write p (request id method params)) :=
    quiet_write (by rw [told_request, Told.of?_eq_none h])
  unfold sendRequest
  cases token <;> infer_instance

/-! ### Reading -/

instance quiet_receiveResponse (message : Value) : Keeps Quiet (receiveResponse p message) := by
  have hrest : ∀ l : Link, ∀ r rest, (l.peers.getD p default).take? r = some rest →
      Quiet l { l with peers := l.peers.modify p fun _ => rest.2 } := by
    intro l r rest h
    refine quiet_modify ?_
    unfold Peer.take? at h
    split at h
    · cases h
      rfl
    · cases h
  refine .of_ends fun l => ?_
  unfold receiveResponse
  refine .read ?_
  simp only
  split
  · exact (Keeps.andThen fun _ => inferInstance : Keeps Quiet _).ends l
  · rename_i r rest h
    obtain ⟨n, -, hn⟩ := Option.bind_eq_some_iff.1 h
    refine .change_bind (((?_ : Keeps Quiet _).ends _).mono fun _ _ h => (hrest l n _ hn).trans h)
    refine .andThen fun done => ?_
    split
    · infer_instance
    · refine .andThen fun e => ?_
      split <;> infer_instance

instance quiet_perform (r : Reaction) (params : Wire) : Keeps Quiet (perform p r params) := by
  have (method : String) : Keeps Quiet (Act.change fun l : Link =>
      { l with calls := l.calls ++ [(method, params.toValue)] }) :=
    quiet_change fun _ => quiet_rest rfl rfl rfl ⟨rfl, rfl, rfl⟩
  unfold perform
  split
  · rename_i cancels _
    cases cancels <;> infer_instance
  all_goals infer_instance

instance quiet_handle (h : Handler) (params : Value) : Keeps Quiet (handle p h params) := by
  unfold handle
  infer_instance

instance quiet_unhandled (method : Value) (id : Option Value) :
    Keeps Quiet (unhandled p method id) := by
  unfold unhandled
  split <;> infer_instance

instance quiet_receiveCall (method message : Value) :
    Keeps Quiet (receiveCall p method message) := by
  have (id result : Value) : Keeps Quiet (write p (response id result)) :=
    quiet_write (told_response id result)
  unfold receiveCall
  refine .andThen fun e => .andThen fun h => ?_
  generalize message.get? "id" = id
  split
  · infer_instance
  · refine .andThen fun r => ?_
    cases id with
    | none => split <;> dsimp only <;> infer_instance
    | some id => split <;> dsimp only <;> infer_instance

instance quiet_receiveMessage (message : Value) : Keeps Quiet (receiveMessage p message) := by
  unfold receiveMessage
  have hread : Keeps Quiet (match message.get? "method" with
      | some method => receiveCall p method message
      | none => receiveResponse p message) := by
    split <;> infer_instance
  infer_instance

instance quiet_readBodyOn (m : Machine) (body : Rpc.Bytes) (charset : String) :
    Keeps Quiet (readBodyOn m body charset) := by
  unfold readBodyOn
  infer_instance

instance quiet_readBody (body : Rpc.Bytes) (charset : String) :
    Keeps Quiet (readBody body charset) := by
  unfold readBody
  infer_instance

instance quiet_receiveBody (body : Rpc.Bytes) (charset : String) :
    Keeps Quiet (receiveBody p body charset) := by
  unfold receiveBody
  refine .andThen fun r => ?_
  split <;> infer_instance

/-- Taking messages off a buffer, one after the other. -/
instance quiet_drain (buffer : Rpc.Bytes) : Keeps Quiet (drain p buffer) := by
  fun_induction drain p buffer <;> infer_instance

instance quiet_receive (bytes : Rpc.Bytes) : Keeps Quiet (receive p bytes) := by
  unfold receive
  infer_instance

end Link

end EditorBridge
