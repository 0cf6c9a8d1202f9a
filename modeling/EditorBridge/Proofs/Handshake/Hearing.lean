/-
Whatever a server says is taken without a word.

The answers to a server's own requests are no calls, nor are the messages that take requests
back.  So an end may receive any bytes at all, complete messages or parts of them, sensible or
not, and nothing changes for a greeting but that the futures of answered requests end.
-/
import EditorBridge.Proofs.Handshake.Tacit

namespace EditorBridge.Link

open Act (Ends Keeps Reads)

variable {l l' : Link} {A : List TaskId} {f g : FutureId} {p : PeerId} {message : Value}

/-! ### Writing -/

instance tacit_noticed (n : ProcessId) (message : Value) :
    Keeps (Tacit A f) (noticed n message) := by
  refine .of_ends fun l => ?_
  unfold noticed
  split
  · rename_i method _
    refine .read ?_
    split
    · rename_i script hscript
      refine ends_soon fun h => ?_
      rw [h.scripts] at hscript
      cases hscript
    · exact .pure (refl_of (Tacit A f) l)
  · exact .pure (refl_of (Tacit A f) l)

theorem stays_of_tacit {α : Type} (a : Act Link α) [h : Keeps (Tacit A f) a] :
    Keeps (Stays A f) a :=
  h.mono fun _ _ => Tacit.stays

/-- Whatever is written, all else stays. -/
instance stays_write (message : Value) : Keeps (Stays A f) (write p message) := by
  have (o : Outlet) : Keeps (Stays A f) (do
      let frame ← Act.ofExcept ((Frame.of o.process message).mapError .unwritable)
      Act.logBuilt Peer.dataLogger .trace fun _ => .ok ("JSON send: " ++ Text.quote frame.body)
      Act.change fun l => { l with written := l.written ++ [frame] }
      if let some n := o.process then noticed n message) := by
    have hwritten (frame : Frame) : Keeps (Stays A f)
        (Act.change fun l : Link => { l with written := l.written ++ [frame] }) :=
      Keeps.change fun l h => .of_same h rfl rfl rfl rfl (.refl _) fun _ hs => ⟨{ hs with }, rfl⟩
    have hnoticed (n : ProcessId) := stays_of_tacit (A := A) (f := f) (noticed n message)
    refine .andThen fun frame => .andThen fun _ => .andThen fun _ => ?_
    split <;> infer_instance
  unfold write
  refine .andThen fun e => ?_
  split
  · exact .andThen fun l => Keeps.ite _ _ _
  · infer_instance

/-- A message that is written to a process is one more call to it, if it calls at all. -/
theorem callsTo_frame {frame : Frame} {lo : Loop Reply Callback Job} (n : ProcessId) :
    callsTo n { l with written := l.written ++ [frame], loop := lo } =
      l.callsTo n ++ if frame.process = some n then [frame.message].filter isCall else [] := by
  by_cases hn : frame.process = some n <;> simp [callsTo, hn]

theorem hushed_written {x : Except Failure Unit} (h : Written p message l x l')
    (hm : isCall message = false) : Hushed l l' := by
  cases h with
  | unconnected | unwritable => exact .refl l
  | frame ho hp hmessage hlo =>
    refine ⟨fun n => ?_, fun _ => rfl, fun _ _ => id⟩
    rw [callsTo_frame, hmessage]
    simp [hm]

theorem tacit_write (hm : isCall message = false) : Keeps (Tacit A f) (write p message) :=
  .of_ends fun l => (((stays_write message).ends l).and (write_ends p message l)).mono
    fun _ _ ⟨hs, hw⟩ h => ⟨hs h, hushed_written hw hm⟩

instance tacit_orWarn (a : Act Link Unit) (what : String) [Keeps (Tacit A f) a] :
    Keeps (Tacit A f) (orWarn p a what) := by
  unfold orWarn
  refine .andThen fun r => ?_
  split <;> infer_instance

instance tacit_sendError (id code message data : Value) :
    Keeps (Tacit A f) (sendError p id code message data) := by
  have := tacit_write (A := A) (f := f) (p := p) (isCall_errorResponse id code message data)
  unfold sendError
  infer_instance

/-! ### Tokens -/

instance tacit_takeBack (id : Nat) : Keeps (Tacit A f) (takeBack p id) := by
  have (params : Value) : Keeps (Tacit A f) (notify p cancelMethod params) :=
    tacit_write (isCall_withdrawal params)
  unfold takeBack
  infer_instance

/-- A recorder that takes note of it ends nothing. -/
instance tacit_noteCancelled (method : String) (g : FutureId) :
    Keeps (Tacit A f) (noteCancelled method g) := by
  refine .of_ends fun l => .change_bind (.read ?_)
  have hnoted : Tacit A f l { l with recorder := { l.recorder with
      notes := l.recorder.notes ++ [{ kind := "cancel", method := some method }] } } :=
    tacit_rest rfl rfl rfl rfl rfl ⟨fun _ => rfl, fun _ => rfl, fun _ _ => id⟩
  dsimp only
  split
  · rename_i hfails
    refine fun j h => ?_
    cases h.lenient.symm.trans hfails
  · exact .pure hnoted

instance tacit_heed (n : Notice) : Keeps (Tacit A f) (heed n) := by
  cases n with
  | request p id => exact tacit_takeBack id
  | note method g => exact tacit_noteCancelled method g

instance tacit_call (a : Act Link Unit) [Keeps (Tacit A f) a] :
    Keeps (Tacit A f) (Token.call a) := by
  unfold Token.call
  refine .andThen fun r => ?_
  split <;> infer_instance

instance tacit_setToken (t : TokenId) (token : Token Notice) :
    Keeps (Tacit A f) (setToken t token) :=
  tacit_change fun _ => ⟨rfl, rfl, rfl, rfl, rfl, rfl, rfl⟩

instance tacit_cancelToken (t : TokenId) : Keeps (Tacit A f) (cancelToken t) := by
  unfold cancelToken
  infer_instance

instance tacit_watch (t : TokenId) (n : Notice) : Keeps (Tacit A f) (watch t n) := by
  unfold watch
  refine .andThen fun l => ?_
  infer_instance

instance tacit_watchUntil (g : FutureId) (t : TokenId) (n : Notice) :
    Keeps (Tacit A f) (watchUntil g t n) := by
  unfold watchUntil
  infer_instance

/-! ### Reading -/

/-- **A response** ends the future of its request, and nobody else's. -/
instance tacit_receiveResponse (message : Value) :
    Keeps (Tacit A f) (receiveResponse p message) := by
  refine .of_ends fun l => ?_
  unfold receiveResponse
  refine .read ?_
  dsimp only
  split
  · exact (Keeps.andThen fun _ => inferInstance : Keeps (Tacit A f) _).ends l
  rename_i r rest hr
  obtain ⟨n, -, hn⟩ := Option.bind_eq_some_iff.1 hr
  unfold Peer.take? at hn
  split at hn
  · rename_i r' hfound
    cases hn
    have hrest (f : FutureId) : Tacit A f l (touched p (fun _ => { l.peers.getD p default with
        pending := (l.pending p).filter fun r => (r.id : Int) ≠ n }) l) :=
      tacit_touched rfl rfl fun _ hr => (List.mem_filter.1 hr).1
    refine .change_bind ((tacit_but hrest (fun f hf => ?_) fun _ _ _ _ hs =>
      hs.pending p r (List.mem_of_find?_eq_some hfound) rfl).mono fun _ _ h => h f)
    have (e : Ending Reply) := tacit_settle (A := A) hf e
    refine .andThen fun done => ?_
    split
    · infer_instance
    · refine .andThen fun e => ?_
      split <;> infer_instance
  · cases hn

instance tacit_perform (r : Reaction) (params : Wire) : Keeps (Tacit A f) (perform p r params) := by
  have (method : String) : Keeps (Tacit A f) (Act.change fun l : Link =>
      { l with calls := l.calls ++ [(method, params.toValue)] }) :=
    tacit_change fun _ => ⟨rfl, rfl, rfl, rfl, rfl, rfl, rfl⟩
  unfold perform
  split
  · rename_i cancels _
    cases cancels <;> infer_instance
  all_goals infer_instance

instance tacit_handle (h : Handler) (params : Value) : Keeps (Tacit A f) (handle p h params) := by
  unfold handle
  infer_instance

instance tacit_unhandled (method : Value) (id : Option Value) :
    Keeps (Tacit A f) (unhandled p method id) := by
  unfold unhandled
  split <;> infer_instance

instance tacit_receiveCall (method message : Value) :
    Keeps (Tacit A f) (receiveCall p method message) := by
  have (id result : Value) : Keeps (Tacit A f) (write p (response id result)) :=
    tacit_write (isCall_response id result)
  unfold receiveCall
  refine .andThen fun e => .andThen fun h => ?_
  generalize message.get? "id" = id
  split
  · infer_instance
  · refine .andThen fun r => ?_
    cases id with
    | none => split <;> dsimp only <;> infer_instance
    | some id => split <;> dsimp only <;> infer_instance

instance tacit_receiveMessage (message : Value) : Keeps (Tacit A f) (receiveMessage p message) := by
  unfold receiveMessage
  have hread : Keeps (Tacit A f) (match message.get? "method" with
      | some method => receiveCall p method message
      | none => receiveResponse p message) := by
    split <;> infer_instance
  infer_instance

instance tacit_receiveBody (body : Rpc.Bytes) (charset : String) :
    Keeps (Tacit A f) (receiveBody p body charset) := by
  have (m : Machine) : Keeps (Tacit A f) (readBodyOn m body charset) := by
    unfold readBodyOn
    infer_instance
  have : Keeps (Tacit A f) (readBody body charset) := by
    unfold readBody
    infer_instance
  unfold receiveBody
  refine .andThen fun r => ?_
  split <;> infer_instance

instance tacit_onPeer_buffer (bs : Rpc.Bytes) :
    Keeps (Tacit A f) (onPeer p fun e => { e with buffer := bs }) :=
  Keeps.change fun _ => tacit_touched rfl rfl fun _ => id

/-- Taking messages off a buffer, one after the other. -/
instance tacit_drain (buffer : Rpc.Bytes) : Keeps (Tacit A f) (drain p buffer) := by
  fun_induction drain p buffer <;> infer_instance

/-- **Whatever comes in** is taken without a word. -/
instance tacit_receive (bytes : Rpc.Bytes) : Keeps (Tacit A f) (receive p bytes) := by
  unfold receive
  infer_instance

instance tacit_receiveOutput (n : ProcessId) (output : Int) (bytes : Rpc.Bytes) :
    Keeps (Tacit A f) (receiveOutput n output bytes) := by
  have (bs : Rpc.Bytes) : Keeps (Tacit A f) (onProcess n fun p => { p with stderr := bs }) := by
    refine Keeps.change fun l => tacit_rest ?_ rfl rfl rfl rfl
      ⟨fun _ => rfl, fun _ => rfl, fun _ _ => id⟩
    exact ((quiet_onProcess_stderr n bs).keeps ⟨default, l⟩).wiring
  unfold receiveOutput receiveStderr
  infer_instance

end EditorBridge.Link
