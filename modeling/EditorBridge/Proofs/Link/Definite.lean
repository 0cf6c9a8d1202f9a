/-
Sending is definite.

What becomes of a message, and of the queries of the editor, depends on the state below the
editor only.  So two bridges that are alike there go on being alike, whatever else is
different about them.
-/
import EditorBridge.Proofs.Abreast
import EditorBridge.Proofs.Link.Sending
import EditorBridge.Sync.Proxy

namespace EditorBridge

open Act (Definite Reads)

namespace Link

/-! ### Futures and tokens -/

instance definite_newFuture : Definite newFuture := by
  unfold newFuture
  infer_instance

instance definite_settleOpen (f : FutureId) (e : Ending Reply) : Definite (settleOpen f e) := by
  unfold settleOpen
  refine .andThen fun l => ?_
  split <;> infer_instance

instance definite_isDone (f : FutureId) : Definite (isDone f) := by
  unfold isDone
  infer_instance

instance definite_isCancelled (t : TokenId) : Definite (isCancelled t) := by
  unfold isCancelled
  infer_instance

instance definite_awaiting (f : FutureId) (rest : Resumption)
    (go : Except Failure Reply → Act Link Step) [∀ r, Definite (go r)] :
    Definite (awaiting f rest go) := by
  unfold awaiting ending?
  refine .andThen fun e => ?_
  split <;> infer_instance

/-! ### Writing -/

instance definite_write (p : PeerId) (message : Value) : Definite (write p message) := by
  have hnoticed (n : ProcessId) : Definite (noticed n message) := by
    unfold noticed soon onLoop
    split
    · refine .andThen fun l => ?_
      split <;> infer_instance
    · infer_instance
  have hsent (o : Outlet) : Definite (do
      let frame ← Act.ofExcept ((Frame.of o.process message).mapError .unwritable)
      Act.logBuilt Peer.dataLogger .trace fun _ => .ok ("JSON send: " ++ Text.quote frame.body)
      Act.change fun l : Link => { l with written := l.written ++ [frame] }
      if let some n := o.process then noticed n message) := by
    refine .andThen fun _ => .andThen fun _ => .andThen fun _ => ?_
    split <;> infer_instance
  unfold write peer
  refine .andThen fun e => ?_
  split
  · refine .andThen fun l => ?_
    dsimp only
    split
    · exact .andThen fun _ => hsent _
    · exact hsent _
  · infer_instance

instance definite_orWarn (p : PeerId) (a : Act Link Unit) [Definite a] (what : String) :
    Definite (orWarn p a what) := by
  unfold orWarn peer
  refine .andThen fun r => ?_
  split <;> infer_instance

instance definite_heed (n : Notice) : Definite (heed n) := by
  unfold heed
  split
  · unfold takeBack notify peer
    infer_instance
  · unfold noteCancelled
    infer_instance

instance definite_watch (t : TokenId) (n : Notice) : Definite (watch t n) := by
  have hcall : Definite (Token.call (heed n)) := by
    unfold Token.call
    refine .andThen fun r => ?_
    split <;> infer_instance
  unfold watch setToken
  infer_instance

instance definite_clientPeer : Definite clientPeer := by
  unfold clientPeer theClient
  refine .andThen fun c => ?_
  split <;> infer_instance

/-! ### Sending -/

instance definite_checkSend (method : String) : Definite (checkSend method) := by
  unfold checkSend theRecorder
  refine .andThen fun r => ?_
  split <;> infer_instance

instance definite_note (n : Note) : Definite (note n) := by
  unfold note onRecorder
  infer_instance

/-- **A notification** that is sent. -/
instance definite_sendNotification (method : String) (params : Value) :
    Definite (sendNotification method params) := by
  unfold sendNotification recordNotification notifyServer notify theClient onClient
  infer_instance

instance definite_answerAtOnce (method : String) (target : Wire.Target) (f : FutureId) :
    Definite (answerAtOnce method target f) := by
  unfold answerAtOnce theRecorder settle onRecorder
  refine .andThen fun done => ?_
  dsimp only
  split
  · refine .andThen fun r => ?_
    split <;> infer_instance
  · infer_instance

/-- **A request** that is sent. -/
instance definite_sendQuery (method : String) (params : Value) (target : Wire.Target)
    (token : Option TokenId) : Definite (sendQuery method params target token) := by
  have hrecorded : Definite (recordRequest method params target token) := by
    unfold recordRequest
    refine .andThen fun _ => .andThen fun _ => .andThen fun f => ?_
    have hrest := definite_answerAtOnce method target f
    unfold answerAtOnce at hrest
    cases token <;> dsimp only <;> infer_instance
  have hsent (p : PeerId) : Definite (sendRequest p method params target token) := by
    unfold sendRequest onPeer peer watchUntil whenDone onLoop
    cases token <;> infer_instance
  unfold sendQuery requestServer theClient onClient
  infer_instance

end Link

/-! ### The relay and the queries -/

instance definite_notify (method : String) (params : Value) :
    Definite (Channel.notify method params : Act Link Unit) := Link.definite_sendNotification ..

instance definite_request (method : String) (params : Value) (target : Wire.Target)
    (token : Option TokenId) :
    Definite (Channel.request method params target token : Act Link FutureId) :=
  Link.definite_sendQuery ..

instance definite_whenFormatted (f : FutureId) (uri : String) :
    Definite (Channel.whenFormatted f uri : Act Link Unit) := by
  show Definite (Link.whenDone f (.formatted uri))
  unfold Link.whenDone Link.onLoop
  infer_instance

namespace Tracker

instance definite_onChannel {α : Type} (a : Act Link α) [Definite a] :
    Definite (onChannel a) := by
  unfold onChannel
  infer_instance

instance definite_logParams (l : Logger) (before : String) (params : Value) :
    Definite (logParams l before params : Act (Tracker × Link) Unit) := by
  unfold logParams
  infer_instance

instance definite_ensureOpen (d : Document) :
    Definite (ensureOpen d : Act (Tracker × Link) Bool) := by
  unfold ensureOpen update
  have hannounced (params : Value) : Definite (do
      try onChannel (Channel.notify "textDocument/didOpen" params)
      catch f => do
        Act.change fun s : Tracker × Link => (erase d.identity s.1, s.2)
        throw f : Act (Tracker × Link) Unit) := Definite.tryCatch _ _
  infer_instance

end Tracker

namespace Relay

variable (r : Relay) (d : Document)

instance definite_publish (method : String) (params : Value) :
    Definite (publish method params : Act (Tracker × Link) Unit) := by
  unfold publish
  infer_instance

instance definite_opened : Definite (r.opened d : Act (Tracker × Link) Unit) := by
  unfold opened Tracker.update
  infer_instance

instance definite_changed (e : ChangeEvent) :
    Definite (r.changed e : Act (Tracker × Link) Unit) := by
  unfold changed
  infer_instance

instance definite_requestFormatting :
    Definite (r.requestFormatting d : Act (Tracker × Link) Unit) := by
  unfold requestFormatting
  refine .andThen fun _ => .andThen fun _ => .andThen fun x => ?_
  split <;> infer_instance

instance definite_saved : Definite (r.saved d : Act (Tracker × Link) Unit) := by
  unfold saved
  infer_instance

instance definite_closed : Definite (r.closed d : Act (Tracker × Link) Unit) := by
  unfold closed Tracker.update
  infer_instance

end Relay

namespace Query

instance definite_answered (method : String) (token : TokenId) (r : Except Failure Reply) :
    Definite (answered method token r) := by
  unfold answered
  split <;> infer_instance

instance definite_converted {σ : Type} (q : Query) (r : Except Failure Reply) :
    Definite (converted q r : Act σ Step) := by
  unfold converted
  infer_instance

instance definite_onLink {α : Type} (a : Act Link α) [Definite a] : Definite (onLink a) := by
  unfold onLink
  infer_instance

/-- **A query** of the editor. -/
instance definite_tracedAsk (schemes : List String) (q : Query) (d : Document) (p : Position)
    (token : Option TokenId) : Definite (tracedAsk schemes q d p token) := by
  have hrequest (params : Value) (t : TokenId) : Definite (q.request params t) := by
    unfold request
    refine .andThen fun _ => .andThen fun x => ?_
    split <;> infer_instance
  have htoken : Definite Link.newToken := by
    unfold Link.newToken
    infer_instance
  unfold tracedAsk ask
  cases token <;> infer_instance

end Query

end EditorBridge
