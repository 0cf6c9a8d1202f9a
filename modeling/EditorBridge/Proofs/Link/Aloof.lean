/-
What has nothing to do with the error stream of a server process.

Two things are kept of the error stream of a process: what was logged of it, and the bytes
behind its last line break.  `silenced` takes both away.  An act that is `Aloof` neither looks at
them nor touches them: it comes to the same without them, it logs nothing under their name,
and it leaves the bytes where they are.

The rules are instances, one for each way of putting acts together, so of the acts on a link
only those that read or change processes and ends need a word.  Of an end it must be known that it
does not log under the name of the error stream (`Named`), and this is carried along.  From
there everything that goes over the connection is aloof, in both directions.
-/
import EditorBridge.Proofs.Abreast
import EditorBridge.Proofs.Link.Sending
import EditorBridge.Proofs.Rpc.Buffer

namespace EditorBridge.Link

open Act (Reads)
open Rpc (Bytes)

/-! ### What is kept of the error stream -/

/-- A process with other bytes behind the last line break of its error stream. -/
def carrying (n : ProcessId) (b : Bytes) (l : Link) : Link :=
  { l with processes := l.processes.modify n fun x => { x with stderr := b } }

/-- The bytes behind the last line break. -/
def carried (n : ProcessId) (l : Link) : Bytes := (l.processes.getD n default).stderr

/-- Whether a record was logged of an error stream. -/
def isErrorLine (r : Record) : Bool := r.logger == stderrLogger.name

/-- What was logged of error streams. -/
def errorLines (j : Journal) : List Record := j.records.filter isErrorLine

/-- Nothing is kept of the error stream of a process. -/
def silenced (n : ProcessId) (e : Env Link) : Env Link :=
  ⟨{ e.journal with records := e.journal.records.filter fun r => !isErrorLine r },
    carrying n [] e.state⟩

/-- No end of a connection logs under the name of an error stream. -/
def Named (l : Link) : Prop :=
  ∀ p, (l.peers.getD p default).logger.name ≠ stderrLogger.name

variable {n : ProcessId} {l : Link} {b b' : Bytes}

theorem carrying_carrying : carrying n b (carrying n b' l) = carrying n b l := by
  unfold carrying
  rw [modify_modify]
  rfl

theorem carrying_carried (n : ProcessId) (l : Link) : carrying n (carried n l) l = l := by
  unfold carrying carried
  rw [modify_eq_self rfl]

theorem carried_carrying (h : n < l.processes.size) : carried n (carrying n b l) = b := by
  simp [carried, carrying, h, Array.getElem_modify]

/-- Of a process only the bytes are others. -/
theorem getD_carrying {α : Type} (f : Process → α) (hf : ∀ x b, f { x with stderr := b } = f x)
    (n m : ProcessId) (b : Bytes) (l : Link) :
    f ((carrying n b l).processes.getD m default) = f (l.processes.getD m default) :=
  getD_modify f (hf _ _) m

/-- An end may be changed as long as it goes on logging under its name. -/
theorem Named.modify (h : Named l) (p : PeerId) {f : Peer → Peer}
    (hf : ∀ x, (f x).logger = x.logger) :
    Named { l with peers := l.peers.modify p f } := fun q => by
  rw [getD_modify (a := l.peers) (fun x : Peer => x.logger.name) (congrArg Logger.name (hf _))]
  exact h q

/-- The error stream of a process is as it was. -/
structure Untouched (n : ProcessId) (e e' : Env Link) : Prop where
  lines : errorLines e'.journal = errorLines e.journal
  carried : carried n e'.state = carried n e.state
  size : e'.state.processes.size = e.state.processes.size
  like : e'.journal.Like e.journal
  named : Named e.state → Named e'.state

theorem Untouched.refl (n : ProcessId) (e : Env Link) : Untouched n e e :=
  ⟨rfl, rfl, rfl, .refl _, id⟩

theorem Untouched.trans {e e' e'' : Env Link} (h : Untouched n e e') (h' : Untouched n e' e'') :
    Untouched n e e'' :=
  ⟨h'.lines.trans h.lines, h'.carried.trans h.carried, h'.size.trans h.size,
    h'.like.trans h.like, fun hn => h'.named (h.named hn)⟩

/-! ### Acts that do not look at it -/

/-- An act has nothing to do with the error stream of a process. -/
class Aloof (n : ProcessId) {α : Type} (a : Act Link α) : Prop where
  silenced : ∀ e, Named e.state → a (silenced n e) = ((a e).1, silenced n (a e).2)
  untouched : ∀ e, Named e.state → Untouched n e (a e).2

/-- A logger has another name than that of an error stream. -/
class Foreign (l : Logger) : Prop where
  ne : l.name ≠ stderrLogger.name

instance : Foreign Peer.dataLogger := ⟨by decide⟩

instance : Foreign Peer.serverLogger := ⟨by decide⟩

instance : Foreign Token.logger := ⟨by decide⟩

namespace Aloof

variable {α β : Type} {a : Act Link α}

/-- The rule for acts that do nothing. -/
theorem idle (r : Except Failure α) : Aloof n (fun e => (r, e) : Act Link α) :=
  ⟨fun _ _ => rfl, fun e _ => .refl n e⟩

instance pure (x : α) : Aloof n (Pure.pure x : Act Link α) := idle (.ok x)

instance throw (f : Failure) : Aloof n (MonadExcept.throw f : Act Link α) := idle (.error f)

instance ofExcept (r : Except Failure α) : Aloof n (Act.ofExcept r : Act Link α) := by
  cases r with
  | ok x => exact Aloof.pure x
  | error f => exact Aloof.throw f

/-- The rule for acts that go on, for what follows by cases. -/
theorem andThen {a : Act Link α} {k : α → Act Link β} [ha : Aloof n a]
    (hk : ∀ x, Aloof n (k x)) : Aloof n (a >>= k) where
  silenced e he := by
    have hs := ha.untouched e he
    rw [Act.run_bind, Act.run_bind, ha.silenced e he]
    generalize a e = r at hs ⊢
    obtain ⟨_ | x, e'⟩ := r
    · rfl
    · exact (hk x).silenced e' (hs.named he)
  untouched e he := by
    have hs := ha.untouched e he
    rw [Act.run_bind]
    generalize a e = r at hs ⊢
    obtain ⟨_ | x, e'⟩ := r
    · exact hs
    · exact hs.trans ((hk x).untouched e' (hs.named he))

instance bind (a : Act Link α) (k : α → Act Link β) [Aloof n a] [hk : ∀ x, Aloof n (k x)] :
    Aloof n (a >>= k) := andThen hk

/-- A question may be asked if the answer means the same without the error stream. -/
theorem read {a : Act Link α} {g : Link → α} [ha : Reads a g] {k : α → Act Link β}
    (h : ∀ l, k (g (carrying n [] l)) = k (g l)) (hk : ∀ l, Named l → Aloof n (k (g l))) :
    Aloof n (a >>= k) where
  silenced e he := by
    rw [Act.run_bind, Act.run_bind, ha.reads, ha.reads]
    show k (g (carrying n [] e.state)) _ = _
    rw [h e.state]
    exact (hk e.state he).silenced e he
  untouched e he := by
    rw [Act.run_bind, ha.reads]
    exact (hk e.state he).untouched e he

/-- A change has to leave the processes alone, and the names that ends log under. -/
theorem change {f : Link → Link} (h : ∀ l, f (carrying n [] l) = carrying n [] (f l))
    (hp : ∀ l, (f l).processes = l.processes) (hn : ∀ l, Named l → Named (f l)) :
    Aloof n (Act.change f) where
  silenced e _ := congrArg (fun s => (Except.ok (), (⟨(Link.silenced n e).journal, s⟩ : Env Link)))
    (h e.state)
  untouched e _ := by
    refine ⟨rfl, ?_, congrArg Array.size (hp e.state), .refl _, hn e.state⟩
    show ((f e.state).processes.getD n default).stderr = _
    rw [hp]
    rfl

instance ite (c : Prop) [Decidable c] (a b : Act Link α) [Aloof n a] [Aloof n b] :
    Aloof n (if c then a else b) := by
  split <;> infer_instance

instance outcome (a : Act Link α) [h : Aloof n a] : Aloof n (Act.outcome a) where
  silenced e he := by
    unfold Act.outcome
    rw [h.silenced e he]
    rfl
  untouched e he := h.untouched e he

/-- What is logged under another name stays when error streams are taken away. -/
theorem silenced_add {l : Logger} (hl : l.name ≠ stderrLogger.name) (level : Level) (text : String)
    (e : Env Link) : Link.silenced n ⟨e.journal.add l level text, e.state⟩ =
      ⟨(Link.silenced n e).journal.add l level text, (Link.silenced n e).state⟩ := by
  simp [Link.silenced, Journal.add, List.filter_append, isErrorLine, hl]

instance logBuilt (l : Logger) [hl : Foreign l] (level : Level)
    (text : Unit → Except Failure String) :
    Aloof n (Act.logBuilt l level text : Act Link Unit) where
  silenced e _ := by
    unfold Act.logBuilt
    rw [Act.run_bind, Act.run_bind, Act.run_get, Act.run_get]
    have hkeeps : (Link.silenced n e).journal.keeps l level = e.journal.keeps l level := rfl
    by_cases hk : e.journal.keeps l level = true
    · simp only [hkeeps, hk, if_true, Act.run_bind]
      cases text () with
      | error f => rfl
      | ok t => exact congrArg (Prod.mk _) (silenced_add hl.ne level t e).symm
    · simp only [hkeeps, hk]
      rfl
  untouched e _ := by
    unfold Act.logBuilt
    rw [Act.run_bind, Act.run_get]
    dsimp only
    split
    · rw [Act.run_bind]
      cases text () with
      | error f => exact .refl n e
      | ok t =>
        refine ⟨?_, rfl, rfl, .add t, id⟩
        show List.filter isErrorLine (e.journal.records ++ [_]) = _
        simp [List.filter_append, isErrorLine, hl.ne, errorLines]
    · exact .refl n e

instance log (l : Logger) [Foreign l] (level : Level) (text : String) :
    Aloof n (Act.log l level text : Act Link Unit) := Aloof.logBuilt ..

instance logFailure (l : Logger) [Foreign l] (f : Failure) :
    Aloof n (Act.logFailure l f : Act Link Unit) := Aloof.log ..

instance forIn {γ : Type} (xs : List γ) (b : β) (k : γ → β → Act Link (ForInStep β))
    [hk : ∀ x b, Aloof n (k x b)] : Aloof n (ForIn.forIn xs b k) := by
  induction xs generalizing b with
  | nil => exact Aloof.pure b
  | cons x xs ih =>
    rw [List.forIn_cons]
    refine andThen fun r => ?_
    cases r with
    | done b' => exact Aloof.pure b'
    | yield b' => exact ih b'

/-- A change of something else than processes and ends. -/
theorem elsewhere {f : Link → Link}
    (h : ∀ l, f (carrying n [] l) = carrying n [] (f l) := by intro l; rfl)
    (hp : ∀ l, (f l).processes = l.processes := by intro l; rfl)
    (hn : ∀ l, (f l).peers = l.peers := by intro l; rfl) : Aloof n (Act.change f) :=
  change h hp fun l hl p => by
    rw [hn l]
    exact hl p

end Aloof

/-! ### Futures and tokens -/

variable {p : PeerId}

instance aloof_onLoop (f : Loop Reply Callback Job → Loop Reply Callback Job) :
    Aloof n (onLoop f) := .elsewhere

instance aloof_soon (j : Job) : Aloof n (soon j) := aloof_onLoop _

instance aloof_whenDone (f : FutureId) (k : Callback) : Aloof n (whenDone f k) := aloof_onLoop _

instance aloof_newFuture : Aloof n newFuture := by
  have (loop : Loop Reply Callback Job) : Aloof n (Act.change fun l : Link => { l with loop }) :=
    .elsewhere
  exact .read (fun _ => rfl) fun l _ => Aloof.bind _ _

instance aloof_settleOpen (f : FutureId) (e : Ending Reply) : Aloof n (settleOpen f e) := by
  refine .read (fun _ => rfl) fun l _ => ?_
  cases l.loop.settle? .call f e with
  | none => exact Aloof.pure false
  | some loop =>
    have : Aloof n (Act.change fun l : Link => { l with loop }) := .elsewhere
    exact Aloof.bind _ _

instance aloof_settle (f : FutureId) (e : Ending Reply) : Aloof n (settle f e) := by
  unfold settle
  infer_instance

instance aloof_isDone (f : FutureId) : Aloof n (isDone f) :=
  .read (fun _ => rfl) fun _ _ => inferInstance

instance aloof_setToken (t : TokenId) (token : Token Notice) : Aloof n (setToken t token) :=
  .elsewhere

/-! ### Ends -/

/-- An end may be asked for: it does not log under the name of an error stream. -/
theorem aloof_peer {α : Type} {k : Peer → Act Link α} (hk : ∀ x : Peer, Foreign x.logger →
    Aloof n (k x)) : Aloof n (peer p >>= k) :=
  .read (fun _ => rfl) fun _ hl => hk _ ⟨hl p⟩

instance aloof_log (level : Level) (text : String) :
    Aloof n (do Act.log (← peer p).logger level text) := aloof_peer fun _ _ => inferInstance

instance aloof_logBuilt (level : Level) (text : Unit → Except Failure String) :
    Aloof n (do Act.logBuilt (← peer p).logger level text) := aloof_peer fun _ _ => inferInstance

/-- An end may be changed as long as it goes on logging under its name. -/
theorem aloof_onPeer {f : Peer → Peer} (hf : ∀ x, (f x).logger = x.logger) :
    Aloof n (onPeer p f) :=
  .change (fun _ => rfl) (fun _ => rfl) fun _ hl => hl.modify p hf

/-! ### Writing -/

instance aloof_noticed (m : ProcessId) (message : Value) : Aloof n (noticed m message) := by
  unfold noticed
  split
  · refine .read (fun _ => rfl) fun l _ => ?_
    split <;> infer_instance
  · infer_instance

instance aloof_write (message : Value) : Aloof n (write p message) := by
  have (f : Frame) : Aloof n (Act.change fun l : Link =>
      { l with written := l.written ++ [f] }) := .elsewhere
  have hwrite (o : Outlet) : Aloof n (do
      let frame ← Act.ofExcept ((Frame.of o.process message).mapError .unwritable)
      Act.logBuilt Peer.dataLogger .trace fun _ => .ok ("JSON send: " ++ Text.quote frame.body)
      Act.change fun l : Link => { l with written := l.written ++ [frame] }
      if let some n := o.process then noticed n message) := by
    refine .andThen fun f => .andThen fun _ => .andThen fun _ => ?_
    split <;> infer_instance
  refine aloof_peer fun x _ => ?_
  split
  · refine .read (fun l => ?_) fun l _ => ?_
    · -- Whether a process takes what is written does not depend on its error stream.
      have hclosing (m : ProcessId) := getD_carrying Process.closing (fun _ _ => rfl) n m [] l
      simp only [hclosing]
    · exact Aloof.ite _ _ _
  · infer_instance

instance aloof_orWarn (a : Act Link Unit) (what : String) [Aloof n a] :
    Aloof n (orWarn p a what) := by
  unfold orWarn
  refine .andThen fun r => ?_
  split
  · infer_instance
  · exact Aloof.ite _ _ _

instance aloof_sendError (id code message data : Value) :
    Aloof n (sendError p id code message data) := aloof_orWarn _ _

/-- **A notification** that is sent. -/
instance aloof_notify (method : String) (params : Value) : Aloof n (notify p method params) :=
  aloof_write _

instance aloof_takeBack (id : Nat) : Aloof n (takeBack p id) := by
  refine aloof_peer fun _ _ => ?_
  have := aloof_peer (n := n) (p := p) (k := fun x => do
    Act.log x.logger .debug s!"request {id} was cancelled, sending {cancelMethod}"
    orWarn p (notify p cancelMethod (Value.table [("id", .int id)]))
      s!"Can't send {cancelMethod} for request {id}") fun _ _ => inferInstance
  exact Aloof.ite _ _ _

instance aloof_noteCancelled (method : String) (f : FutureId) :
    Aloof n (noteCancelled method f) := by
  have : Aloof n (Act.change fun l : Link => { l with recorder := { l.recorder with
      notes := l.recorder.notes ++ [{ kind := "cancel", method := some method }] } }) := .elsewhere
  unfold noteCancelled
  refine .andThen fun _ => .read (fun _ => rfl) fun l _ => ?_
  infer_instance

instance aloof_heed (x : Notice) : Aloof n (heed x) := by
  unfold heed
  split <;> infer_instance

instance aloof_call (a : Act Link Unit) [Aloof n a] : Aloof n (Token.call a) := by
  unfold Token.call
  refine .andThen fun r => ?_
  split <;> infer_instance

/-- **A token** that is cancelled. -/
instance aloof_cancelToken (t : TokenId) : Aloof n (cancelToken t) :=
  .read (fun _ => by simp only [carrying]) fun _ _ => inferInstance

instance aloof_watchUntil (f : FutureId) (t : TokenId) (x : Notice) :
    Aloof n (watchUntil f t x) := by
  have hwatch : Aloof n (watch t x) := by
    unfold watch
    refine .read (fun l => ?_) fun l _ => ?_
    · have htokens : (carrying n [] l).tokens = l.tokens := rfl
      simp only [htokens]
    · infer_instance
  unfold watchUntil
  infer_instance

/-- **A request** that is sent. -/
instance aloof_sendRequest (method : String) (params : Value) (target : Wire.Target)
    (token : Option TokenId) : Aloof n (sendRequest p method params target token) := by
  unfold sendRequest
  refine .andThen fun f => aloof_peer fun x _ => ?_
  have hnumber : Aloof n (onPeer p fun e => { e with lastId := x.lastId + 1 }) :=
    aloof_onPeer fun _ => rfl
  have hpending : Aloof n (onPeer p fun e => { e with
      pending := e.pending ++ [{ id := x.lastId + 1, method, future := f, target }] }) :=
    aloof_onPeer fun _ => rfl
  refine .andThen fun _ => .andThen fun _ => .andThen fun _ => ?_
  cases token <;> dsimp only <;> infer_instance

/-! ### Reading -/

instance aloof_conclude (message : Value) (r : PendingRequest) :
    Aloof n (conclude p message r) := by
  unfold conclude
  refine .andThen fun done => ?_
  split
  · infer_instance
  · refine .andThen fun e => ?_
    split
    · exact aloof_peer fun _ _ => inferInstance
    · infer_instance

instance aloof_receiveResponse (message : Value) : Aloof n (receiveResponse p message) := by
  rw [receiveResponse_eq]
  refine aloof_peer fun x _ => ?_
  split
  · infer_instance
  · rename_i r _
    have : Aloof n (onPeer p (without r)) := aloof_onPeer fun _ => rfl
    infer_instance

instance aloof_perform (r : Reaction) (params : Wire) : Aloof n (perform p r params) := by
  have (method : String) : Aloof n (Act.change fun l : Link =>
      { l with calls := l.calls ++ [(method, params.toValue)] }) := .elsewhere
  unfold perform
  split
  · rename_i cancels _
    cases cancels <;> infer_instance
  · infer_instance
  · infer_instance
  · refine aloof_peer fun x _ => .andThen fun _ => .andThen fun w => ?_
    have (d : Wire) (r : PUnit) : Aloof n (do
        Act.log (← peer p).logger .trace (diagnosticText (params.get "uri").asText d)
        pure (ForInStep.yield r)) := aloof_peer fun _ _ => inferInstance
    infer_instance
  · infer_instance
  · exact aloof_peer fun _ _ => inferInstance
  · infer_instance

instance aloof_handle (h : Handler) (params : Value) : Aloof n (handle p h params) := by
  unfold handle
  infer_instance

instance aloof_unhandled (method : Value) (id : Option Value) :
    Aloof n (unhandled p method id) := by
  unfold unhandled
  split <;> infer_instance

instance aloof_receiveCall (method message : Value) : Aloof n (receiveCall p method message) := by
  unfold receiveCall
  refine aloof_peer fun x _ => .andThen fun h => ?_
  generalize message.get? "id" = id
  split
  · infer_instance
  · refine .andThen fun r => ?_
    have hfailed (f : Failure) (a : Act Link Unit) [Aloof n a] :
        Aloof n (do Act.logFailure (← peer p).logger f; a) := aloof_peer fun _ _ => inferInstance
    cases id with
    | none => split <;> dsimp only <;> infer_instance
    | some id => split <;> dsimp only <;> infer_instance

instance aloof_receiveMessage (message : Value) : Aloof n (receiveMessage p message) := by
  unfold receiveMessage
  have hread : Aloof n (match message.get? "method" with
      | some method => receiveCall p method message
      | none => receiveResponse p message) := by
    split <;> infer_instance
  have hrefused : Aloof n (do
      Act.logBuilt (← peer p).logger .error fun _ =>
        .ok ("Invalid JSON-RPC message: " ++ message.shown)
      sendError p .null (.int invalidRequest) (.str "Invalid JSON-RPC message.")) :=
    aloof_peer fun _ _ => inferInstance
  exact Aloof.ite _ _ _

instance aloof_readBodyOn (m : Machine) (body : Bytes) (charset : String) :
    Aloof n (readBodyOn m body charset) := by
  unfold readBodyOn
  infer_instance

instance aloof_readBody (body : Bytes) (charset : String) : Aloof n (readBody body charset) := by
  have hmachine (l : Link) : (carrying n [] l).machine = l.machine := rfl
  unfold readBody
  refine .read (fun l => ?_) fun l _ => aloof_readBodyOn l.machine body charset
  rw [hmachine]

instance aloof_receiveBody (body : Bytes) (charset : String) :
    Aloof n (receiveBody p body charset) := by
  unfold receiveBody
  refine .andThen fun r => ?_
  split
  · infer_instance
  · infer_instance
  · infer_instance
  · exact aloof_peer fun _ _ => inferInstance

instance aloof_onPeer_buffer (b : Bytes) : Aloof n (onPeer p fun e => { e with buffer := b }) :=
  aloof_onPeer fun _ => rfl

/-- Taking messages off a buffer, one after the other. -/
instance aloof_drain (buffer : Bytes) : Aloof n (drain p buffer) := by
  fun_induction drain p buffer with
  | case1 => infer_instance
  | case2 => infer_instance
  | case3 _ _ _ _ ih => exact aloof_peer fun _ _ => inferInstance
  | case4 => infer_instance

/-- **Whatever comes in.** -/
instance aloof_receive (bytes : Bytes) : Aloof n (receive p bytes) :=
  aloof_peer fun _ _ => inferInstance

/-- **A connection** that is lost. -/
instance aloof_connectionLost (reason : Option String) : Aloof n (connectionLost p reason) := by
  refine aloof_peer fun x _ => ?_
  have : Aloof n (onPeer p fun e => { e with outlet := none, pending := [] }) :=
    aloof_onPeer fun _ => rfl
  infer_instance

end EditorBridge.Link
