/-
What happens to the requests of an end.

Four things do: a request is sent or refused, a response comes in, the owner of a future gives it up,
and the connection is lost.  Each of them is described here once, with all that it does to
the numbers of the end, to the requests that wait, to the futures and to the wire.

A request that cannot be written uses up a number and a future that nobody gets to know, and
nothing else.  A request that is written can not fail any more.  A response takes its request
away from those that wait and ends its future; one that no request waits for does nothing.
-/
import EditorBridge.Proofs.Rpc.Aside
import EditorBridge.Proofs.Rpc.Buffer

namespace EditorBridge.Link

open Act (Ends Keeps)

variable {p : PeerId} {l l' l'' : Link} {r : PendingRequest}

/-! ### Changing an end -/

/-- The link with one of its ends changed. -/
def touched (p : PeerId) (f : Peer → Peer) (l : Link) : Link :=
  { l with peers := l.peers.modify p f }

theorem peer_touched (f : Peer → Peer) (hp : p < l.peers.size) :
    (touched p f l).peers.getD p default = f (l.peers.getD p default) := by
  simp [touched, hp, Array.getElem_modify]

theorem lastId_touched (f : Peer → Peer) (hp : p < l.peers.size) :
    (touched p f l).lastId p = (f (l.peers.getD p default)).lastId :=
  congrArg Peer.lastId (peer_touched f hp)

theorem pending_touched (f : Peer → Peer) (hp : p < l.peers.size) :
    (touched p f l).pending p = (f (l.peers.getD p default)).pending :=
  congrArg Peer.pending (peer_touched f hp)

theorem size_touched (f : Peer → Peer) : (touched p f l).peers.size = l.peers.size :=
  Array.size_modify ..

/-! ### Sending -/

/-- A number was given to a request. -/
structure Numbered (p : PeerId) (l l' : Link) : Prop where
  size : l.peers.size ≤ l'.peers.size
  lastId : l'.lastId p = l.lastId p + 1
  futures : l.loop.Rests l'.loop

/-- A request was sent: it is on the wire, and waits for its response with a new future. -/
structure Issued (p : PeerId) (r : PendingRequest) (l l' : Link) : Prop extends
    Numbered p l l' where
  id : r.id = l.lastId p + 1
  pending : l'.pending p = l.pending p ++ [r]
  wire : l'.requestIds = l.requestIds ++ [.int r.id]
  future : r.future = l.loop.futures.size
  made : r.future < l'.loop.futures.size
  unended : l'.loop.ending? r.future = none

/-- A request was refused: it does not wait, and no token knows of it. -/
structure Withheld (p : PeerId) (l l' : Link) : Prop extends Numbered p l l' where
  pending : l'.pending p = l.pending p
  wire : l'.requestIds = l.requestIds
  tokens : l'.tokens = l.tokens

theorem Issued.aside (h : Issued p r l l') (h' : Aside p l' l'') : Issued p r l l'' where
  size := Nat.le_trans h.size h'.size
  lastId := h'.lastId.trans h.lastId
  futures := h.futures.trans h'.futures
  id := h.id
  pending := h'.pending.trans h.pending
  wire := h'.wire.trans h.wire
  future := h.future
  made := Nat.lt_of_lt_of_le h.made h'.futures.size
  unended := (h'.futures.ending _ h.made).trans h.unended

section Sending

variable {method : String} {params : Value} {target : Wire.Target} {token : Option TokenId}

/-- The link once a number has been given to a request. -/
def numbering (p : PeerId) (l : Link) : Link :=
  touched p (fun e => { e with lastId := l.lastId p + 1 }) { l with loop := l.loop.create.2 }

theorem numbered_numbering (hp : p < l.peers.size) : Numbered p l (l.numbering p) where
  size := Nat.le_of_eq (size_touched _).symm
  lastId := lastId_touched _ hp
  futures := Loop.rests_create l.loop

theorem pending_numbering (hp : p < l.peers.size) : (l.numbering p).pending p = l.pending p :=
  pending_touched _ hp

/-- The link once a request has been written and waits. -/
def issuing (p : PeerId) (r : PendingRequest) (f : Frame) (lo : Loop Reply Callback Job)
    (l : Link) : Link :=
  touched p (fun e => { e with pending := e.pending ++ [r] })
    { l.numbering p with written := l.written ++ [f], loop := lo }

theorem issued_issuing {f : Frame} {lo : Loop Reply Callback Job} (hp : p < l.peers.size)
    (hm : f.message = request (l.lastId p + 1) method params)
    (hlo : lo.futures = (l.numbering p).loop.futures) :
    Issued p ⟨l.lastId p + 1, method, l.loop.futures.size, target⟩ l
      (l.issuing p ⟨l.lastId p + 1, method, l.loop.futures.size, target⟩ f lo) := by
  have hn := numbered_numbering hp
  have hp' : p < (l.numbering p).peers.size := Nat.lt_of_lt_of_le hp hn.size
  have hrests : l.loop.Rests lo := hn.futures.trans (.of_futures hlo)
  constructor
  · refine ⟨?_, ?_, hrests⟩
    · exact Nat.le_trans hn.size (Nat.le_of_eq (size_touched _).symm)
    · exact (lastId_touched _ hp').trans hn.lastId
  · rfl
  · refine (pending_touched _ hp').trans ?_
    exact congrArg (· ++ _) (pending_numbering hp)
  · show List.filterMap _ (l.written ++ [f]) = _
    rw [List.filterMap_append]
    simp [requestIds, hm, requestId?_request]
  · rfl
  · show _ < lo.futures.size
    simp [hlo, numbering, touched, Loop.create]
  · show lo.ending? _ = none
    simp [Loop.ending?, hlo, numbering, touched, Loop.create]

theorem watchUntil_aside (f : FutureId) (t : TokenId) (id : Nat) (l : Link) :
    Ends (watchUntil f t (.request p id)) l fun x l' => x = .ok () ∧ Aside p l l' :=
  (watchUntil_ok f t id).and ((aside_watchUntil f t p id).ends l)

/-- **Sending a request**: it is refused when it cannot be written, and else it waits. -/
theorem sendRequest_issues (hp : p < l.peers.size) :
    Ends (sendRequest p method params target token) l fun r l' => match r with
      | .ok f => Issued p ⟨l.lastId p + 1, method, f, target⟩ l l'
      | .error _ => Withheld p l l' := by
  have hn := numbered_numbering hp
  unfold sendRequest
  refine .bind (newFuture_ends.mono fun x l₁ h₁ => ?_)
  obtain ⟨rfl, rfl⟩ := h₁
  refine .read (.change_bind ?_)
  refine .bind ((write_ends p _ (l.numbering p)).mono fun x l₂ h₂ => ?_)
  cases h₂ with
  | unconnected => exact ⟨hn, pending_numbering hp, rfl, rfl⟩
  | unwritable => exact ⟨hn, pending_numbering hp, rfl, rfl⟩
  | @frame o f lo _ _ hm hlo =>
    have hissued : Issued p ⟨l.lastId p + 1, method, l.loop.futures.size, target⟩ l
        (l.issuing p ⟨l.lastId p + 1, method, l.loop.futures.size, target⟩ f lo) :=
      issued_issuing hp hm hlo
    refine .change_bind ?_
    cases token with
    | none => exact .pure hissued
    | some t =>
      refine .bind ((watchUntil_aside l.loop.futures.size t (l.lastId p + 1) _).mono
        fun x l₃ h₃ => ?_)
      obtain ⟨rfl, h₃⟩ := h₃
      exact .pure (hissued.aside h₃)

end Sending

/-! ### Responses -/

/-- A response whose id is a number or a text and that tells of an error, if at all, by a table. -/
structure IsResponse (message : Value) : Prop where
  table : ∃ entries, message = .dict entries
  version : (message.get? "jsonrpc").any (·.same version) = true
  call : message.get? "method" = none
  id : (∃ n, message.get? "id" = some (.int n)) ∨ ∃ s, message.get? "id" = some (.str s)
  error : ((message.get? "error").getD .null = .null) ∨
    ∃ entries, message.get? "error" = some (.dict entries)

/-- Whether a response carries the id of a request. -/
def respondsTo (message : Value) (r : PendingRequest) : Bool :=
  match message.get? "id" with
  | some (.int n) => (r.id : Int) = n
  | _ => false

theorem respondsTo_iff {message : Value} :
    respondsTo message r = true ↔ message.get? "id" = some (.int r.id) := by
  unfold respondsTo
  split
  · rename_i n hn
    rw [hn]
    simp [eq_comm]
  · rename_i hn
    refine ⟨nofun, fun h => absurd h (hn _)⟩

namespace IsResponse

variable {message : Value}

theorem receiveMessage_eq (h : IsResponse message) (p : PeerId) :
    receiveMessage p message = receiveResponse p message := by
  obtain ⟨entries, rfl⟩ := h.table
  unfold receiveMessage
  rw [h.call]
  simp [h.version]

/-- Only a request whose id a response carries is answered by it. -/
theorem answered?_eq (h : IsResponse message) (e : Peer) :
    answered? message e = e.pending.find? (respondsTo message) := by
  unfold answered? respondsTo
  rcases h.id with ⟨n, hn⟩ | ⟨s, hs⟩
  · simp [hn, requestNumber?]
  · have hnone : e.pending.find? (fun _ => false) = none := by simp
    simp [hs, requestNumber?, hnone]

end IsResponse

/-- How a response ends the request that it answers. -/
def answerTo (target : Wire.Target) (message : Value) : Ending Reply :=
  match endingOf target message with
  | .ok e => e
  | .error f => .failed f

/-- How a request ends with a response: with the result as it is wanted, with what keeps the result
from being that, or with the error that the response tells of. -/
structure Answers (target : Wire.Target) (message : Value) (e : Ending Reply) : Prop where
  result : ∀ w, (message.get? "error").getD .null = .null →
    Wire.read target ((message.get? "result").getD .null) = .ok w → e = .result (.wire w)
  misfit : ∀ x, (message.get? "error").getD .null = .null →
    Wire.read target ((message.get? "result").getD .null) = .error x → e = .failed (.wire x)
  error : ∀ entries, message.get? "error" = some (.dict entries) →
    e = .failed (.remote (((Value.dict entries).get? "code").getD (.int internalError))
      (((Value.dict entries).get? "message").getD .null)
      (((Value.dict entries).get? "data").getD .null))

theorem answers_answerTo (target : Wire.Target) (message : Value) :
    Answers target message (answerTo target message) := by
  refine ⟨fun w hnull hread => ?_, fun x hnull hread => ?_, fun entries herror => ?_⟩
  · simp only [answerTo, endingOf, hnull, Value.isNull, if_true, hread]
    rfl
  · simp only [answerTo, endingOf, hnull, Value.isNull, if_true, hread]
    rfl
  · simp only [answerTo, endingOf, herror, Option.getD_some, Value.isNull]
    rfl

/-- A response that tells of an error, if at all, by a table ends a request. -/
theorem exists_endingOf {message : Value} (h : (message.get? "error").getD .null = .null ∨
    ∃ entries, message.get? "error" = some (.dict entries)) (target : Wire.Target) :
    ∃ e, endingOf target message = .ok e := by
  unfold endingOf
  rcases h with hnull | ⟨entries, herr⟩
  · simp only [hnull, Value.isNull]
    exact ⟨_, rfl⟩
  · simp only [herr, Option.getD_some, Value.isNull]
    exact ⟨_, rfl⟩

/-- A response says how its request ends. -/
theorem IsResponse.endingOf_eq {message : Value} (h : IsResponse message) (target : Wire.Target) :
    endingOf target message = .ok (answerTo target message) := by
  obtain ⟨e, he⟩ := exists_endingOf h.error target
  rw [answerTo, he]

theorem settle_settles (f : FutureId) (e : Ending Reply) (l : Link) :
    Ends (settle f e) l fun _ => l.Settling [f] e := by
  refine .bind ((settleOpen_settles f e l).mono fun x l₁ h => ?_)
  obtain ⟨⟨b, rfl⟩, h⟩ := h
  show Ends (if _ then _ else _) l₁ _
  split
  · exact .throw h
  · exact .pure h

/-- A request ends as its response says, unless its future had ended before. -/
theorem conclude_settles {message : Value} {e : Ending Reply}
    (he : endingOf r.target message = .ok e) (l : Link) :
    Ends (conclude p message r) l fun _ => l.Settling [r.future] e := by
  unfold conclude
  refine .read ?_
  split
  · rename_i hdone
    obtain ⟨e₀, he₀⟩ := Option.isSome_iff_exists.1 hdone
    exact .read (.log ⟨l.loop, Loop.settles_of_done e he₀, rfl⟩)
  · rw [he]
    refine .bind (.pure ?_)
    have hsettle := settle_settles r.future e l
    dsimp only
    split
    · exact .read (.bind (.logFailure hsettle))
    · exact hsettle

/-- **Taking a response**: nothing happens, or a request does not wait any more and ends. -/
theorem receiveMessage_settles {message : Value} (h : IsResponse message) (l : Link) :
    Ends (receiveMessage p message) l fun _ l' =>
      match (l.pending p).find? (respondsTo message) with
      | none => l' = l
      | some r => (touched p (without r) l).Settling [r.future] (answerTo r.target message) l' := by
  rw [h.receiveMessage_eq, receiveResponse_eq]
  refine .read ?_
  rw [h.answered?_eq]
  show Ends (match List.find? (respondsTo message) (l.pending p) with | none => _ | some r => _) l _
  cases hfind : (l.pending p).find? (respondsTo message) with
  | none => exact .read (.logBuilt rfl nofun)
  | some r => exact .change_bind (conclude_settles (h.endingOf_eq r.target) _)

/-! ### Losing the connection -/

/-- An end that has lost its connection. -/
def cutOff (e : Peer) : Peer := { e with outlet := none, pending := [] }

/-- **Losing the connection** ends whatever waits. -/
theorem connectionLost_settles (reason : Option String) (l : Link) :
    Ends (connectionLost p reason) l fun _ l' =>
      (touched p cutOff l).Settling ((l.pending p).map (·.future))
        (.failed (.connectionLost reason)) l' := by
  unfold connectionLost
  refine .read (.change_bind ?_)
  refine .bind ((settleAll_settles _ _ _).mono fun x l' h => ?_)
  obtain ⟨⟨b, rfl⟩, h⟩ := h
  exact .pure h

end EditorBridge.Link
