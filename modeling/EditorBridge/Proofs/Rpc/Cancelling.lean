/-
Every request is taken back once at most.

Requests are sent with and without tokens, tokens are cancelled, also more than once and before
they are used, responses come in, owners give futures up, the connection is lost, and the loop
gets to the callbacks of futures whenever it likes.  What `Watched` says holds after every
one of these moves, and so after a run of them.

A move takes back only requests that wait, or the one that it sends, and it adds no other
request to those that wait.  So a request that does not wait any more is never taken back
again, and once the connection is lost nothing is.
-/
import EditorBridge.Proofs.Rpc.Watching

namespace EditorBridge.Link

open Act (Ends Gives Leaves)

variable {p : PeerId} {l l' l'' : Link} {r : PendingRequest} {w : Watch}
  {rs : List PendingRequest} {ws : List Watch}

/-! ### Answers -/

/-- A response, with whatever id, that tells of an error, if at all, by a table. -/
structure IsAnswer (message : Value) : Prop where
  table : ∃ entries, message = .dict entries
  version : (message.get? "jsonrpc").any (·.same version) = true
  call : message.get? "method" = none
  error : ((message.get? "error").getD .null = .null) ∨
    ∃ entries, message.get? "error" = some (.dict entries)

/-- Whether a response is taken for that of a request. -/
def isFor (message : Value) (r : PendingRequest) : Bool :=
  requestNumber? ((message.get? "id").getD .null) = some (r.id : Int)

namespace IsAnswer

variable {message : Value}

theorem receiveMessage_eq (h : IsAnswer message) (p : PeerId) :
    receiveMessage p message = receiveResponse p message := by
  obtain ⟨entries, rfl⟩ := h.table
  unfold receiveMessage
  rw [h.call]
  simp [h.version]

theorem answered?_eq (message : Value) (e : Peer) :
    answered? message e = e.pending.find? (isFor message) := by
  unfold answered? isFor
  cases requestNumber? ((message.get? "id").getD .null) with
  | none =>
    have hnobody : e.pending.find? (fun _ => false) = none := by simp
    simpa using hnobody.symm
  | some n => simp [eq_comm]

theorem endingOf_eq (h : IsAnswer message) (target : Wire.Target) :
    endingOf target message = .ok (answerTo target message) := by
  obtain ⟨e, he⟩ := exists_endingOf h.error target
  rw [answerTo, he]

/-- **Taking an answer**: nothing happens, or a request does not wait any more and ends. -/
theorem receiveMessage_settles (h : IsAnswer message) (l : Link) :
    Ends (receiveMessage p message) l fun _ l' =>
      match (l.pending p).find? (isFor message) with
      | none => l' = l
      | some r => (touched p (without r) l).Settling [r.future] (answerTo r.target message) l' := by
  rw [h.receiveMessage_eq, receiveResponse_eq]
  refine .read ?_
  rw [answered?_eq]
  show Ends (match List.find? (isFor message) (l.pending p) with | none => _ | some r => _) l _
  cases hfind : (l.pending p).find? (isFor message) with
  | none => exact .read (.logBuilt rfl nofun)
  | some r => exact .change_bind (conclude_settles (h.endingOf_eq r.target) _)

end IsAnswer

/-! ### Moves -/

/-- Something that happens to requests that can be taken back. -/
inductive Move where
  /-- A request is sent, maybe with a token. -/
  | sent (r : PendingRequest) (token : Option TokenId)
  /-- A request is not sent. -/
  | refused (f : Failure)
  /-- A response comes in. -/
  | answered (message : Value)
  /-- The owner of a future does not wait any more. -/
  | cancelled (f : FutureId)
  /-- The connection is lost. -/
  | lost (reason : Option String)
  /-- A token is cancelled. -/
  | revoked (t : TokenId)
  /-- The loop gets to a callback, which takes a notice off a token. -/
  | called (t : TokenId) (n : Notice) (f : FutureId)

namespace Move

/-- The request that is sent. -/
def request? : Move → Option PendingRequest
  | sent r _ => some r
  | _ => none

/-- The request that is sent with a token. -/
def watch? : Move → Option Watch
  | sent r (some token) => some ⟨r, token⟩
  | _ => none

/-- The requests that were sent. -/
def requests (xs : List Move) : List PendingRequest := xs.filterMap request?

/-- The requests that were sent with tokens. -/
def watches (xs : List Move) : List Watch := xs.filterMap watch?

/-- What can happen, and what it leaves.  The queue may have its callbacks in any place. -/
inductive Happens (p : PeerId) (l : Link) : Move → Link → Prop
  | sent {method : String} {params : Value} {target : Wire.Target} {token : Option TokenId}
    {f : FutureId} {l' : Link} (ht : ∀ t, token = some t → t < l.tokens.size)
    (h : Gives (sendRequest p method params target token) l (.ok f) l') :
    Happens p l (sent ⟨l.lastId p + 1, method, f, target⟩ token) l'
  | refused {method : String} {params : Value} {target : Wire.Target} {token : Option TokenId}
    {f : Failure} {l' : Link} (ht : ∀ t, token = some t → t < l.tokens.size)
    (h : Gives (sendRequest p method params target token) l (.error f) l') :
    Happens p l (refused f) l'
  | answered {message : Value} {l' : Link} (hm : IsAnswer message)
    (h : Leaves (receiveMessage p message) l l') : Happens p l (answered message) l'
  | cancelled {f : FutureId} {l' : Link} (h : Leaves (settleOpen f .cancelled) l l') :
    Happens p l (cancelled f) l'
  | lost {reason : Option String} {l' : Link} (h : Leaves (connectionLost p reason) l l') :
    Happens p l (lost reason) l'
  | revoked {t : TokenId} {l' : Link} (h : Leaves (cancelToken t) l l') : Happens p l (revoked t) l'
  | called {before after : List Job} {t : TokenId} {n : Notice} {f : FutureId} {b b' : Workbench}
    (hready : l.loop.ready = before ++ .call (.unregister t n) f :: after)
    (hb : b.link = { l with loop := { l.loop with ready := before ++ after } })
    (h : Leaves (Workbench.doJob (.call (.unregister t n) f)) b b') :
    Happens p l (called t n f) b'.link

/-- A run of moves: what happened, between two links. -/
inductive Run (p : PeerId) : Link → List Move → Link → Prop
  | done {l : Link} : Run p l [] l
  | next {l l₁ l' : Link} {x : Move} {xs : List Move} (hx : Happens p l x l₁) (h : Run p l₁ xs l') :
    Run p l (x :: xs) l'

end Move

open Move (Happens Run requests watches)

/-- What has to be shown of every move. -/
structure Moved (p : PeerId) (rs : List PendingRequest) (ws : List Watch) (l : Link) (x : Move)
    (l' : Link) : Prop where
  watched : Watched p (rs ++ x.request?.toList) (ws ++ x.watch?.toList) l'
  /-- Nobody waits who did not wait before and was not sent. -/
  waits : ∀ r ∈ l'.pending p, r ∈ l.pending p ∨ x.request? = some r
  /-- Nobody else is taken back. -/
  taken : ∃ ids : List Nat, l'.withdrawals = l.withdrawals ++ ids.map Int.ofNat ∧
    ∀ id ∈ ids, ∃ r, (r ∈ l.pending p ∨ x.request? = some r) ∧ r.id = id
  /-- Nothing is sent without a connection, and none is made. -/
  shut : ¬l.Open p → x.request? = none ∧ ¬l'.Open p

/-! ### Sending -/

/-- Only the outlets and the processes matter to a connection. -/
theorem open_touched {f : Peer → Peer} (hf : ∀ e, (f e).outlet = e.outlet) :
    (touched p f l).Open p ↔ l.Open p := by
  have houtlet : (touched p f l).outlet p = l.outlet p := getD_modify Peer.outlet (hf _) p
  exact exists_congr fun o => and_congr (iff_of_eq (congrArg (· = some o) houtlet)) .rfl

namespace Watched

/-- A move that only ends futures takes nothing back. -/
theorem silent {x : Move} (h : Watched p rs ws l) (hx : x.request? = none) (hw : x.watch? = none)
    (hd : Defers l l') (hk : Kept p rs l') (hs : l'.said = l.said)
    (hsub : ∀ r ∈ l'.pending p, r ∈ l.pending p)
    (ho : ∀ r ∈ rs, l'.loop.ending? r.future = none → l'.Open p) (hshut : l'.Open p → l.Open p) :
    Moved p rs ws l x l' := by
  have htold : ∀ r ∈ rs, .int r.id ∈ l'.requestIds := fun r hr => by
    rw [requestIds_eq, hs, ← requestIds_eq]
    exact h.told r hr
  have hsaid : l'.said = l.said ++ [] := hs.trans (List.append_nil _).symm
  have hwatched := h.deferred hd hk (fun _ => id) htold hsaid (List.forall_mem_nil _) ho
  refine ⟨?_, fun r hr => .inl (hsub r hr), ⟨[], ?_, nofun⟩, fun hno => ⟨hx, fun ho' => ?_⟩⟩
  · rw [hx, hw]
    simpa using hwatched
  · simp [withdrawals, hs]
  · exact hno (hshut ho')

end Watched

/-! ### Sending -/

theorem defers_numbering (p : PeerId) (l : Link) : Defers l (l.numbering p) :=
  ⟨l.loop.defers_create, rfl⟩

theorem open_numbering : (l.numbering p).Open p ↔ l.Open p := open_touched fun _ => rfl

/-- A request was written and waits, and no token knows of it yet. -/
structure Posted (p : PeerId) (r : PendingRequest) (l l' : Link) : Prop extends
    Issued p r l l' where
  defers : Defers l l'
  said : ∃ method params, l'.said = l.said ++ [request r.id method params]
  opened : l.Open p ∧ l'.Open p

namespace Posted

theorem withdrawals (hr : Posted p r l l') : l'.withdrawals = l.withdrawals := by
  obtain ⟨method, params, hsaid⟩ := hr.said
  simp [Link.withdrawals, hsaid, withdrawal?_request]

theorem watched (hr : Posted p r l l') (h : Watched p rs ws l) : Watched p (rs ++ [r]) ws l' := by
  obtain ⟨method, params, hsaid⟩ := hr.said
  refine h.deferred hr.defers (h.kept.issued hr.toIssued) (List.subset_append_left rs [r]) ?_ hsaid
    ?_ fun _ _ _ => hr.opened.2
  · rw [hr.wire]
    refine List.forall_mem_append.2 ⟨fun r' hr' => List.mem_append_left _ (h.told r' hr'), ?_⟩
    simp
  · simp [withdrawal?_request]

/-- It may get a token. -/
theorem joins (hr : Posted p r l l') (h : Watched p rs ws l) {t : TokenId}
    (ht : t < l.tokens.size) : Watched.Joins (rs ++ [r]) ws l' ⟨r, t⟩ where
  sent := by simp
  new hmem := by
    obtain ⟨w, hw, rfl⟩ := List.mem_map.1 hmem
    have hle := h.kept.bounded _ (h.sent w hw)
    have hid := hr.id
    omega
  token := hr.defers.tokens ▸ ht
  unended := hr.unended

/-- It may be taken back before the sender goes on. -/
theorem moved {token : Option TokenId} (hr : Posted p r l l') (hp : l''.pending p = l'.pending p)
    (h : Watched p (rs ++ [r]) (ws ++ (Move.sent r token).watch?.toList) l'')
    (ht : ∃ ids : List Nat, ids.Sublist [r.id] ∧ l''.said = l'.said ++ ids.map withdrawal) :
    Moved p rs ws l (.sent r token) l'' := by
  obtain ⟨ids, hids, hsaid⟩ := ht
  refine ⟨h, fun r' hr' => ?_, ⟨ids, ?_, fun id hid => ?_⟩, fun hno => absurd hr.opened.1 hno⟩
  · rw [hp, hr.pending] at hr'
    simpa [Move.request?, eq_comm] using hr'
  · rw [← hr.withdrawals]
    simp only [Link.withdrawals, hsaid, List.filterMap_append, Retracted.withdrawals_map]
  · exact ⟨r, .inr rfl, (List.mem_singleton.1 (hids.subset hid)).symm⟩

end Posted

section Sending

variable {method : String} {params : Value} {target : Wire.Target} {token : Option TokenId}

theorem posted_issuing {o : Outlet} {f : Frame} {lo : Loop Reply Callback Job}
    (hp : p < l.peers.size) (ho : (l.numbering p).Connected p o)
    (hm : f.message = request (l.lastId p + 1) method params)
    (hlo : lo.futures = (l.numbering p).loop.futures) (hd : (l.numbering p).loop.Defers lo) :
    Posted p ⟨l.lastId p + 1, method, l.loop.futures.size, target⟩ l
      (l.issuing p ⟨l.lastId p + 1, method, l.loop.futures.size, target⟩ f lo) where
  toIssued := issued_issuing hp hm hlo
  defers := (defers_numbering p l).trans ⟨hd, rfl⟩
  said := by
    refine ⟨method, params, ?_⟩
    show (l.written ++ [f]).map (·.message) = _
    simp [said, hm]
  opened := by
    have hopen : l.Open p := open_numbering.1 ⟨o, ho⟩
    exact ⟨hopen, o, (getD_modify Peer.outlet rfl p).trans ho.1, ho.2⟩

/-- **Sending a request** is a move. -/
theorem Watched.sending (h : Watched p rs ws l) (ht : ∀ t, token = some t → t < l.tokens.size) :
    Ends (sendRequest p method params target token) l fun x l' => match x with
      | .ok f => Moved p rs ws l (.sent ⟨l.lastId p + 1, method, f, target⟩ token) l'
      | .error f => Moved p rs ws l (.refused f) l' := by
  have hp := h.kept.size
  have hrefused (f : Failure) : Moved p rs ws l (.refused f) (l.numbering p) := by
    have hn := numbered_numbering hp
    have hpending := pending_numbering hp
    have hkept := h.kept.resting hn.size (hn.lastId ▸ Nat.le_succ _) hpending hn.futures
    refine h.silent rfl rfl (defers_numbering p l) hkept rfl (fun r hr => hpending ▸ hr)
      (fun r hr hu => open_numbering.2 (h.opened r hr ?_)) open_numbering.1
    rw [← hn.futures.ending _ (h.kept.made r hr)]
    exact hu
  unfold sendRequest
  refine .bind (newFuture_ends.mono fun x l₁ h₁ => ?_)
  obtain ⟨rfl, rfl⟩ := h₁
  refine .read (.change_bind ?_)
  have hwrite := write_ends p (request (l.lastId p + 1) method params) (l.numbering p)
  have hdefers := (defers_write (q := p) (request (l.lastId p + 1) method params)).ends
    (l.numbering p)
  refine .bind ((hwrite.and hdefers).mono fun x l₂ ⟨h₂, hd⟩ => ?_)
  cases h₂ with
  | unconnected => exact hrefused _
  | unwritable => exact hrefused _
  | @frame o f lo ho _ hm hlo =>
    have hposted : Posted p ⟨l.lastId p + 1, method, l.loop.futures.size, target⟩ l
        (l.issuing p ⟨l.lastId p + 1, method, l.loop.futures.size, target⟩ f lo) :=
      posted_issuing hp ho hm hlo hd.loop
    refine .change_bind ?_
    cases token with
    | none =>
      refine .pure (hposted.moved rfl ?_ ⟨[], List.nil_sublist _, (List.append_nil _).symm⟩)
      show Watched p _ (ws ++ []) _
      rw [List.append_nil]
      exact hposted.watched h
    | some t =>
      have hjoined := (hposted.watched h).joined (hposted.joins h (ht t rfl))
      have haside := watchUntil_aside (p := p) l.loop.futures.size t (l.lastId p + 1)
        (l.issuing p ⟨l.lastId p + 1, method, l.loop.futures.size, target⟩ f lo)
      refine .bind ((hjoined.and haside).mono fun x l₃ ⟨hj, hx, ha⟩ => ?_)
      subst hx
      exact .pure (hposted.moved ha.pending hj.1 hj.2)

end Sending

/-! ### The other moves -/

namespace Watched

/-- **A token is cancelled.** -/
theorem revoking {t : TokenId} (h : Watched p rs ws l) (hr : Leaves (cancelToken t) l l') :
    Moved p rs ws l (.revoked t) l' := by
  obtain ⟨hwatched, ids, hx⟩ := hr.elim (h.revoked t)
  obtain ⟨ids', -, hsaid, hwaits, -⟩ := taken hx
  have hpending : l'.pending p = l.pending p := hx.aside.pending
  refine ⟨?_, fun r hr => .inl (hpending ▸ hr), ⟨ids', ?_, fun id hid => ?_⟩, fun hno => ⟨rfl, ?_⟩⟩
  · simpa [Move.request?, Move.watch?] using hwatched
  · replace hsaid : l'.said = l.said ++ ids'.map withdrawal := hsaid
    simp only [withdrawals, hsaid, List.filterMap_append, Retracted.withdrawals_map]
  · obtain ⟨r, hr, hid⟩ := hwaits id hid
    exact ⟨r, .inl hr, hid⟩
  · exact fun ho => hno ((open_iff_of_quiet hx.quiet).1 ho)

/-- By then its requests have been taken back, but for those that had ended. -/
theorem revoked_once {t : TokenId} (h : Watched p rs ws l) (hr : Leaves (cancelToken t) l l')
    (hw : ⟨r, t⟩ ∈ ws) (hu : l.loop.ending? r.future = none) :
    l'.withdrawals.count (r.id : Int) = 1 := by
  obtain ⟨hwatched, ids, hx⟩ := hr.elim (h.revoked t)
  have hreq : l'.requested t = true := by
    simp only [requested, hx.defers.tokens]
    rw [getD_withToken (h.tokens _ hw), if_pos rfl]
  have hu' : l'.loop.ending? r.future = none := by
    rw [hx.aside.futures.ending _ (h.kept.made r (h.sent _ hw))]
    exact hu
  refine List.count_eq_one_of_mem hwatched.retracted.once ?_
  rcases hwatched.held.live _ hw hu' with hmem | ⟨-, hmem⟩
  · rw [hwatched.held.spent t hreq] at hmem
    cases hmem
  · exact hmem

/-- All that a callback does which takes a notice off a token. -/
theorem doJob_unregister (b : Workbench) (t : TokenId) (n : Notice) (f : FutureId) :
    Ends (Workbench.doJob (.call (.unregister t n) f)) b fun _ b' =>
      b'.link = withToken t ((b.link.tokens.getD t default).unregister n) b.link := fun _ => rfl

/-- **A callback is run**, in whatever place of the queue it was. -/
theorem calling {before after : List Job} {t : TokenId} {n : Notice} {f : FutureId}
    {b b' : Workbench} (h : Watched p rs ws l)
    (hready : l.loop.ready = before ++ .call (.unregister t n) f :: after)
    (hb : b.link = { l with loop := { l.loop with ready := before ++ after } })
    (hj : Leaves (Workbench.doJob (.call (.unregister t n) f)) b b') :
    Moved p rs ws l (.called t n f) b'.link := by
  have hlink := hj.elim (doJob_unregister b t n f)
  rw [hb] at hlink
  rw [hlink]
  refine ⟨?_, fun r hr => .inl hr, ⟨[], (List.append_nil _).symm, nofun⟩, fun hno => ⟨rfl, hno⟩⟩
  simpa [Move.request?, Move.watch?] using h.released hready

/-- **A future is given up**; its request may still be taken back. -/
theorem givingUp {f : FutureId} (h : Watched p rs ws l)
    (hs : Leaves (settleOpen f .cancelled) l l') : Moved p rs ws l (.cancelled f) l' := by
  have hgoes := (Exchange.Happens.cancelled hs).goes h.kept
  have hkept : Kept p rs l' := by simpa [Exchange.request?] using hgoes.kept
  have hdefers := hs.elim ((defers_settleOpen f .cancelled).ends l)
  obtain ⟨lo, -, rfl⟩ := hs.elim ((settleOpen_settles f .cancelled l).mono fun _ _ h => h.2)
  refine h.silent rfl rfl hdefers hkept rfl (fun _ => id) (fun r hr hu => ?_) id
  exact h.opened r hr (unended_of_defers hdefers hu)

/-- **A response comes in**, and the request with its id does not wait any more. -/
theorem answering {message : Value} (h : Watched p rs ws l) (hm : IsAnswer message)
    (hs : Leaves (receiveMessage p message) l l') :
    Moved p rs ws l (.answered message) l' ∧ l'.said = l.said ∧
      ∀ r ∈ l'.pending p, r ∈ l.pending p ∧ isFor message r = false := by
  obtain ⟨hkept, hsaid, hpending⟩ : Kept p rs l' ∧ l'.said = l.said ∧
      ∀ r ∈ l'.pending p, r ∈ l.pending p ∧ isFor message r = false := by
    have hends := hs.elim (hm.receiveMessage_settles l)
    split at hends
    · rename_i hfind
      subst hends
      refine ⟨h.kept, rfl, fun r hr => ⟨hr, ?_⟩⟩
      simpa using List.find?_eq_none.1 hfind r hr
    · rename_i r hfind
      obtain ⟨lo, hlo, rfl⟩ := hends
      have hr : r ∈ rs := h.kept.pending.subset (List.mem_of_find?_eq_some hfind)
      have hfor : isFor message r = true := List.find?_some hfind
      refine ⟨Goes.kept_without h.kept hr hlo, rfl, fun r' hr' => ?_⟩
      have hr' : r' ∈ (touched p (without r) l).pending p := hr'
      rw [Goes.pending_without h.kept.size, List.mem_filter] at hr'
      have hid : requestNumber? ((message.get? "id").getD .null) = some (r.id : Int) := by
        simpa [isFor] using hfor
      have hother : (r'.id : Int) ≠ r.id := by simpa using hr'.2
      refine ⟨hr'.1, ?_⟩
      simp only [isFor, hid, decide_eq_false_iff_not, Option.some.injEq]
      exact fun heq => hother heq.symm
  have hresponse := hs
  rw [hm.receiveMessage_eq] at hresponse
  have hdefers := hresponse.elim ((defers_receiveResponse (q := p) message).ends l)
  have hquiet := hresponse.elim ((quiet_receiveResponse message).ends l)
  refine ⟨h.silent rfl rfl hdefers hkept hsaid (fun r hr => (hpending r hr).1) (fun r hr hu => ?_)
    (open_iff_of_quiet hquiet).1, hsaid, hpending⟩
  exact (open_iff_of_quiet hquiet).2 (h.opened r hr (unended_of_defers hdefers hu))

/-- **The connection is lost**, and nobody waits any more. -/
theorem losing {reason : Option String} (h : Watched p rs ws l)
    (hs : Leaves (connectionLost p reason) l l') :
    Moved p rs ws l (.lost reason) l' ∧ l'.said = l.said ∧ l'.pending p = [] ∧ ¬l'.Open p := by
  have hgoes := (Exchange.Happens.lost hs).goes h.kept
  have hkept : Kept p rs l' := by simpa [Exchange.request?] using hgoes.kept
  have hdefers := hs.elim ((defers_connectionLost (q := p) reason).ends l)
  obtain ⟨lo, -, rfl⟩ := hs.elim (connectionLost_settles reason l)
  have hpending : (touched p cutOff l).pending p = [] := Goes.pending_cutOff h.kept.size
  have hshut : ¬(touched p cutOff l).Open p := by
    rintro ⟨o, ho, -⟩
    have hnone : (touched p cutOff l).outlet p = none :=
      congrArg Peer.outlet (peer_touched cutOff h.kept.size)
    rw [hnone] at ho
    cases ho
  refine ⟨h.silent rfl rfl hdefers hkept rfl (fun r hr => ?_) (fun r hr hu => ?_) fun ho =>
    absurd ho hshut, rfl, hpending, hshut⟩
  · have hr : r ∈ (touched p cutOff l).pending p := hr
    rw [hpending] at hr
    cases hr
  · rw [hgoes.ending r hr] at hu
    simp [Exchange.ending?] at hu

end Watched

/-- **Every move** keeps what is known. -/
theorem Move.Happens.moved {x : Move} (hx : Happens p l x l') (h : Watched p rs ws l) :
    Moved p rs ws l x l' := by
  cases hx with
  | sent ht hs => exact hs.elim (h.sending ht)
  | refused ht hs => exact hs.elim (h.sending ht)
  | answered hm hs => exact (h.answering hm hs).1
  | cancelled hs => exact h.givingUp hs
  | lost hs => exact (h.losing hs).1
  | revoked hs => exact h.revoking hs
  | called hready hb hj => exact h.calling hready hb hj

/-- A request that does not wait any more is not taken back any more. -/
theorem Moved.gone {x : Move} (hm : Moved p rs ws l x l') (h : Watched p rs ws l) (hr : r ∈ rs)
    (hg : r ∉ l.pending p) :
    r ∉ l'.pending p ∧ l'.withdrawals.count (r.id : Int) = l.withdrawals.count (r.id : Int) := by
  -- It is not the one that is sent, for that one has another id.
  have hother {r' : PendingRequest} (hx : x.request? = some r') : r'.id ≠ r.id := by
    have hids := hm.watched.kept.ids
    rw [hx] at hids
    have := (List.pairwise_append.1 hids).2.2 r hr r' (by simp)
    omega
  refine ⟨fun hmem => ?_, ?_⟩
  · rcases hm.waits r hmem with hmem | hx
    · exact hg hmem
    · exact hother hx rfl
  · obtain ⟨ids, hids, hwaits⟩ := hm.taken
    rw [hids, List.count_append, Nat.add_eq_left, List.count_eq_zero]
    intro hmem
    obtain ⟨id, hid, heq⟩ := List.mem_map.1 hmem
    obtain ⟨r', hr', rfl⟩ := hwaits id hid
    rcases hr' with hr' | hx
    · have hsame := eq_of_growing h.kept.ids (h.kept.pending.subset hr') hr (Int.ofNat.inj heq)
      exact hg (hsame ▸ hr')
    · exact hother hx (Int.ofNat.inj heq)

/-- Without a connection and with nobody waiting, nothing is taken back. -/
theorem Moved.still {x : Move} (hm : Moved p rs ws l x l') (hidle : l.pending p = [])
    (hno : ¬l.Open p) : l'.pending p = [] ∧ ¬l'.Open p ∧ l'.withdrawals = l.withdrawals := by
  obtain ⟨hnone, hno'⟩ := hm.shut hno
  have hnobody (r : PendingRequest) : ¬(r ∈ l.pending p ∨ x.request? = some r) := by
    simp [hidle, hnone]
  refine ⟨List.eq_nil_iff_forall_not_mem.2 fun r hr => hnobody r (hm.waits r hr), hno', ?_⟩
  obtain ⟨ids, hids, hwaits⟩ := hm.taken
  have hnil : ids = [] := List.eq_nil_iff_forall_not_mem.2 fun id hid => by
    obtain ⟨r, hr, -⟩ := hwaits id hid
    exact hnobody r hr
  rw [hids, hnil]
  exact List.append_nil _

/-! ### A whole run -/

theorem Move.requests_cons (x : Move) (xs : List Move) :
    requests (x :: xs) = x.request?.toList ++ requests xs := by
  cases hx : x.request? <;> simp [requests, hx]

theorem Move.watches_cons (x : Move) (xs : List Move) :
    watches (x :: xs) = x.watch?.toList ++ watches xs := by
  cases hx : x.watch? <;> simp [watches, hx]

namespace Move.Run

variable {xs : List Move}

/-- What every move keeps, a run of them keeps. -/
theorem watched (h : Run p l xs l') (hw : Watched p rs ws l) :
    Watched p (rs ++ requests xs) (ws ++ watches xs) l' := by
  induction h generalizing rs ws with
  | done => simpa [requests, watches] using hw
  | next hx _ ih =>
    rw [requests_cons, watches_cons, ← List.append_assoc, ← List.append_assoc]
    exact ih (hx.moved hw).watched

/-- A request that does not wait any more is never taken back. -/
theorem gone (h : Run p l xs l') (hw : Watched p rs ws l) (hr : r ∈ rs) (hg : r ∉ l.pending p) :
    l'.withdrawals.count (r.id : Int) = l.withdrawals.count (r.id : Int) := by
  induction h generalizing rs ws with
  | done => rfl
  | next hx _ ih =>
    have hm := hx.moved hw
    obtain ⟨hg', hcount⟩ := hm.gone hw hr hg
    exact (ih hm.watched (List.mem_append_left _ hr) hg').trans hcount

/-- Without a connection and with nobody waiting, nothing is taken back any more. -/
theorem still (h : Run p l xs l') (hw : Watched p rs ws l) (hidle : l.pending p = [])
    (hno : ¬l.Open p) : l'.withdrawals = l.withdrawals := by
  induction h generalizing rs ws with
  | done => rfl
  | next hx _ ih =>
    have hm := hx.moved hw
    obtain ⟨hidle', hno', hsame⟩ := hm.still hidle hno
    exact (ih hm.watched hidle' hno').trans hsame

end Move.Run

/-- An end that has sent nothing yet, and tokens that nobody watches.  Some of them may have been
cancelled. -/
structure Unwatched (p : PeerId) (l : Link) : Prop where
  size : p < l.peers.size
  idle : l.pending p = []
  untouched : l.withdrawals = []
  unheld : ∀ t, l.notices t = []
  uncalled : ∀ f t n, ¬l.loop.Calls f (.unregister t n)
  unqueued : ∀ f t n, .call (.unregister t n) f ∉ l.loop.ready

theorem Unwatched.watched (h : Unwatched p l) : Watched p [] [] l where
  kept := ⟨h.size, .nil, nofun, .nil, nofun, h.idle ▸ .refl _, nofun⟩
  told := nofun
  opened := nofun
  sent := nofun
  single := List.nodup_nil
  tokens := nofun
  retracted := by
    have hnone : l.said.filterMap withdrawal? = [] := h.untouched
    refine ⟨hnone ▸ List.nodup_nil, fun before m after heq n hn => ?_, fun n hn => ?_⟩
    · have hm : m ∈ l.said := heq ▸ by simp
      have := List.filterMap_eq_nil_iff.1 hnone m hm
      rw [hn] at this
      cases this
    · rw [hnone] at hn
      cases hn
  held := by
    refine ⟨fun t n hn => ?_, fun t => h.unheld t ▸ List.nodup_nil, fun t _ => h.unheld t, nofun⟩
    rw [h.unheld] at hn
    cases hn
  releases :=
    ⟨fun f t n hc => absurd hc (h.uncalled f t n), fun f t n hj => absurd hj (h.unqueued f t n)⟩

/-- **Every request is taken back once at most**, behind the message that sent it.  Once its
response has come in it is not taken back any more, and once the connection is lost nothing is.
When a token is cancelled, every request that was sent with it and has not ended has been
taken back exactly once. -/
theorem Move.Run.withdraws {l₀ : Link} {xs : List Move} (h : Run p l₀ xs l) (hl : Unwatched p l₀) :
    (∀ n, l.withdrawals.count n ≤ 1) ∧ Behind l.said ∧
    (∀ message l₁ ys l₂, Happens p l (.answered message) l₁ → Run p l₁ ys l₂ →
      ∀ r ∈ requests xs, isFor message r = true →
        l₂.withdrawals.count (r.id : Int) = l.withdrawals.count (r.id : Int)) ∧
    (∀ reason l₁ ys l₂, Happens p l (.lost reason) l₁ → Run p l₁ ys l₂ →
      l₂.withdrawals = l.withdrawals) ∧
    ∀ t l₁, Happens p l (.revoked t) l₁ → ∀ r, ⟨r, t⟩ ∈ watches xs → l.loop.done r.future = false →
      l₁.withdrawals.count (r.id : Int) = 1 := by
  have hw : Watched p (requests xs) (watches xs) l := h.watched hl.watched
  refine ⟨List.nodup_iff_count_le_one.1 hw.retracted.once, hw.retracted.behind, ?_, ?_, ?_⟩
  · intro message l₁ ys l₂ hx hys r hr hm
    cases hx with
    | answered hresponse hs =>
      obtain ⟨hmoved, hsaid, hpending⟩ := hw.answering hresponse hs
      have hgone : r ∉ l₁.pending p := fun hmem => by
        rw [(hpending r hmem).2] at hm
        cases hm
      rw [hys.gone hmoved.watched (List.mem_append_left _ hr) hgone]
      simp only [withdrawals, hsaid]
  · intro reason l₁ ys l₂ hx hys
    cases hx with
    | lost hs =>
      obtain ⟨hmoved, hsaid, hidle, hno⟩ := hw.losing hs
      rw [hys.still hmoved.watched hidle hno]
      simp only [withdrawals, hsaid]
  · intro t l₁ hx r hr hu
    cases hx with
    | revoked hs =>
      refine hw.revoked_once hs hr ?_
      simpa [Loop.done] using hu

/-- An end that can write, and a token. -/
def cancellable : Link := { talking with tokens := #[{}] }

theorem unwatched_cancellable : Unwatched 0 cancellable where
  size := by decide
  idle := rfl
  untouched := rfl
  unheld
    | 0 => rfl
    | _ + 1 => rfl
  uncalled _ _ _ := by simp [Loop.Calls, cancellable, talking]
  unqueued _ _ _ := by simp [cancellable, talking]

namespace Late

/-- A request is sent with the token. -/
def first : Link := (sendRequest 0 "first" .null .unchanged (some 0) ⟨default, cancellable⟩).2.state

/-- Another one shares it. -/
def second : Link := (sendRequest 0 "second" .null .unchanged (some 0) ⟨default, first⟩).2.state

/-- The first one is given up. -/
def third : Link := (settleOpen 0 .cancelled ⟨default, second⟩).2.state

/-- The loop gets to its callback. -/
def fourth : Link := (Workbench.doJob (.call (.unregister 0 (.request 0 1)) 0)
  ⟨default, { link := { third with loop := { third.loop with ready := [] } } }⟩).2.state.link

/-- The token is cancelled. -/
def fifth : Link := (cancelToken 0 ⟨default, fourth⟩).2.state

/-- A request comes with the token that has been cancelled. -/
def sixth : Link := (sendRequest 0 "third" .null .unchanged (some 0) ⟨default, fifth⟩).2.state

/-- All that has happened by then. -/
def moves : List Move :=
  [.sent ⟨1, "first", 0, .unchanged⟩ (some 0), .sent ⟨2, "second", 1, .unchanged⟩ (some 0),
    .cancelled 0, .called 0 (.request 0 1) 0, .revoked 0,
    .sent ⟨3, "third", 2, .unchanged⟩ (some 0)]

theorem run_moves : Run 0 cancellable moves sixth := by
  have htoken (l : Link) (hl : l.tokens.size = 1) (t : TokenId) (ht : some 0 = some t) :
      t < l.tokens.size := by
    cases ht
    rw [hl]
    exact Nat.one_pos
  have hready : third.loop.ready = [] ++ .call (.unregister 0 (.request 0 1)) 0 :: [] := rfl
  have h₁ : Happens 0 cancellable _ first :=
    .sent (htoken _ rfl) ⟨default, show _ = Except.ok 0 from rfl, rfl⟩
  have h₂ : Happens 0 first _ second :=
    .sent (htoken _ rfl) ⟨default, show _ = Except.ok 1 from rfl, rfl⟩
  have h₃ : Happens 0 second _ third := .cancelled ⟨default, rfl⟩
  have h₄ : Happens 0 third _ fourth := .called hready rfl ⟨default, rfl⟩
  have h₅ : Happens 0 fourth _ fifth := .revoked ⟨default, rfl⟩
  have h₆ : Happens 0 fifth _ sixth :=
    .sent (htoken _ rfl) ⟨default, show _ = Except.ok 2 from rfl, rfl⟩
  exact .next h₁ (.next h₂ (.next h₃ (.next h₄ (.next h₅ (.next h₆ .done)))))

theorem said_sixth : sixth.said = [request 1 "first" .null, request 2 "second" .null, withdrawal 2,
    request 3 "third" .null, withdrawal 3] := rfl

end Late

/-- Of two requests that share a token one has ended before the token is cancelled, and a third
one comes later. -/
theorem withdraws_late :
    Unwatched 0 cancellable ∧ Run 0 cancellable Late.moves Late.sixth ∧ Behind Late.sixth.said ∧
      (∀ n, Late.sixth.withdrawals.count n ≤ 1) ∧ Late.sixth.withdrawals = [2, 3] := by
  obtain ⟨honce, hbehind, -⟩ := Late.run_moves.withdraws unwatched_cancellable
  refine ⟨unwatched_cancellable, Late.run_moves, hbehind, honce, ?_⟩
  simp [withdrawals, Late.said_sixth, withdrawal?_request, withdrawal?_withdrawal]

end EditorBridge.Link
