/-
What an end does about what it receives.

Whatever the other side sends has a price.  A body that cannot be read costs an answer, and
so does an item that is no message and a call that has an id; a notification and a response
cost nothing (`Debt`).  How a debt is paid is told by the handlers alone (`Pays`): the answer
carries the id of the call, and what it says is what the handler of the method came to.

A message is `Civil` if it can be taken in every state.  `Handled` collects what is known once
such messages were taken: the debts are paid in their order, the requests that were answered
do not wait any more and have ended, and everybody else still waits.  It composes, so it is
shown of one message and carried over a batch and a body by induction.
-/
import EditorBridge.Proofs.Json.Plain
import EditorBridge.Proofs.Rpc.Correlation
import EditorBridge.Proofs.Rpc.Fairness

namespace EditorBridge

open Json (Plain Writable)

namespace Link

open Act (Ends Keeps Reads)
open Rpc (Bytes)

variable {p : PeerId} {l l' l'' : Link} {message : Value}

/-! ### Debts -/

/-- Something that has to be answered. -/
inductive Debt where
  /-- A body that cannot be read. -/
  | unreadable (f : Failure)
  /-- An item that is no message. -/
  | invalid
  | call (id method params : Value)

/-- Whether a value is a message of the protocol. -/
def isMessage (v : Value) : Bool := (v.get? "jsonrpc").any (·.same version)

/-- What has to be answered about an item. -/
def debt? (message : Value) : Option Debt :=
  if isMessage message then
    match message.get? "method", message.get? "id" with
    | some method, some id => some (.call id method ((message.get? "params").getD .null))
    | _, _ => none
  else some .invalid

/-- Who handles the calls that come in at an end. -/
def handlers (l : Link) (p : PeerId) : List (String × Handler) := (l.peers.getD p default).handlers

/-- The handler of a method. -/
def handlerFor? (hs : List (String × Handler)) : Value → Option Handler
  | .str method => hs.lookup method
  | _ => none

/-- What a handler can come to. -/
def Yields (p : PeerId) (h : Handler) (params : Value) (x : Except Failure Value) : Prop :=
  ∃ e, (handle p h params e).1 = x

/-- How a debt is paid. -/
inductive Pays (p : PeerId) (hs : List (String × Handler)) : Debt → Value → Prop
  | unreadable (f : Failure) :
    Pays p hs (.unreadable f) (errorResponse .null (.int parseError) (.str f.report) .null)
  | invalid : Pays p hs .invalid
    (errorResponse .null (.int invalidRequest) (.str "Invalid JSON-RPC message.") .null)
  | unknown {id method params : Value} (hh : handlerFor? hs method = none) :
    Pays p hs (.call id method params)
      (errorResponse id (.int methodNotFound) (.str ("Unknown method: " ++ method.plain)) .null)
  | result {id method params v : Value} {h : Handler} (hh : handlerFor? hs method = some h)
    (hv : Yields p h params (.ok v)) : Pays p hs (.call id method params) (response id v)
  | own {id method params code text data : Value} {h : Handler}
    (hh : handlerFor? hs method = some h)
    (hv : Yields p h params (.error (.remote code text data))) :
    Pays p hs (.call id method params) (errorResponse id code text data)
  | failed {id method params : Value} {h : Handler} {f : Failure}
    (hh : handlerFor? hs method = some h) (hv : Yields p h params (.error f))
    (hf : ∀ code text data, f ≠ .remote code text data) :
    Pays p hs (.call id method params)
      (errorResponse id (.int internalError) (.str f.report) .null)

/-- The id that the answer to a debt carries. -/
def Debt.id : Debt → Value
  | unreadable _ | invalid => .null
  | call id _ _ => id

/-- A call is answered with its id, and what cannot be attributed to a call without one. -/
theorem Pays.id {hs : List (String × Handler)} {d : Debt} {v : Value} (h : Pays p hs d v) :
    v.get? "id" = some d.id := by
  cases h <;> simp [response, errorResponse, Debt.id]

/-! ### Messages that can be taken -/

/-- A method can be looked up. -/
def nameable : Value → Bool
  | .list _ | .dict _ => false
  | _ => true

/-- A response that tells of an error by a table, or of none. -/
def TellsError (message : Value) : Prop :=
  (message.get? "error").getD .null = .null ∨ ∃ entries, message.get? "error" = some (.dict entries)

/-- A message that can be taken in every state. -/
inductive Civil (message : Value) : Prop
  | refused (h : isMessage message = false)
  | request {method id : Value} (hm : message.get? "method" = some method)
    (hid : message.get? "id" = some id) (hn : nameable method = true)
  | notification {method : String} (hm : message.get? "method" = some (.str method))
  | response (hm : message.get? "method" = none) (hid : message.get? "id" ≠ some (.bool true))
    (he : TellsError message)
  /-- A response with an id that no request can have. -/
  | stray (hm : message.get? "method" = none) (hid : message.get? "id" ≠ some (.bool true))
    (hn : ∀ n : Nat, 0 < n → message.get? "id" ≠ some (.int n))

/-- Whether a response tells of an error by a table, or of none. -/
def tellsError (message : Value) : Bool :=
  match message.get? "error" with
  | none | some .null | some (.dict _) => true
  | _ => false

theorem tellsError_iff : tellsError message = true ↔ TellsError message := by
  unfold tellsError TellsError
  cases message.get? "error" with
  | none => simp
  | some v => cases v <;> simp

/-- Whether a message is civil. -/
def civil (message : Value) : Bool :=
  !isMessage message ||
    match message.get? "method", message.get? "id" with
    | some method, some _ => nameable method
    | some (.str _), none => true
    | some _, none => false
    | none, some (.bool true) => false
    | none, some (.int n) => tellsError message || n ≤ 0
    | none, _ => true

theorem civil_iff : civil message = true ↔ Civil message := by
  constructor
  · intro h
    unfold civil at h
    rcases Bool.or_eq_true_iff.1 h with h | h
    · exact .refused (by simpa using h)
    · split at h
      · rename_i method id hm hid
        exact .request hm hid h
      · rename_i method hm hid
        exact .notification hm
      · cases h
      · cases h
      · rename_i n hm hid
        rcases Bool.or_eq_true_iff.1 h with h | h
        · exact .response hm (by simp [hid]) (tellsError_iff.1 h)
        · refine .stray hm (by simp [hid]) fun k hk heq => ?_
          have hn : n = k := by simpa [hid] using heq
          have hle : n ≤ 0 := by simpa using h
          omega
      · rename_i hm htrue hint
        exact .stray hm htrue fun k _ heq => hint k heq
  · intro h
    unfold civil
    cases h with
    | refused h => simp [h]
    | request hm hid hn => simp [hm, hid, hn]
    | notification hm => cases message.get? "id" <;> simp [hm, nameable]
    | response hm hid he =>
      have he := tellsError_iff.2 he
      rw [hm]
      split <;> simp_all
    | stray hm hid hn =>
      rw [hm]
      split <;> simp_all
      rename_i n hint
      by_contra hpos
      refine hn n.toNat ?_ ?_ <;> omega

instance : DecidablePred Civil := fun _ => decidable_of_iff _ civil_iff

/-- Whether an item is a response with the id of a request. -/
def responds (message : Value) (r : PendingRequest) : Bool :=
  isMessage message && (message.get? "method").isNone && respondsTo message r

/-- The requests that wait have numbers that differ, and futures. -/
structure Waits (p : PeerId) (l : Link) : Prop where
  size : p < l.peers.size
  positive : ∀ r ∈ l.pending p, 0 < r.id
  distinct : (l.pending p).Pairwise (·.id < ·.id)
  made : ∀ r ∈ l.pending p, r.future < l.loop.futures.size

/-- Whatever a run of an end has led to, the requests that wait are in order. -/
theorem Course.waits {l₀ : Link} {xs : List Exchange} (h : Course p l₀ xs l)
    (hp : p < l₀.peers.size) (hidle : l₀.pending p = []) : Waits p l := by
  obtain ⟨hkept, -⟩ := h.kept hp hidle
  have hpositive : ∀ r ∈ Exchange.requests xs, 0 < r.id := by
    clear hkept
    induction h with
    | begin => exact nofun
    | @next xs x l l' _ hx ih =>
      rw [Exchange.requests_append]
      intro r hr
      rcases List.mem_append.1 hr with hr | hr
      · exact ih r hr
      · cases hx with
        | sent =>
          obtain rfl := List.mem_singleton.1 hr
          exact Nat.succ_pos _
        | refused | answered | cancelled | lost | aside => cases hr
  exact ⟨hkept.size, fun r hr => hpositive r (hkept.pending.subset hr),
    hkept.ids.sublist hkept.pending, fun r hr => hkept.made r (hkept.pending.subset hr)⟩

/-! ### What was handled -/

/-- Debts were paid, and requests that have been answered have ended. -/
structure Handled (p : PeerId) (owed : List Debt) (gone : PendingRequest → Bool) (l l' : Link) :
    Prop where
  quiet : Quiet l l'
  handlers : l'.handlers p = l.handlers p
  pending : l'.pending p = (l.pending p).filter fun r => !gone r
  done : ∀ r ∈ l.pending p, gone r = true → l'.loop.done r.future = true
  answers : l.Open p → ∃ rs, l'.answers = l.answers ++ rs ∧
    List.Forall₂ (Pays p (l.handlers p)) owed rs

namespace Handled

variable {owed owed' : List Debt} {gone gone' : PendingRequest → Bool}

/-- As long as the ends stay as they are, nobody who waits is answered. -/
theorem of_peers (hq : Quiet l l') (hp : l'.peers = l.peers)
    (ha : l.Open p → ∃ rs, l'.answers = l.answers ++ rs ∧
      List.Forall₂ (Pays p (l.handlers p)) owed rs) :
    Handled p owed (fun _ => false) l l' where
  quiet := hq
  handlers := by simp only [Link.handlers, hp]
  pending := by simp [Link.pending, hp]
  done _ _ h := nomatch h
  answers := ha

theorem refl (p : PeerId) (l : Link) : Handled p [] (fun _ => false) l l :=
  of_peers (.refl l) rfl fun _ => ⟨[], (List.append_nil _).symm, .nil⟩

theorem mute (hq : Quiet l l') (hm : Mute l l') : Handled p [] (fun _ => false) l l' :=
  of_peers hq hm.peers fun _ => ⟨[], hm.answers.trans (List.append_nil _).symm, .nil⟩

theorem trans (h : Handled p owed gone l l') (h' : Handled p owed' gone' l' l'') :
    Handled p (owed ++ owed') (fun r => gone r || gone' r) l l'' where
  quiet := h.quiet.trans h'.quiet
  handlers := h'.handlers.trans h.handlers
  pending := by
    rw [h'.pending, h.pending, List.filter_filter]
    exact List.filter_congr fun r _ => by rw [Bool.not_or, Bool.and_comm]
  done r hr hg := by
    cases hgone : gone r with
    | true => exact h'.quiet.grows.loop.done _ (h.done r hr hgone)
    | false =>
      rw [hgone, Bool.false_or] at hg
      refine h'.done r ?_ hg
      rw [h.pending, List.mem_filter]
      exact ⟨hr, by rw [hgone]; rfl⟩
  answers ho := by
    obtain ⟨rs, hrs, hpays⟩ := h.answers ho
    obtain ⟨rs', hrs', hpays'⟩ := h'.answers ((open_iff_of_quiet h.quiet).2 ho)
    rw [h.handlers] at hpays'
    exact ⟨rs ++ rs', by rw [hrs', hrs, List.append_assoc], List.rel_append hpays hpays'⟩

theorem waits (h : Handled p owed gone l l') (hw : Waits p l) : Waits p l' where
  size := Nat.lt_of_lt_of_eq hw.size (congrArg Wiring.ends h.quiet.wiring).symm
  positive r hr := hw.positive r (List.mem_of_mem_filter (h.pending ▸ hr))
  distinct := h.pending ▸ hw.distinct.filter _
  made r hr := Nat.lt_of_lt_of_le (hw.made r (List.mem_of_mem_filter (h.pending ▸ hr)))
    h.quiet.grows.loop.futures

/-- Who is gone matters of those only who waited. -/
theorem congr (h : Handled p owed gone l l') (hg : ∀ r ∈ l.pending p, gone' r = gone r) :
    Handled p owed gone' l l' where
  quiet := h.quiet
  handlers := h.handlers
  pending := h.pending.trans (List.filter_congr fun r hr => by rw [hg r hr])
  done r hr hgone := h.done r hr ((hg r hr).symm.trans hgone)
  answers := h.answers

end Handled

/-! ### Responses -/

/-- Only a request whose id a response carries is answered by it. -/
theorem answered?_of_ne_true {e : Peer} (hid : message.get? "id" ≠ some (.bool true))
    (hpos : ∀ r ∈ e.pending, 0 < r.id) :
    answered? message e = e.pending.find? (respondsTo message) := by
  have hnone : e.pending.find? (fun _ => false) = none := by simp
  have hzero : e.pending.find? (fun r => (r.id : Int) = 0) = none :=
    List.find?_eq_none.2 fun r hr => by
      have := hpos r hr
      simp
      omega
  unfold answered? respondsTo
  cases hm : message.get? "id" with
  | none => simp [requestNumber?, hnone]
  | some v =>
    cases v with
    | int n => simp [requestNumber?]
    | bool b =>
      cases b with
      | true => exact absurd hm hid
      | false => simpa [requestNumber?, hnone] using hzero
    | _ => simp [requestNumber?, hnone]

theorem conclude_ok {r : PendingRequest} {e : Ending Reply} (he : endingOf r.target message = .ok e)
    (hf : r.future < l.loop.futures.size) :
    Ends (conclude p message r) l fun x _ => x = .ok () := by
  unfold conclude
  refine .read ?_
  split
  · exact .read (.log rfl)
  · rename_i hd
    have hsettle := settle_ok e hf (by simpa using hd)
    rw [he]
    refine .bind (.pure ?_)
    dsimp only
    split
    · exact .read (.bind (.logFailure hsettle))
    · exact hsettle

/-- A response that tells of its error by a table says how a request ends. -/
theorem endingOf_ok {target : Wire.Target} (he : TellsError message) :
    ∃ e, endingOf target message = .ok e := by
  unfold endingOf
  rcases he with hnull | ⟨entries, herr⟩
  · simp only [hnull, Value.isNull]
    exact ⟨_, rfl⟩
  · simp only [herr, Option.getD_some, Value.isNull]
    exact ⟨_, rfl⟩

/-- **A response** ends the request that it carries the id of, and no other one. -/
theorem receiveResponse_handled (hw : Waits p l) (hmessage : isMessage message = true)
    (hm : message.get? "method" = none) (hid : message.get? "id" ≠ some (.bool true))
    (he : ∀ r ∈ l.pending p, respondsTo message r = true →
      ∃ e, endingOf r.target message = .ok e) :
    Ends (receiveResponse p message) l fun x l' =>
      x = .ok () ∧ Handled p [] (responds message) l l' := by
  have hresponds : ∀ r, responds message r = respondsTo message r := by
    simp [responds, hmessage, hm]
  have hquiet := quiet_receiveResponse (p := p) message
  rw [receiveResponse_eq] at hquiet ⊢
  refine hquiet.knowing (.read ?_)
  rw [answered?_of_ne_true hid hw.positive]
  rw [show (l.peers.getD p default).pending = l.pending p from rfl]
  cases hfind : (l.pending p).find? (respondsTo message) with
  | none =>
    refine .read (.log fun _ => ⟨rfl, ?_⟩)
    refine (Handled.refl p l).congr fun r hr => ?_
    rw [hresponds]
    simpa using List.find?_eq_none.1 hfind r hr
  | some r =>
    have hr : r ∈ l.pending p := List.mem_of_find?_eq_some hfind
    have hto : respondsTo message r = true := List.find?_some hfind
    obtain ⟨e, he⟩ := he r hr hto
    refine .change_bind (((conclude_ok he ?_).and (conclude_settles he _)).mono fun x l' h => ?_)
    · exact hw.made r hr
    obtain ⟨rfl, lo, hlo, rfl⟩ := h
    -- Whoever has the same number is the same request.
    have hsame : ∀ r' ∈ l.pending p, (responds message r' = true ↔ (r'.id : Int) = r.id) := by
      intro r' _
      rw [hresponds, respondsTo_iff, respondsTo_iff.1 hto]
      simp [eq_comm]
    have hpending : ({ touched p (without r) l with loop := lo } : Link).pending p =
        (l.pending p).filter fun r' => !responds message r' := by
      show (touched p (without r) l).pending p = _
      rw [Goes.pending_without hw.size]
      refine List.filter_congr fun r' hr' => ?_
      rw [Bool.eq_iff_iff, Bool.not_eq_true', decide_eq_true_iff, ne_eq, ← hsame r' hr',
        Bool.not_eq_true]
    refine fun hq => ⟨rfl, hq, ?_, hpending, fun r' hr' hgone => ?_, fun _ => ⟨[], ?_, .nil⟩⟩
    · show ((touched p (without r) l).peers.getD p default).handlers = _
      rw [peer_touched (without r) hw.size]
      rfl
    · have hid' := (hsame r' hr').1 hgone
      have heq : r' = r := eq_of_growing hw.distinct hr' hr (Int.ofNat.inj hid')
      rw [heq]
      exact Option.isSome_iff_exists.2 ⟨_, hlo.here r.future (by simp) (hw.made r hr)⟩
    · exact (List.append_nil _).symm

/-! ### Answers -/

/-- An answer goes out if anything can. -/
structure Replies (p : PeerId) (reply : Value) (l l' : Link) : Prop where
  quiet : Quiet l l'
  peers : l'.peers = l.peers
  answers : l.Open p → l'.answers = l.answers ++ [reply]

theorem Replies.handled {reply : Value} {d : Debt} (h : Replies p reply l l')
    (hp : Pays p (l.handlers p) d reply) : Handled p [d] (fun _ => false) l l' :=
  .of_peers h.quiet h.peers fun ho => ⟨[reply], h.answers ho, .cons hp .nil⟩

/-- **An answer** that has a text is given, and nobody notices if it cannot be. -/
theorem reply_ends {reply : Value} (hw : Writable reply) (hm : reply.get? "method" = none)
    (what : String) (l : Link) :
    Ends (orWarn p (write p reply) what) l fun x l' => x = .ok () ∧ Replies p reply l l' := by
  have htold : Told.ofMessage? reply = none := by simp [Told.ofMessage?, Value.textAt?, hm]
  have hwrite := quiet_write (p := p) htold
  have hquiet := quiet_orWarn (p := p) (write p reply) what
  refine hquiet.knowing (.bind (.outcome ((write_ends p reply l).mono fun x l' h => ?_)))
  cases h with
  | unconnected hno =>
    exact .read (.log fun hq => ⟨rfl, hq, rfl, fun ho => ho.elim fun o ho => absurd ho (hno o)⟩)
  | unwritable he => exact absurd he ((HasFrame.of_writable hw).render_ne _)
  | @frame o f lo ho hp hmessage hlo =>
    refine .pure fun hq => ⟨rfl, hq, rfl, fun _ => ?_⟩
    simp [Link.answers, hmessage, hm]

theorem writable_response {id result : Value} (hid : Writable id) (hr : Writable result) :
    Writable (response id result) := .table (by simp [version, Writable.str, hid, hr])

theorem writable_errorResponse {id code text data : Value} (hid : Writable id)
    (hc : Writable code) (ht : Writable text) (hd : Writable data) :
    Writable (errorResponse id code text data) := by
  refine .table ?_
  have herror : Writable (Value.table ([("code", code), ("message", text)] ++
      if data.isNull then [] else [("data", data)])) := by
    refine .table ?_
    split <;> simp [hc, ht, hd]
  simpa [version, Writable.str, hid] using herror

theorem sendError_ends {id code text data : Value} (hid : Writable id) (hc : Writable code)
    (ht : Writable text) (hd : Writable data) (l : Link) :
    Ends (sendError p id code text data) l fun x l' =>
      x = .ok () ∧ Replies p (errorResponse id code text data) l l' :=
  reply_ends (writable_errorResponse hid hc ht hd) (by simp [errorResponse]) _ l

/-! ### Calls -/

/-- Every handler of an end is fair. -/
def AllFair (hs : List (String × Handler)) : Prop := ∀ h ∈ hs, h.2.Fair

theorem handlerOf_eq {e : Peer} {method : Value} (hn : nameable method = true) :
    handlerOf e method = .ok (handlerFor? e.handlers method) := by
  cases method with
  | list | dict => cases hn
  | _ => rfl

theorem AllFair.handlerFor? {hs : List (String × Handler)} {method : Value} {h : Handler}
    (hf : AllFair hs) (hh : Link.handlerFor? hs method = some h) : h.Fair := by
  cases method with
  | str method =>
    obtain ⟨before, after, rfl, -⟩ := List.lookup_eq_some_iff.1 hh
    exact hf (method, h) (by simp)
  | _ => cases hh

/-- A call that nobody handles is answered if it has an id. -/
theorem unhandled_handled {method : Value} {id : Option Value} {params : Value}
    (hh : handlerFor? (l.handlers p) method = none) (hid : ∀ v, id = some v → Writable v)
    (hstr : id = none → ∃ s, method = .str s) :
    Ends (unhandled p method id) l fun x l' => x = .ok () ∧
      Handled p (id.map fun v => Debt.call v method params).toList (fun _ => false) l l' := by
  cases id with
  | some v =>
    refine (sendError_ends (hid v rfl) (.int (by decide)) (.str _) .null l).mono fun x l' h => ?_
    exact ⟨h.1, h.2.handled (.unknown hh)⟩
  | none =>
    obtain ⟨s, rfl⟩ := hstr rfl
    unfold unhandled
    dsimp only
    split
    · exact .read (.log ⟨rfl, .refl p l⟩)
    · exact .pure ⟨rfl, .refl p l⟩

/-- What a handler comes to is answered if the call has an id. -/
theorem answer_handled {method params : Value} {id : Option Value} {h : Handler}
    {x : Except Failure Value}
    (hh : handlerFor? (l.handlers p) method = some h) (hid : ∀ v, id = some v → Writable v)
    (hx : Fair x) (hy : Yields p h params x) :
    Ends (match x with
      | .ok result => do
        if let some id := id then
          orWarn p (write p (response id result)) ("Can't answer " ++ method.plain)
      | .error (.remote code text data) => do
        if let some id := id then sendError p id code text data
      | .error f => do
        if !f.isError then throw f
        Act.logFailure (← peer p).logger f
        if let some id := id then sendError p id (.int internalError) (.str f.report)) l
      fun x l' => x = .ok () ∧
        Handled p (id.map fun v => Debt.call v method params).toList (fun _ => false) l l' := by
  cases x with
  | ok v =>
    cases id with
    | none => exact .pure ⟨rfl, .refl p l⟩
    | some i =>
      refine (reply_ends (writable_response (hid i rfl) hx) (by simp [response]) _ l).mono
        fun x l' hr => ?_
      exact ⟨hr.1, hr.2.handled (.result hh hy)⟩
  | error f =>
    by_cases hf : ∃ code text data, f = .remote code text data
    · obtain ⟨code, text, data, rfl⟩ := hf
      cases id with
      | none => exact .pure ⟨rfl, .refl p l⟩
      | some i =>
        refine (sendError_ends (hid i rfl) hx.1 hx.2.1 hx.2.2 l).mono fun x l' hr => ?_
        exact ⟨hr.1, hr.2.handled (.own hh hy)⟩
    · have hf : ∀ code text data, f ≠ .remote code text data :=
        fun code text data heq => hf ⟨code, text, data, heq⟩
      have herror : f.isError = true := by
        cases f with
        | remote code text data => exact absurd rfl (hf code text data)
        | _ => exact hx
      have hrest : Ends (do
          if !f.isError then throw f
          Act.logFailure (← peer p).logger f
          if let some id := id then sendError p id (.int internalError) (.str f.report)) l
          fun x l' => x = .ok () ∧
            Handled p (id.map fun v => Debt.call v method params).toList (fun _ => false) l l' := by
        rw [if_neg (by simp [herror])]
        refine .read (.bind (.logFailure ?_))
        cases id with
        | none => exact .pure ⟨rfl, .refl p l⟩
        | some i =>
          refine (sendError_ends (hid i rfl) (.int (by decide)) (.str _) .null l).mono fun x l' hr => ?_
          exact ⟨hr.1, hr.2.handled (.failed hh hy hf)⟩
      cases f with
      | remote code text data => exact absurd rfl (hf code text data)
      | _ => exact hrest

/-- **A call** is answered if it has an id, whatever its handler does. -/
theorem receiveCall_handled {method : Value} (hf : AllFair (l.handlers p))
    (hn : nameable method = true) (hid : ∀ v, message.get? "id" = some v → Writable v)
    (hstr : message.get? "id" = none → ∃ s, method = .str s) :
    Ends (receiveCall p method message) l fun x l' => x = .ok () ∧
      Handled p ((message.get? "id").map fun v =>
        Debt.call v method ((message.get? "params").getD .null)).toList (fun _ => false) l l' := by
  unfold receiveCall
  refine .read ?_
  rw [handlerOf_eq hn]
  refine .bind (.pure ?_)
  generalize message.get? "id" = id at *
  generalize (message.get? "params").getD .null = params
  dsimp only
  rw [show (l.peers.getD p default).handlers = l.handlers p from rfl]
  cases hh : handlerFor? (l.handlers p) method with
  | none => exact unhandled_handled hh hid hstr
  | some h =>
    have hmute := (mute_handle (p := p) h params).ends l
    have hquiet := (quiet_handle (p := p) h params).ends l
    have hyields : Ends (handle p h params) l fun x _ => Yields p h params x := fun j => ⟨_, rfl⟩
    refine .bind (.outcome ((((handle_fair (hf.handlerFor? hh) params l).and hyields).and
      (hmute.and hquiet)).mono fun x l₁ hx => ?_))
    obtain ⟨⟨hfair, hy⟩, hm, hq⟩ := hx
    have h₁ := Handled.mute (p := p) hq hm
    have hh₁ : handlerFor? (l₁.handlers p) method = some h := h₁.handlers ▸ hh
    refine (answer_handled hh₁ hid hfair hy).mono fun x l₂ h₂ => ?_
    exact ⟨h₂.1, h₁.trans h₂.2⟩

end Link

end EditorBridge
