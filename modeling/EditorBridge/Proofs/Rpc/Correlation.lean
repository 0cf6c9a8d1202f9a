/-
Every request ends with its own response.

A run of an end is a list of what happened to its requests, one thing after the other:
requests were sent or refused, responses came in, futures were given up by their owners,
the connection was lost, and whatever else went on left the requests alone.  The list is
enough to tell how every future ended, without looking at the end at all.  It is the first
thing behind the sending of the request that ends it: a response with its id, its owner, or
the loss of the connection (`Exchange.ending?`).

The induction is on the run.  Its invariant (`Kept`) ties the table of requests that wait
to the requests that were sent: the table is a part of them in their order, their ids and
their futures grow, and a request that is not in the table has ended.  The last point is
what makes late and repeated responses harmless, and the growing ids are why a response
finds no other request than its own.
-/
import EditorBridge.Proofs.Lists
import EditorBridge.Proofs.Rpc.Requests
import Mathlib.Data.List.Nodup

namespace EditorBridge.Link

open Act (Gives Leaves)

variable {p : PeerId} {l₀ l l' : Link} {r : PendingRequest} {rs : List PendingRequest}

/-! ### What happens to requests -/

/-- Something that happens to the requests of an end. -/
inductive Exchange where
  /-- A request is sent. -/
  | sent (r : PendingRequest)
  /-- A request is not sent, and who wanted it to be gets a failure. -/
  | refused (f : Failure)
  /-- A response comes in. -/
  | answered (message : Value)
  /-- The owner of a future does not wait any more. -/
  | cancelled (f : FutureId)
  /-- The connection is lost. -/
  | lost (reason : Option String)
  /-- Something else happens: the connection is closed or made again, or callbacks are called. -/
  | aside

namespace Exchange

/-- The request that is sent. -/
def request? : Exchange → Option PendingRequest
  | sent r => some r
  | _ => none

/-- The requests that were sent. -/
def requests (xs : List Exchange) : List PendingRequest := xs.filterMap request?

/-- How a request ends if it has not ended before. -/
def ending? (r : PendingRequest) : Exchange → Option (Ending Reply)
  | answered message => if respondsTo message r then some (answerTo r.target message) else none
  | cancelled f => if f = r.future then some .cancelled else none
  | lost reason => some (.failed (.connectionLost reason))
  | _ => none

/-- What can happen to an end, and what it leaves. -/
inductive Happens (p : PeerId) (l : Link) : Exchange → Link → Prop
  | sent {method : String} {params : Value} {target : Wire.Target} {token : Option TokenId}
    {f : FutureId} {l' : Link} (h : Gives (sendRequest p method params target token) l (.ok f) l') :
    Happens p l (sent ⟨l.lastId p + 1, method, f, target⟩) l'
  | refused {method : String} {params : Value} {target : Wire.Target} {token : Option TokenId}
    {f : Failure} {l' : Link} (h : Gives (sendRequest p method params target token) l (.error f) l') :
    Happens p l (refused f) l'
  | answered {message : Value} {l' : Link} (hm : IsResponse message)
    (h : Leaves (receiveMessage p message) l l') : Happens p l (answered message) l'
  | cancelled {f : FutureId} {l' : Link} (h : Leaves (settleOpen f .cancelled) l l') :
    Happens p l (cancelled f) l'
  | lost {reason : Option String} {l' : Link} (h : Leaves (connectionLost p reason) l l') :
    Happens p l (lost reason) l'
  | aside {l' : Link} (h : Aside p l l') : Happens p l aside l'

end Exchange

open Exchange (Happens requests)

/-- A run of an end: what happened, and the link that it led to. -/
inductive Course (p : PeerId) (l₀ : Link) : List Exchange → Link → Prop
  | begin : Course p l₀ [] l₀
  | next {xs : List Exchange} {x : Exchange} {l l' : Link} (h : Course p l₀ xs l)
    (hx : Happens p l x l') : Course p l₀ (xs ++ [x]) l'

/-! ### The table and the requests that were sent -/

/-- The requests that wait are a part of those that were sent, and the others have ended. -/
structure Kept (p : PeerId) (rs : List PendingRequest) (l : Link) : Prop where
  size : p < l.peers.size
  ids : rs.Pairwise (·.id < ·.id)
  bounded : ∀ r ∈ rs, r.id ≤ l.lastId p
  futures : rs.Pairwise (·.future < ·.future)
  made : ∀ r ∈ rs, r.future < l.loop.futures.size
  pending : (l.pending p).Sublist rs
  ended : ∀ r ∈ rs, r ∉ l.pending p → (l.loop.ending? r.future).isSome = true

/-- What grows along a list tells its members apart. -/
theorem eq_of_growing {g : PendingRequest → Nat} (h : rs.Pairwise fun r r' => g r < g r')
    {r r' : PendingRequest} (hr : r ∈ rs) (hr' : r' ∈ rs) (heq : g r = g r') : r = r' := by
  have hnodup : (rs.map g).Nodup := List.pairwise_map.2 (h.imp Nat.ne_of_lt)
  exact List.inj_on_of_nodup_map hnodup hr hr' heq

namespace Kept

/-- What leaves the table and the futures as they are keeps them in order. -/
theorem resting (h : Kept p rs l) (hs : l.peers.size ≤ l'.peers.size)
    (hid : l.lastId p ≤ l'.lastId p) (hp : l'.pending p = l.pending p)
    (hl : l.loop.Rests l'.loop) : Kept p rs l' where
  size := Nat.lt_of_lt_of_le h.size hs
  ids := h.ids
  bounded r hr := Nat.le_trans (h.bounded r hr) hid
  futures := h.futures
  made r hr := Nat.lt_of_lt_of_le (h.made r hr) hl.size
  pending := hp ▸ h.pending
  ended r hr hn := by
    rw [hp] at hn
    rw [hl.ending _ (h.made r hr)]
    exact h.ended r hr hn

/-- A request that is sent comes last. -/
theorem issued (h : Kept p rs l) (hr : Issued p r l l') : Kept p (rs ++ [r]) l' := by
  have hold := h.bounded
  refine ⟨Nat.lt_of_lt_of_le h.size hr.size, ?_, fun r' hr' => ?_, ?_, fun r' hr' => ?_, ?_,
    fun r' hr' hn => ?_⟩
  · refine List.pairwise_append.2 ⟨h.ids, List.pairwise_singleton .., fun r' hr' x hx => ?_⟩
    obtain rfl := List.mem_singleton.1 hx
    have := h.bounded r' hr'
    have := hr.id
    omega
  · have := hr.lastId
    rcases List.mem_append.1 hr' with hr' | hr'
    · have := h.bounded r' hr'
      omega
    · obtain rfl := List.mem_singleton.1 hr'
      have := hr.id
      omega
  · refine List.pairwise_append.2 ⟨h.futures, List.pairwise_singleton .., fun r' hr' x hx => ?_⟩
    obtain rfl := List.mem_singleton.1 hx
    rw [hr.future]
    exact h.made r' hr'
  · rcases List.mem_append.1 hr' with hr' | hr'
    · exact Nat.lt_of_lt_of_le (h.made r' hr') hr.futures.size
    · obtain rfl := List.mem_singleton.1 hr'
      exact hr.made
  · rw [hr.pending]
    exact h.pending.append (.refl _)
  · rw [hr.pending, List.mem_append, not_or] at hn
    rcases List.mem_append.1 hr' with hr' | hr'
    · rw [hr.futures.ending _ (h.made r' hr')]
      exact h.ended r' hr' hn.1
    · exact absurd hr' hn.2

/-- Whoever does not wait any more has ended. -/
theorem settling {fs : List FutureId} {e : Ending Reply} (h : Kept p rs l)
    (hs : l'.peers.size = l.peers.size) (hid : l'.lastId p = l.lastId p)
    (hl : l.loop.Settles fs e l'.loop) (hsub : (l'.pending p).Sublist (l.pending p))
    (hgone : ∀ r ∈ l.pending p, r ∉ l'.pending p → r.future ∈ fs) : Kept p rs l' where
  size := hs ▸ h.size
  ids := h.ids
  bounded r hr := hid ▸ h.bounded r hr
  futures := h.futures
  made r hr := hl.size ▸ h.made r hr
  pending := hsub.trans h.pending
  ended r hr hn := by
    by_cases hwaits : r ∈ l.pending p
    · rw [hl.here _ (hgone r hwaits hn) (h.made r hr)]
      rfl
    · obtain ⟨e₀, he₀⟩ := Option.isSome_iff_exists.1 (h.ended r hr hwaits)
      rw [hl.ended he₀]
      rfl

/-- A response carries the id of one request at most. -/
theorem eq_of_respondsTo (h : Kept p rs l) {message : Value} {r r' : PendingRequest} (hr : r ∈ rs)
    (hr' : r' ∈ rs) (hm : respondsTo message r = true) (hm' : respondsTo message r' = true) :
    r = r' := by
  have hid : some (Value.int r.id) = some (.int r'.id) :=
    (respondsTo_iff.1 hm).symm.trans (respondsTo_iff.1 hm')
  have hint : (r.id : Int) = r'.id := by simpa using hid
  exact eq_of_growing h.ids hr hr' (Int.ofNat.inj hint)

end Kept

/-! ### One thing happens -/

/-- What has to be shown of everything that can happen: the table is still in order, everything
that was sent before has ended or ends as it should, and the wire tells what was sent. -/
structure Goes (p : PeerId) (rs : List PendingRequest) (l : Link) (x : Exchange) (l' : Link) :
    Prop where
  kept : Kept p (rs ++ x.request?.toList) l'
  ending : ∀ r ∈ rs, l'.loop.ending? r.future = (l.loop.ending? r.future).or (x.ending? r)
  wire : l'.requestIds = l.requestIds ++ x.request?.toList.map fun r => .int r.id
  once : ∀ f e, l.loop.ending? f = some e → l'.loop.ending? f = some e
  opened : ∀ r, x.request? = some r → l'.loop.ending? r.future = none

/-- A future that ended is one that there is. -/
theorem lt_of_ending? {lo : Loop Reply Callback Job} {f : FutureId} {e : Ending Reply}
    (h : lo.ending? f = some e) : f < lo.futures.size := by
  obtain ⟨fut, hfut, -⟩ := Option.bind_eq_some_iff.1 h
  exact (Array.getElem?_eq_some_iff.1 hfut).1

namespace Goes

/-- Nothing ends while the futures rest. -/
theorem resting {x : Exchange} (h : Kept p rs l) (hkept : Kept p rs l')
    (hl : l.loop.Rests l'.loop) (hx : x.request? = none) (hend : ∀ r, x.ending? r = none)
    (hw : l'.requestIds = l.requestIds) : Goes p rs l x l' where
  kept := by
    rw [hx]
    simpa using hkept
  ending r hr := by rw [hl.ending _ (h.made r hr), hend, Option.or_none]
  wire := by
    rw [hx]
    simpa using hw
  once f e he := (hl.ending f (lt_of_ending? he)).trans he
  opened r hr := nomatch hx.symm.trans hr

/-- Whatever ends futures ends those of the requests that it is about. -/
theorem settling {x : Exchange} {fs : List FutureId} {e : Ending Reply} (h : Kept p rs l)
    (hkept : Kept p rs l') (hl : l.loop.Settles fs e l'.loop) (hx : x.request? = none)
    (hin : ∀ r ∈ rs, r.future ∈ fs → l.loop.ending? r.future = none → x.ending? r = some e)
    (hout : ∀ r ∈ rs, r.future ∉ fs → l.loop.ending? r.future = none → x.ending? r = none)
    (hw : l'.requestIds = l.requestIds) : Goes p rs l x l' where
  kept := by
    rw [hx]
    simpa using hkept
  ending r hr := by
    cases hold : l.loop.ending? r.future with
    | some e₀ => exact hl.ended hold
    | none =>
      rw [Option.none_or]
      by_cases hf : r.future ∈ fs
      · rw [hl.here _ hf (h.made r hr), hold, hin r hr hf hold]
        rfl
      · rw [hout r hr hf hold, ← hold, Loop.ending?, Loop.ending?, hl.elsewhere _ hf]
  wire := by
    rw [hx]
    simpa using hw
  once _ _ he := hl.ended he
  opened r hr := nomatch hx.symm.trans hr

theorem issued (h : Kept p rs l) (hr : Issued p r l l') : Goes p rs l (.sent r) l' where
  kept := h.issued hr
  ending r' hr' := by
    rw [hr.futures.ending _ (h.made r' hr')]
    exact (Option.or_none).symm
  wire := hr.wire
  once f e he := (hr.futures.ending f (lt_of_ending? he)).trans he
  opened r' hr' := by
    obtain rfl : r = r' := Option.some.inj hr'
    exact hr.unended

theorem withheld {f : Failure} (h : Kept p rs l) (hw : Withheld p l l') :
    Goes p rs l (.refused f) l' := by
  have hlast : l.lastId p ≤ l'.lastId p := by
    rw [hw.lastId]
    exact Nat.le_succ _
  have hkept := h.resting hw.size hlast hw.pending hw.futures
  exact resting h hkept hw.futures rfl (fun _ => rfl) hw.wire

theorem aside (h : Kept p rs l) (ha : Aside p l l') : Goes p rs l .aside l' := by
  have hkept := h.resting ha.size (Nat.le_of_eq ha.lastId.symm) ha.pending ha.futures
  exact resting h hkept ha.futures rfl (fun _ => rfl) ha.wire

theorem cancelled {f : FutureId} (h : Kept p rs l) (hs : l.Settling [f] .cancelled l') :
    Goes p rs l (.cancelled f) l' := by
  obtain ⟨lo, hlo, rfl⟩ := hs
  have hkept : Kept p rs { l with loop := lo } :=
    h.settling rfl rfl hlo (.refl _) fun r hr hn => absurd hr hn
  refine settling h hkept hlo rfl (fun r _ hf _ => ?_) (fun r _ hf _ => ?_) rfl
  · have heq : f = r.future := by simpa [eq_comm] using hf
    exact if_pos heq
  · have hne : ¬f = r.future := by simpa [eq_comm] using hf
    exact if_neg hne

/-- A response that no request waits for comes for a request that has ended, if for any. -/
theorem stray {message : Value} (h : Kept p rs l)
    (hfind : (l.pending p).find? (respondsTo message) = none) :
    Goes p rs l (.answered message) l where
  kept := by simpa [Exchange.request?] using h
  ending r hr := by
    by_cases hm : respondsTo message r = true
    · have hgone : r ∉ l.pending p := fun hmem => List.find?_eq_none.1 hfind r hmem hm
      obtain ⟨e, he⟩ := Option.isSome_iff_exists.1 (h.ended r hr hgone)
      rw [he, Option.some_or]
    · simp [Exchange.ending?, hm]
  wire := by simp [Exchange.request?]
  once _ _ he := he
  opened r hr := nomatch hr

theorem pending_without (hp : p < l.peers.size) : (touched p (without r) l).pending p =
    (l.pending p).filter fun r' => (r'.id : Int) ≠ r.id :=
  pending_touched (without r) hp

/-- A request that ends may be taken from those that wait. -/
theorem kept_without {lo : Loop Reply Callback Job} {e : Ending Reply} (h : Kept p rs l)
    (hr : r ∈ rs) (hlo : l.loop.Settles [r.future] e lo) :
    Kept p rs { touched p (without r) l with loop := lo } := by
  refine h.settling (size_touched _) (lastId_touched (without r) h.size) hlo ?_ fun r' hr' hn => ?_
  · show ((touched p (without r) l).pending p).Sublist _
    rw [pending_without h.size]
    exact List.filter_sublist
  · have hn : r' ∉ (touched p (without r) l).pending p := hn
    rw [pending_without h.size, List.mem_filter] at hn
    have hid : (r'.id : Int) = r.id := by simpa [hr'] using hn
    have heq : r' = r := eq_of_growing h.ids (h.pending.subset hr') hr (Int.ofNat.inj hid)
    simp [heq]

/-- A response ends the one request that it carries the id of. -/
theorem answered {message : Value} (h : Kept p rs l)
    (hfind : (l.pending p).find? (respondsTo message) = some r)
    (hs : (touched p (without r) l).Settling [r.future] (answerTo r.target message) l') :
    Goes p rs l (.answered message) l' := by
  obtain ⟨lo, hlo, rfl⟩ := hs
  have hm : respondsTo message r = true := List.find?_some hfind
  have hr : r ∈ rs := h.pending.subset (List.mem_of_find?_eq_some hfind)
  have hkept : Kept p rs { touched p (without r) l with loop := lo } := kept_without h hr hlo
  refine settling h hkept hlo rfl (fun r' hr' hf _ => ?_) (fun r' hr' hf _ => ?_) rfl
  · have heq : r' = r := eq_of_growing h.futures hr' hr (by simpa using hf)
    subst heq
    exact if_pos hm
  · have hm' : ¬respondsTo message r' = true := fun hm' => by
      have heq := h.eq_of_respondsTo hr' hr hm' hm
      simp [heq] at hf
    exact if_neg hm'

theorem pending_cutOff (hp : p < l.peers.size) : (touched p cutOff l).pending p = [] :=
  pending_touched cutOff hp

/-- Without a connection everything ends. -/
theorem lost {reason : Option String} (h : Kept p rs l)
    (hs : (touched p cutOff l).Settling ((l.pending p).map (·.future))
      (.failed (.connectionLost reason)) l') : Goes p rs l (.lost reason) l' := by
  obtain ⟨lo, hlo, rfl⟩ := hs
  have hkept : Kept p rs { touched p cutOff l with loop := lo } := by
    refine h.settling (size_touched _) (lastId_touched cutOff h.size) hlo ?_
      fun r hr _ => List.mem_map_of_mem hr
    · show ((touched p cutOff l).pending p).Sublist _
      rw [pending_cutOff h.size]
      exact List.nil_sublist _
  refine settling h hkept hlo rfl (fun r _ _ _ => rfl) (fun r hr hf hold => ?_) rfl
  -- A request that has not ended is still in the table.
  have hwaits : r ∈ l.pending p := by
    by_contra hgone
    have := h.ended r hr hgone
    simp [hold] at this
  exact absurd (List.mem_map_of_mem hwaits) hf

end Goes

/-- **One thing happens**, and everything goes as it should. -/
theorem Exchange.Happens.goes {x : Exchange} (hx : Happens p l x l') (h : Kept p rs l) :
    Goes p rs l x l' := by
  cases hx with
  | sent hs => exact .issued h (hs.elim (sendRequest_issues h.size))
  | refused hs => exact .withheld h (hs.elim (sendRequest_issues h.size))
  | cancelled hs => exact .cancelled h (hs.elim ((settleOpen_settles _ _ l).mono fun _ _ h => h.2))
  | lost hs => exact .lost h (hs.elim (connectionLost_settles _ l))
  | aside ha => exact .aside h ha
  | answered hm hs =>
    have hends := hs.elim (receiveMessage_settles hm l)
    split at hends
    · rename_i hfind
      subst hends
      exact .stray h hfind
    · rename_i r hfind
      exact .answered h hfind hends

/-! ### A whole run -/

/-- What is known of an end after a run. -/
structure Correlated (p : PeerId) (l₀ : Link) (xs : List Exchange) (l : Link) : Prop where
  /-- The ids on the wire are those of the requests that were sent. -/
  wire : l.requestIds = l₀.requestIds ++ (requests xs).map fun r => .int r.id
  /-- They grow. -/
  growing : (requests xs).Pairwise (·.id < ·.id)
  /-- The requests that wait have ids that differ. -/
  distinct : (l.pending p).Pairwise (·.id ≠ ·.id)
  /-- None of them is greater than the last one that was used. -/
  bounded : ∀ r ∈ l.pending p, r.id ≤ l.lastId p
  /-- What ended a request is the first thing behind its sending that can. -/
  ending : ∀ before r after, xs = before ++ .sent r :: after →
    l.loop.ending? r.future = after.findSome? (Exchange.ending? r)

theorem Exchange.requests_append (xs : List Exchange) (x : Exchange) :
    requests (xs ++ [x]) = requests xs ++ x.request?.toList := by
  unfold requests
  rw [List.filterMap_append]
  cases hx : x.request? <;> simp [hx]

/-- What one thing keeps, a run of them keeps. -/
theorem Course.kept {xs : List Exchange} (h : Course p l₀ xs l) (hp : p < l₀.peers.size)
    (hidle : l₀.pending p = []) : Kept p (requests xs) l ∧ Correlated p l₀ xs l := by
  induction h with
  | begin =>
    refine ⟨⟨hp, .nil, nofun, .nil, nofun, hidle ▸ .refl _, nofun⟩, ?_, .nil, ?_, ?_, ?_⟩
    · exact (List.append_nil _).symm
    · exact hidle ▸ .nil
    · rw [hidle]
      exact nofun
    · intro before r after hxs
      simp at hxs
  | @next xs x l l' hc hx ih =>
    obtain ⟨hkept, hcorr⟩ := ih
    have hgoes := hx.goes hkept
    have hkept' := hgoes.kept
    rw [← Exchange.requests_append] at hkept'
    refine ⟨hkept', ?_, hkept'.ids, ?_, fun r hr => hkept'.bounded r (hkept'.pending.subset hr), ?_⟩
    · rw [hgoes.wire, hcorr.wire, Exchange.requests_append, List.map_append, List.append_assoc]
    · exact (hkept'.ids.sublist hkept'.pending).imp Nat.ne_of_lt
    · intro before r after hxs
      rcases append_singleton_eq_iff.1 hxs with ⟨-, hlast, rfl⟩ | ⟨later, rfl, hfront⟩
      · -- The request has just been sent.
        exact hgoes.opened r (by rw [← hlast]; rfl)
      · have hr : r ∈ requests xs := List.mem_filterMap.2 ⟨.sent r, by simp [hfront], rfl⟩
        rw [hgoes.ending r hr, hcorr.ending before r later hfront, List.findSome?_append,
          List.findSome?_singleton]

/-- What happens next ends nothing twice and touches nothing that it is not about. -/
structure Accounted (p : PeerId) (xs : List Exchange) (l : Link) (x : Exchange) (l' : Link) :
    Prop where
  /-- What has ended has ended for good. -/
  once : ∀ f e, l.loop.ending? f = some e → l'.loop.ending? f = some e
  /-- A response takes the requests with its id from those that wait, and leaves all futures but
  theirs as they are. -/
  response : ∀ message, x = .answered message →
    l'.pending p = (l.pending p).filter (fun r => !respondsTo message r) ∧
      ∀ f, (∀ r ∈ l.pending p, respondsTo message r = true → r.future ≠ f) →
        l'.loop.futures[f]? = l.loop.futures[f]?
  /-- A request that is refused does not wait, and no token calls anybody about it. -/
  refusal : ∀ f, x = .refused f → l'.pending p = l.pending p ∧ l'.tokens = l.tokens
  /-- Once the connection is lost nothing waits, and every future that was returned is done. -/
  loss : ∀ reason, x = .lost reason →
    l'.pending p = [] ∧ ∀ r ∈ requests xs, l'.loop.done r.future = true

/-- What a response takes away and what it leaves. -/
theorem response_accounted {message : Value} (hm : IsResponse message) (h : Kept p rs l)
    (hs : Leaves (receiveMessage p message) l l') :
    l'.pending p = (l.pending p).filter (fun r => !respondsTo message r) ∧
      ∀ f, (∀ r ∈ l.pending p, respondsTo message r = true → r.future ≠ f) →
        l'.loop.futures[f]? = l.loop.futures[f]? := by
  have hends := hs.elim (receiveMessage_settles hm l)
  split at hends
  · rename_i hfind
    subst hends
    refine ⟨?_, fun _ _ => rfl⟩
    refine (List.filter_eq_self.2 fun r hr => ?_).symm
    simpa using List.find?_eq_none.1 hfind r hr
  · rename_i r hfind
    obtain ⟨lo, hlo, rfl⟩ := hends
    have hr : respondsTo message r = true := List.find?_some hfind
    have hwaits : r ∈ l.pending p := List.mem_of_find?_eq_some hfind
    constructor
    · show (touched p (without r) l).pending p = _
      rw [Goes.pending_without h.size]
      refine List.filter_congr fun r' _ => ?_
      simp [respondsTo, respondsTo_iff.1 hr]
    · intro f hf
      refine hlo.elsewhere f fun hmem => ?_
      obtain rfl := List.mem_singleton.1 hmem
      exact hf r hwaits hr rfl

theorem Exchange.Happens.accounted {xs : List Exchange} {x : Exchange} (hx : Happens p l x l')
    (h : Kept p (requests xs) l) : Accounted p xs l x l' := by
  have hgoes := hx.goes h
  refine ⟨hgoes.once, fun message heq => ?_, fun f heq => ?_, fun reason heq => ?_⟩
  · subst heq
    cases hx with
    | answered hm hs => exact response_accounted hm h hs
  · subst heq
    cases hx with
    | refused hs =>
      have hheld := hs.elim (sendRequest_issues h.size)
      exact ⟨hheld.pending, hheld.tokens⟩
  · subst heq
    constructor
    · cases hx with
      | lost hs =>
        obtain ⟨lo, -, rfl⟩ := hs.elim (connectionLost_settles _ l)
        exact Goes.pending_cutOff h.size
    · intro r hr
      rw [Loop.done, hgoes.ending r hr]
      simp [Exchange.ending?]

/-- **Every request ends with its own response.**  However requests, responses, owners who do not
wait any more and the loss of the connection follow one another, ids grow, the table holds
every id once, and a future that was returned has ended in the first way it could: with the
first response that carries its id, unless its owner or the loss of the connection came
first.  Nothing that happens next ends a future again, and a response leaves alone whatever
does not have its id.  A response ends its request with the result that it carries, with what
keeps that from being read, or with the error that it tells of. -/
theorem Course.correlated {xs : List Exchange} (h : Course p l₀ xs l) (hp : p < l₀.peers.size)
    (hidle : l₀.pending p = []) :
    Correlated p l₀ xs l ∧ (∀ x l', Happens p l x l' → Accounted p xs l x l') ∧
      ∀ target message, Answers target message (answerTo target message) := by
  obtain ⟨hkept, hcorr⟩ := h.kept hp hidle
  exact ⟨hcorr, fun _ _ hx => hx.accounted hkept, answers_answerTo⟩

/-- An end that can write. -/
def talking : Link := { peers := #[{ outlet := some {} }] }

/-- A response with the result 7. -/
def seven (id : Nat) : Value := response (.int id) (.int 7)

theorem isResponse_seven (id : Nat) : IsResponse (seven id) where
  table := ⟨_, rfl⟩
  version := by simp [seven, response, version, Value.same]
  call := by simp [seven, response]
  id := .inl ⟨id, by simp [seven, response]⟩
  error := .inl (by simp [seven, response])

theorem respondsTo_seven (id : Nat) (r : PendingRequest) :
    respondsTo (seven id) r = decide (r.id = id) := by
  have hid : (seven id).get? "id" = some (.int id) := by simp [seven, response]
  simp only [respondsTo, hid, decide_eq_decide]
  omega

theorem answerTo_seven (id : Nat) :
    answerTo .unchanged (seven id) = .result (.wire (.raw (.int 7))) := by
  have hending : endingOf .unchanged (seven id) = .ok (.result (.wire (.raw (.int 7)))) := by
    simp [endingOf, seven, response, Value.isNull, Wire.read, pure, Except.pure]
  rw [answerTo, hending]

/-- Responses come for a request that was never sent, for the second one, and for the first one
after its owner has given it up. -/
theorem correlated_outOfOrder :
    let first : PendingRequest := ⟨1, "first", 0, .unchanged⟩
    let second : PendingRequest := ⟨2, "second", 1, .unchanged⟩
    let xs : List Exchange := [.sent first, .sent second, .answered (seven 3),
      .answered (seven 2), .cancelled 0, .answered (seven 1), .lost none]
    ∃ l, Course 0 talking xs l ∧ Correlated 0 talking xs l ∧
      l.loop.ending? 0 = some .cancelled ∧ l.loop.ending? 1 = some (.result (.wire (.raw (.int 7)))) := by
  intro first second xs
  have hrun : ∃ l, Course 0 talking xs l := by
    have h₀ : Course 0 talking [] talking := .begin
    have h₁ := h₀.next (.sent ⟨default, show (sendRequest 0 "first" .null .unchanged none
      ⟨default, talking⟩).1 = .ok 0 from rfl, rfl⟩)
    have h₂ := h₁.next (.sent ⟨default, show (sendRequest 0 "second" .null .unchanged none
      ⟨default, _⟩).1 = .ok 1 from rfl, rfl⟩)
    have h₃ := h₂.next (.answered (isResponse_seven 3) ⟨default, rfl⟩)
    have h₄ := h₃.next (.answered (isResponse_seven 2) ⟨default, rfl⟩)
    have h₅ := h₄.next (.cancelled ⟨default, show (settleOpen 0 .cancelled _).2.state = _ from rfl⟩)
    have h₆ := h₅.next (.answered (isResponse_seven 1) ⟨default, rfl⟩)
    exact ⟨_, h₆.next (.lost ⟨default, show (connectionLost 0 none _).2.state = _ from rfl⟩)⟩
  obtain ⟨l, hl⟩ := hrun
  have hcorr := (hl.correlated (by decide) rfl).1
  refine ⟨l, hl, hcorr, ?_, ?_⟩
  · refine (hcorr.ending [] first _ rfl).trans ?_
    simp [List.findSome?_cons, Exchange.ending?, respondsTo_seven, first]
  · refine (hcorr.ending [.sent first] second _ rfl).trans ?_
    simp [Exchange.ending?, respondsTo_seven, answerTo_seven, second]

end EditorBridge.Link
