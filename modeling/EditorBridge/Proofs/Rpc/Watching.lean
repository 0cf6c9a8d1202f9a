/-
Requests that can be taken back.

A request may be sent with a token.  When the token is cancelled the request is taken back on
the wire, as long as it waits; a token that was cancelled before takes it back at once.  A
response, or whatever else ends the future of the request, takes the notice off the token
again, but only when the loop gets to the callback, and until then the token may be
cancelled as well.

`Watched` is what holds at every moment of this, in three parts.  What was taken back was
taken back once, behind its request (`Retracted`).  A token that has not been cancelled holds
one notice for each of its requests that has not ended, and none of them has been taken back;
a token that has been cancelled holds none, and its requests have been taken back unless
they had ended (`Held`).  And a notice is only taken off a token by the callback of a future
that is done, so never while it is needed (`Releases`).
-/
import EditorBridge.Editor.Run
import EditorBridge.Proofs.Rpc.Withdrawal

namespace EditorBridge.Link

open Act (Ends)

/-- A request that was sent with a token. -/
structure Watch where
  request : PendingRequest
  token : TokenId

namespace Watch

/-- What the token is to do about the request. -/
def notice (p : PeerId) (w : Watch) : Notice := .request p w.request.id

/-- What is to be done once the request has ended. -/
def release (p : PeerId) (w : Watch) : Callback := .unregister w.token (w.notice p)

theorem release_eq {p : PeerId} {w : Watch} {t : TokenId} {n : Notice}
    (h : .unregister t n = w.release p) : t = w.token ∧ n = w.notice p := by
  simpa [release] using h

end Watch

variable {p : PeerId} {l l' : Link} {r : PendingRequest} {t : TokenId} {w : Watch}
  {rs rs' : List PendingRequest} {ws ws' : List Watch} {ms news : List Value}
  {lo lo' : Loop Reply Callback Job}

/-! ### What was taken back -/

/-- Nothing is taken back twice, before it was sent, or without a token. -/
structure Retracted (ws : List Watch) (ms : List Value) : Prop where
  once : (ms.filterMap withdrawal?).Nodup
  behind : Behind ms
  own : ∀ n ∈ ms.filterMap withdrawal?, ∃ w ∈ ws, n = w.request.id

namespace Retracted

/-- Other messages do not matter. -/
theorem more (h : Retracted ws ms) (hsub : ws ⊆ ws') (hnews : ∀ m ∈ news, withdrawal? m = none) :
    Retracted ws' (ms ++ news) := by
  have heq : (ms ++ news).filterMap withdrawal? = ms.filterMap withdrawal? := by
    rw [List.filterMap_append, List.filterMap_eq_nil_iff.2 hnews, List.append_nil]
  refine ⟨heq ▸ h.once, ?_, fun n hn => ?_⟩
  · exact h.behind.append fun m hm n hn => absurd ((hnews m hm).symm.trans hn) nofun
  · obtain ⟨w, hw, hid⟩ := h.own n (heq ▸ hn)
    exact ⟨w, hsub hw, hid⟩

theorem withdrawals_map (ids : List Nat) :
    (ids.map withdrawal).filterMap withdrawal? = ids.map Int.ofNat := by
  induction ids with
  | nil => rfl
  | cons id ids ih => simp [withdrawal?_withdrawal, ih]

/-- Requests that were sent and not taken back yet may be taken back. -/
theorem extend {ids : List Nat} (h : Retracted ws ms) (hsub : ws ⊆ ws') (hids : ids.Nodup)
    (hsent : ∀ id ∈ ids, .int id ∈ ms.filterMap requestId?)
    (hnew : ∀ id ∈ ids, (id : Int) ∉ ms.filterMap withdrawal?)
    (hown : ∀ id ∈ ids, ∃ w ∈ ws', w.request.id = id) :
    Retracted ws' (ms ++ ids.map withdrawal) := by
  refine ⟨?_, ?_, fun n hn => ?_⟩
  · rw [List.filterMap_append, withdrawals_map]
    refine List.nodup_append.2 ⟨h.once, hids.map fun _ _ => Int.ofNat.inj, fun n hn m hm heq => ?_⟩
    obtain ⟨id, hid, rfl⟩ := List.mem_map.1 hm
    subst heq
    exact hnew id hid hn
  · refine h.behind.append fun m hm n hn => ?_
    obtain ⟨id, hid, rfl⟩ := List.mem_map.1 hm
    rw [withdrawal?_withdrawal] at hn
    cases hn
    exact hsent id hid
  · rw [List.filterMap_append, withdrawals_map] at hn
    rcases List.mem_append.1 hn with hn | hn
    · obtain ⟨w, hw, hid⟩ := h.own n hn
      exact ⟨w, hsub hw, hid⟩
    · obtain ⟨id, hid, rfl⟩ := List.mem_map.1 hn
      obtain ⟨w, hw, rfl⟩ := hown id hid
      exact ⟨w, hw, rfl⟩

end Retracted

/-! ### Who takes notices off -/

/-- Whoever takes a notice off a token does it because its request has ended. -/
structure Releases (p : PeerId) (ws : List Watch) (lo : Loop Reply Callback Job) : Prop where
  calls : ∀ f t n, lo.Calls f (.unregister t n) →
    ∃ w ∈ ws, .unregister t n = w.release p ∧ w.request.future = f
  jobs : ∀ f t n, .call (.unregister t n) f ∈ lo.ready →
    (∃ w ∈ ws, .unregister t n = w.release p ∧ w.request.future = f) ∧ lo.done f = true

namespace Releases

theorem mono (h : Releases p ws lo) (hsub : ws ⊆ ws') : Releases p ws' lo where
  calls f t n hc := by
    obtain ⟨w, hw, hn⟩ := h.calls f t n hc
    exact ⟨w, hsub hw, hn⟩
  jobs f t n hj := by
    obtain ⟨⟨w, hw, hn⟩, hdone⟩ := h.jobs f t n hj
    exact ⟨⟨w, hsub hw, hn⟩, hdone⟩

theorem defers (h : Releases p ws lo) (hd : lo.Defers lo') : Releases p ws lo' where
  calls f t n hc := h.calls f t n (hd.calls _ _ hc)
  jobs f t n hj := by
    rcases hd.jobs _ _ hj with hj | ⟨hc, hdone⟩
    · obtain ⟨hw, hdone⟩ := h.jobs f t n hj
      exact ⟨hw, hd.done f hdone⟩
    · exact ⟨h.calls f t n hc, hdone⟩

/-- A request that has not ended asks for a callback. -/
theorem whenDone (h : Releases p ws lo) (hu : lo.done w.request.future = false) :
    Releases p (ws ++ [w]) (lo.whenDone .call w.request.future (w.release p)) := by
  have h := h.mono (List.subset_append_left ws [w])
  refine ⟨fun f t n hc => ?_, fun f t n hj => ?_⟩
  · rcases hc.whenDone hu with hc | ⟨rfl, hn⟩
    · exact h.calls f t n hc
    · exact ⟨w, by simp, hn, rfl⟩
  · rw [Loop.ready_whenDone hu] at hj
    obtain ⟨hw, hdone⟩ := h.jobs f t n hj
    exact ⟨hw, (Loop.grows_whenDone _ _ _ lo).done f hdone⟩

/-- A job may be taken out of the queue. -/
theorem took {before after : List Job} {j : Job} (h : Releases p ws lo)
    (hj : lo.ready = before ++ j :: after) :
    Releases p ws { lo with ready := before ++ after } where
  calls := h.calls
  jobs f t n hmem := by
    refine h.jobs f t n ?_
    rw [hj]
    exact (List.sublist_cons_self j after).append_left before |>.subset hmem

end Releases

/-! ### What the tokens hold -/

/-- What tokens hold, about requests that have not been taken back. -/
structure Held (p : PeerId) (ws : List Watch) (l : Link) : Prop where
  notices : ∀ t, ∀ n ∈ l.notices t, ∃ w ∈ ws, w.token = t ∧ n = w.notice p ∧
    (w.request.id : Int) ∉ l.withdrawals
  distinct : ∀ t, (l.notices t).Nodup
  spent : ∀ t, l.requested t = true → l.notices t = []
  /-- A request that has not ended can be taken back, or has been. -/
  live : ∀ w ∈ ws, l.loop.ending? w.request.future = none →
    w.notice p ∈ l.notices w.token ∨
      l.requested w.token = true ∧ (w.request.id : Int) ∈ l.withdrawals

namespace Held

/-- The futures matter only as far as they have not ended. -/
theorem onLoop (h : Held p ws l)
    (hu : ∀ w ∈ ws, lo.ending? w.request.future = none → l.loop.ending? w.request.future = none) :
    Held p ws { l with loop := lo } where
  notices := h.notices
  distinct := h.distinct
  spent := h.spent
  live w hw hlive := h.live w hw (hu w hw hlive)

/-- One token may hold other notices, as long as none is missing. -/
theorem withToken {token : Token Notice} (h : Held p ws l) (hsub : ws ⊆ ws')
    (ht : t < l.tokens.size) (hreq : token.requested = l.requested t)
    (hn : ∀ n ∈ token.callbacks, n ∈ l.notices t ∨ ∃ w ∈ ws', w.token = t ∧ n = w.notice p ∧
      (w.request.id : Int) ∉ l.withdrawals)
    (hd : token.callbacks.Nodup) (hs : l.requested t = true → token.callbacks = [])
    (hl : ∀ w ∈ ws', l.loop.ending? w.request.future = none →
      w ∈ ws ∧ (w.token = t → w.notice p ∈ l.notices t → w.notice p ∈ token.callbacks) ∨
        w.token = t ∧ w.notice p ∈ token.callbacks) : Held p ws' (withToken t token l) := by
  have hnotices (u : TokenId) :
      (l.withToken t token).notices u = if u = t then token.callbacks else l.notices u := by
    unfold Link.notices
    rw [getD_withToken ht]
    split <;> rfl
  have hrequested (u : TokenId) : (l.withToken t token).requested u = l.requested u := by
    unfold Link.requested
    rw [getD_withToken ht]
    split
    · rename_i hu
      rw [hu]
      exact hreq
    · rfl
  refine ⟨fun u n hmem => ?_, fun u => ?_, fun u hu => ?_, fun w hw hu => ?_⟩
  · rw [hnotices] at hmem
    split at hmem
    · rename_i heq
      subst heq
      refine (hn n hmem).elim (fun hold => ?_) id
      obtain ⟨w, hw, hrest⟩ := h.notices u n hold
      exact ⟨w, hsub hw, hrest⟩
    · obtain ⟨w, hw, hrest⟩ := h.notices u n hmem
      exact ⟨w, hsub hw, hrest⟩
  · rw [hnotices]
    split
    · exact hd
    · exact h.distinct u
  · rw [hrequested] at hu
    rw [hnotices]
    split
    · rename_i heq
      exact hs (heq ▸ hu)
    · exact h.spent u hu
  · rw [hnotices, hrequested]
    rcases hl w hw hu with ⟨hold, hkeep⟩ | ⟨heq, hmem⟩
    · refine (h.live w hold hu).imp (fun hmem => ?_) id
      split
      · rename_i heq
        exact hkeep heq (heq ▸ hmem)
      · exact hmem
    · rw [if_pos heq]
      exact .inl hmem

/-- One token may lose all its notices if the requests that have not ended are taken back, and none
that another token holds a notice about. -/
theorem emptied {taken : List Nat} (h : Held p ws l) (hsub : ws ⊆ ws')
    (hn : ∀ u, l'.notices u = if u = t then [] else l.notices u)
    (hr : ∀ u, u ≠ t → l'.requested u = l.requested u)
    (hw : l'.withdrawals = l.withdrawals ++ taken.map Int.ofNat)
    (hothers : ∀ w ∈ ws, w.token ≠ t → w.request.id ∉ taken)
    (hl : ∀ w ∈ ws', l'.loop.ending? w.request.future = none →
      w ∈ ws ∧ w.token ≠ t ∧ l.loop.ending? w.request.future = none ∨
        w.token = t ∧ l'.requested t = true ∧ (w.request.id : Int) ∈ l'.withdrawals) :
    Held p ws' l' := by
  refine ⟨fun u n hmem => ?_, fun u => ?_, fun u hu => ?_, fun w hmem hu => ?_⟩
  · rw [hn] at hmem
    split at hmem
    · cases hmem
    · rename_i hne
      obtain ⟨w, hold, rfl, hid, hno⟩ := h.notices u n hmem
      refine ⟨w, hsub hold, rfl, hid, ?_⟩
      rw [hw, List.mem_append, not_or]
      refine ⟨hno, fun htaken => hothers w hold hne ?_⟩
      obtain ⟨id, hid, heq⟩ := List.mem_map.1 htaken
      exact Int.ofNat.inj heq ▸ hid
  · rw [hn]
    split
    · exact List.nodup_nil
    · exact h.distinct u
  · rw [hn]
    split
    · rfl
    · rename_i hne
      exact h.spent u (hr u hne ▸ hu)
  · rcases hl w hmem hu with ⟨hold, hne, hu⟩ | ⟨rfl, hdone⟩
    · rw [hn, if_neg hne, hr _ hne, hw]
      exact (h.live w hold hu).imp id fun hdone => ⟨hdone.1, List.mem_append_left _ hdone.2⟩
    · exact .inr hdone

end Held

/-- Requests that were sent, some of them with tokens, and all that is known of them. -/
structure Watched (p : PeerId) (rs : List PendingRequest) (ws : List Watch) (l : Link) : Prop where
  kept : Kept p rs l
  /-- The ids are on the wire. -/
  told : ∀ r ∈ rs, .int r.id ∈ l.requestIds
  /-- A request that has not ended was not cut off either. -/
  opened : ∀ r ∈ rs, l.loop.ending? r.future = none → l.Open p
  sent : ∀ w ∈ ws, w.request ∈ rs
  single : (ws.map (·.request)).Nodup
  tokens : ∀ w ∈ ws, w.token < l.tokens.size
  retracted : Retracted ws l.said
  held : Held p ws l
  releases : Releases p ws l.loop

namespace Watched

/-- An id tells the requests apart, and their tokens. -/
theorem eq_of_id (h : Watched p rs ws l) {w w' : Watch} (hw : w ∈ ws) (hw' : w' ∈ ws)
    (heq : w.request.id = w'.request.id) : w = w' :=
  List.inj_on_of_nodup_map h.single hw hw'
    (eq_of_growing h.kept.ids (h.sent w hw) (h.sent w' hw') heq)

/-- A request that has not ended waits. -/
theorem waits (h : Watched p rs ws l) (hr : r ∈ rs) (hu : l.loop.ending? r.future = none) :
    r ∈ l.pending p := by
  by_contra hgone
  have := h.kept.ended r hr hgone
  rw [hu] at this
  cases this

/-- What can be taken back was sent. -/
theorem sent_of_waits (h : Watched p rs ws l) {id : Nat}
    (hid : ∃ r ∈ l.pending p, r.id = id) : .int id ∈ l.said.filterMap requestId? := by
  obtain ⟨r, hr, rfl⟩ := hid
  rw [← requestIds_eq]
  exact h.told r (h.kept.pending.subset hr)

/-- What had not ended later had not ended before. -/
theorem unended_of_defers (h : Defers l l') {f : FutureId} (hu : l'.loop.ending? f = none) :
    l.loop.ending? f = none := by
  by_contra hd
  have hdone : l.loop.done f = true := Option.isSome_iff_ne_none.2 hd
  have := h.loop.done f hdone
  rw [Loop.done, hu] at this
  cases this

/-- Where callbacks are only put off and nothing is taken back, all goes on; requests without a
token may join. -/
theorem deferred (h : Watched p rs ws l) (hd : Defers l l') (hk : Kept p rs' l') (hsub : rs ⊆ rs')
    (htold : ∀ r ∈ rs', .int r.id ∈ l'.requestIds) (hs : l'.said = l.said ++ news)
    (hnews : ∀ m ∈ news, withdrawal? m = none)
    (ho : ∀ r ∈ rs', l'.loop.ending? r.future = none → l'.Open p) : Watched p rs' ws l' := by
  have hw : l'.withdrawals = l.withdrawals := by
    unfold withdrawals
    rw [hs, List.filterMap_append, List.filterMap_eq_nil_iff.2 hnews, List.append_nil]
  have hnotices (t : TokenId) : l'.notices t = l.notices t := by
    simp only [Link.notices, hd.tokens]
  have hrequested (t : TokenId) : l'.requested t = l.requested t := by
    simp only [Link.requested, hd.tokens]
  have hheld : Held p ws l' := by
    refine ⟨fun t n hn => ?_, fun t => ?_, fun t ht => ?_, fun w hmem hu => ?_⟩
    · rw [hw]
      exact h.held.notices t n (hnotices t ▸ hn)
    · exact hnotices t ▸ h.held.distinct t
    · rw [hnotices]
      exact h.held.spent t (hrequested t ▸ ht)
    · rw [hnotices, hrequested, hw]
      exact h.held.live w hmem (unended_of_defers hd hu)
  exact ⟨hk, htold, ho, fun w hw => hsub (h.sent w hw), h.single, hd.tokens ▸ h.tokens,
    hs ▸ h.retracted.more (fun _ => id) hnews, hheld, h.releases.defers hd.loop⟩

/-- What leaves the requests alone keeps all that is known of them but what concerns tokens. -/
theorem asided (h : Watched p rs ws l) (ha : Aside p l l') (ho : l.Open p → l'.Open p) :
    Kept p rs l' ∧ (∀ r ∈ rs, .int r.id ∈ l'.requestIds) ∧
      ∀ r ∈ rs, l'.loop.ending? r.future = none → l'.Open p := by
  refine ⟨h.kept.resting ha.size (Nat.le_of_eq ha.lastId.symm) ha.pending ha.futures,
    fun r hr => ha.wire ▸ h.told r hr, fun r hr hu => ho (h.opened r hr ?_)⟩
  rw [← ha.futures.ending _ (h.kept.made r hr)]
  exact hu

/-! ### Taking requests back -/

/-- What taking some requests back adds to what was taken back: those that wait. -/
theorem taken {ids : List Nat} (h : TakesBack p ids l l') :
    ∃ taken : List Nat, taken.Sublist ids ∧
      l'.said = l.said ++ taken.map withdrawal ∧
      (∀ id ∈ taken, ∃ r ∈ l.pending p, r.id = id) ∧
      (l.Open p → ∀ id ∈ ids, (∃ r ∈ l.pending p, r.id = id) → id ∈ taken) := by
  by_cases ho : l.Open p
  · refine ⟨ids.filter fun id => (l.pending p).any (·.id == id), List.filter_sublist, h.said ho,
      fun id hid => ?_, fun _ id hid hw => ?_⟩
    · simpa using (List.mem_filter.1 hid).2
    · exact List.mem_filter.2 ⟨hid, by simpa using hw⟩
  · exact ⟨[], List.nil_sublist _, by simp [h.silent ho], nofun, fun ho' => absurd ho' ho⟩

/-- The requests of one token are taken back, and the token holds no notices any more; a request
may get the token just now. -/
theorem taking {ids : List Nat} (h : Watched p rs ws l) (hsub : ws ⊆ ws')
    (hsent : ∀ w ∈ ws', w.request ∈ rs) (hsingle : (ws'.map (·.request)).Nodup)
    (htokens : ∀ w ∈ ws', w.token < l.tokens.size)
    (hx : TakesBack p ids (withToken t ⟨true, []⟩ l) l') (hids : ids.Nodup)
    (hown : ∀ id ∈ ids, ∃ w ∈ ws', w.token = t ∧ w.request.id = id ∧ (id : Int) ∉ l.withdrawals)
    (hlive : ∀ w ∈ ws', l.loop.ending? w.request.future = none →
      w ∈ ws ∧ w.token ≠ t ∨
        w.token = t ∧ (w.request.id ∈ ids ∨ (w.request.id : Int) ∈ l.withdrawals)) :
    Watched p rs ws' l' := by
  have hlink : Aside p l (withToken t ⟨true, []⟩ l) := .of_same rfl (.refl _) rfl
  have haside := hlink.trans hx.aside
  obtain ⟨hkept, htold, hopened⟩ := h.asided haside (open_iff_of_quiet hx.quiet).2
  have hnotices (u : TokenId) : l'.notices u = if u = t then [] else l.notices u := by
    rw [← notices_cancelled]
    simp only [Link.notices, hx.defers.tokens]
  have hrequested (u : TokenId) (hu : u ≠ t) : l'.requested u = l.requested u := by
    simp only [Link.requested, hx.defers.tokens]
    rw [tokens_withToken_ne hu]
  obtain ⟨taken, htaken, hsaid, hwaiting, hall⟩ := taken hx
  replace hsaid : l'.said = l.said ++ taken.map withdrawal := hsaid
  have hwithdrawn : l'.withdrawals = l.withdrawals ++ taken.map Int.ofNat := by
    unfold withdrawals
    rw [hsaid, List.filterMap_append, Retracted.withdrawals_map]
  -- Only requests of the token are taken back, and none that was before.
  have hheld (id : Nat) (hid : id ∈ taken) :
      ∃ w ∈ ws', w.token = t ∧ w.request.id = id ∧ (id : Int) ∉ l.withdrawals :=
    hown id (htaken.subset hid)
  have hretracted : Retracted ws' l'.said := by
    rw [hsaid]
    refine h.retracted.extend hsub (hids.sublist htaken) (fun id hid => ?_) (fun id hid => ?_)
      fun id hid => ?_
    · exact h.sent_of_waits (hwaiting id hid)
    · obtain ⟨w, -, -, -, hno⟩ := hheld id hid
      exact hno
    · obtain ⟨w, hw, -, heq, -⟩ := hheld id hid
      exact ⟨w, hw, heq⟩
  have hothers (w : Watch) (hw : w ∈ ws) (hne : w.token ≠ t) : w.request.id ∉ taken := by
    intro hmem
    obtain ⟨w', hw', htoken, hid, -⟩ := hheld _ hmem
    have hrequest := eq_of_growing h.kept.ids (hsent w' hw') (h.sent w hw) hid
    obtain rfl := List.inj_on_of_nodup_map hsingle hw' (hsub hw) hrequest
    exact hne htoken
  refine ⟨hkept, htold, hopened, hsent, hsingle, ?_, hretracted, ?_, ?_⟩
  · rw [hx.defers.tokens]
    simpa [withToken] using htokens
  · refine h.held.emptied hsub hnotices hrequested hwithdrawn hothers fun w hw hu => ?_
    rw [haside.futures.ending _ (h.kept.made _ (hsent w hw))] at hu
    rcases hlive w hw hu with ⟨hold, hne⟩ | ⟨rfl, htaken⟩
    · exact .inl ⟨hold, hne, hu⟩
    · refine .inr ⟨rfl, ?_, ?_⟩
      · simp only [Link.requested, hx.defers.tokens]
        rw [getD_withToken (htokens w hw), if_pos rfl]
      · rw [hwithdrawn]
        rcases htaken with hid | hdone
        · have hr := hsent w hw
          have := hall (h.opened _ hr hu) _ hid ⟨_, h.waits hr hu, rfl⟩
          exact List.mem_append_right _ (List.mem_map_of_mem this)
        · exact List.mem_append_left _ hdone
  · exact (h.releases.mono hsub).defers hx.defers.loop

/-- The notices of a token are numbers of requests. -/
theorem exists_ids {ns : List Notice} (h : ∀ n ∈ ns, ∃ id, n = Notice.request p id) :
    ∃ ids : List Nat, ns = ids.map (Notice.request p) := by
  induction ns with
  | nil => exact ⟨[], rfl⟩
  | cons n ns ih =>
    obtain ⟨⟨id, rfl⟩, hns⟩ := List.forall_mem_cons.1 h
    obtain ⟨ids, rfl⟩ := ih hns
    exact ⟨id :: ids, rfl⟩

/-- **A token is cancelled**: its requests are taken back, and it holds no notices any more. -/
theorem revoked (h : Watched p rs ws l) (t : TokenId) :
    Ends (cancelToken t) l fun _ l' => Watched p rs ws l' ∧
      ∃ ids, TakesBack p ids (withToken t ⟨true, []⟩ l) l' := by
  have hnumbers : ∀ n ∈ l.notices t, ∃ id, n = Notice.request p id := fun n hn => by
    obtain ⟨w, -, -, rfl, -⟩ := h.held.notices t n hn
    exact ⟨_, rfl⟩
  obtain ⟨ids, hids⟩ := exists_ids hnumbers
  have hmem (id : Nat) : id ∈ ids ↔ Notice.request p id ∈ l.notices t := by
    rw [hids, List.mem_map_of_injective fun a b hab => (Notice.request.inj hab).2]
  refine (cancelToken_takes hids (h.held.spent t)).mono fun x l' hx => ⟨?_, ids, hx.2⟩
  refine h.taking (fun _ => id) h.sent h.single h.tokens hx.2 ?_ (fun id hid => ?_)
    fun w hw hu => ?_
  · have := h.held.distinct t
    rw [hids] at this
    exact List.Nodup.of_map _ this
  · obtain ⟨w, hw, htoken, hn, hno⟩ := h.held.notices t _ ((hmem id).1 hid)
    cases hn
    exact ⟨w, hw, htoken, rfl, hno⟩
  · by_cases ht : w.token = t
    · refine .inr ⟨ht, ?_⟩
      subst ht
      exact (h.held.live w hw hu).imp (hmem _).2 And.right
    · exact .inl ⟨hw, ht⟩

/-! ### Watching -/

/-- A token that was cancelled takes a request back at once. -/
theorem watch_spent {id : Nat} (hreq : l.requested t = true) (hspent : l.notices t = []) :
    Ends (watch t (.request p id)) l fun x l' =>
      x = .ok false ∧ TakesBack p [id] (withToken t ⟨true, []⟩ l) l' := by
  have htoken : l.tokens.getD t default = ⟨true, []⟩ := by
    cases hget : l.tokens.getD t default
    simp only [requested, notices, hget] at hreq hspent
    rw [hreq, hspent]
  unfold watch
  refine .read ?_
  rw [htoken]
  refine .change_bind (.bind (.bind (.outcome ?_)))
  refine (takeBack_takes p id _).mono fun x l₁ h => ?_
  obtain ⟨rfl, h⟩ := h
  exact .pure (.pure ⟨rfl, h⟩)

/-- A token that was not cancelled holds a notice about a request. -/
theorem watch_open {n : Notice} (hreq : l.requested t = false) :
    Ends (watch t n) l fun x l' =>
      x = .ok true ∧ l' = withToken t ⟨false, l.notices t ++ [n]⟩ l := by
  have hregister : (l.tokens.getD t default).register n = (false, ⟨false, l.notices t ++ [n]⟩) := by
    unfold requested at hreq
    unfold notices
    cases hget : l.tokens.getD t default
    rw [hget] at hreq
    obtain rfl := hreq
    rfl
  unfold watch
  refine .read ?_
  rw [hregister]
  exact .change_bind (.pure ⟨rfl, rfl⟩)

/-- A request of one's own may get a token that there is. -/
structure Joins (rs : List PendingRequest) (ws : List Watch) (l : Link) (w : Watch) : Prop where
  sent : w.request ∈ rs
  new : w.request ∉ ws.map (·.request)
  token : w.token < l.tokens.size
  unended : l.loop.ending? w.request.future = none

namespace Joins

theorem all_sent (hw : Joins rs ws l w) (h : Watched p rs ws l) :
    ∀ w' ∈ ws ++ [w], w'.request ∈ rs :=
  List.forall_mem_append.2 ⟨h.sent, by simpa using hw.sent⟩

theorem all_single (hw : Joins rs ws l w) (h : Watched p rs ws l) :
    ((ws ++ [w]).map (·.request)).Nodup := by
  rw [List.map_append]
  exact h.single.append (List.nodup_singleton _) (by simpa using hw.new)

theorem all_tokens (hw : Joins rs ws l w) (h : Watched p rs ws l) :
    ∀ w' ∈ ws ++ [w], w'.token < l.tokens.size :=
  List.forall_mem_append.2 ⟨h.tokens, by simpa using hw.token⟩

/-- It was not taken back before. -/
theorem not_withdrawn (hw : Joins rs ws l w) (h : Watched p rs ws l) :
    (w.request.id : Int) ∉ l.withdrawals := by
  intro hmem
  obtain ⟨w', hw', hid⟩ := h.retracted.own _ hmem
  have heq := eq_of_growing h.kept.ids hw.sent (h.sent w' hw') (Int.ofNat.inj hid)
  exact hw.new (heq ▸ List.mem_map_of_mem hw')

/-- No token knows of it. -/
theorem unknown (hw : Joins rs ws l w) (h : Watched p rs ws l) :
    w.notice p ∉ l.notices w.token := by
  intro hmem
  obtain ⟨w', hw', -, hn, -⟩ := h.held.notices _ _ hmem
  have hid : w.request.id = w'.request.id := by simpa [Watch.notice] using hn
  have heq := eq_of_growing h.kept.ids hw.sent (h.sent w' hw') hid
  exact hw.new (heq ▸ List.mem_map_of_mem hw')

end Joins

/-- A request with a token that was cancelled before is taken back. -/
theorem joined_spent (h : Watched p rs ws l) (hw : Joins rs ws l w)
    (hreq : l.requested w.token = true)
    (hx : TakesBack p [w.request.id] (withToken w.token ⟨true, []⟩ l) l') :
    Watched p rs (ws ++ [w]) l' := by
  have hspent := h.held.spent _ hreq
  refine h.taking (List.subset_append_left ws [w]) (hw.all_sent h) (hw.all_single h)
    (hw.all_tokens h) hx (List.nodup_singleton _) (fun id hid => ?_) fun w' hw' hu => ?_
  · obtain rfl := List.mem_singleton.1 hid
    exact ⟨w, by simp, rfl, rfl, hw.not_withdrawn h⟩
  · rcases List.mem_append.1 hw' with hold | hlast
    · by_cases hsame : w'.token = w.token
      · refine .inr ⟨hsame, .inr ?_⟩
        rcases h.held.live w' hold hu with hmem | ⟨-, hmem⟩
        · rw [hsame, hspent] at hmem
          cases hmem
        · exact hmem
      · exact .inl ⟨hold, hsame⟩
    · obtain rfl := List.mem_singleton.1 hlast
      exact .inr ⟨rfl, .inl (by simp)⟩

/-- The link once a token holds a notice about a request and the end of the request takes it off. -/
def watching (p : PeerId) (w : Watch) (l : Link) : Link :=
  { withToken w.token ⟨false, l.notices w.token ++ [w.notice p]⟩ l with
    loop := l.loop.whenDone .call w.request.future (w.release p) }

/-- A request with another token can be taken back from now on, until it has ended. -/
theorem joined_open (h : Watched p rs ws l) (hw : Joins rs ws l w)
    (hreq : l.requested w.token = false) : Watched p rs (ws ++ [w]) (watching p w l) := by
  have hsub := List.subset_append_left ws [w]
  have hrests : l.loop.Rests (l.loop.whenDone .call w.request.future (w.release p)) :=
    Loop.rests_whenDone ..
  have haside : Aside p l (watching p w l) := .of_same rfl hrests rfl
  obtain ⟨hkept, htold, hopened⟩ := h.asided haside id
  have hheld : Held p (ws ++ [w])
      (withToken w.token ⟨false, l.notices w.token ++ [w.notice p]⟩ l) := by
    refine h.held.withToken hsub hw.token hreq.symm (fun n hn => ?_) ?_ (fun hreq' => ?_)
      fun w' hw' hu' => ?_
    · rcases List.mem_append.1 hn with hn | hn
      · exact .inl hn
      · exact .inr ⟨w, by simp, rfl, List.mem_singleton.1 hn, hw.not_withdrawn h⟩
    · exact (h.held.distinct _).append (List.nodup_singleton _) (by simpa using hw.unknown h)
    · rw [hreq] at hreq'
      cases hreq'
    · rcases List.mem_append.1 hw' with hold | hlast
      · exact .inl ⟨hold, fun _ hmem => List.mem_append_left _ hmem⟩
      · obtain rfl := List.mem_singleton.1 hlast
        exact .inr ⟨rfl, by simp⟩
  have hretracted : Retracted (ws ++ [w]) l.said := by
    simpa using h.retracted.more hsub (List.forall_mem_nil _)
  have hdone : l.loop.done w.request.future = false := by
    rw [Loop.done, hw.unended]
    rfl
  refine ⟨hkept, htold, hopened, hw.all_sent h, hw.all_single h, ?_, hretracted, ?_,
    h.releases.whenDone hdone⟩
  · simpa [watching, withToken] using hw.all_tokens h
  · refine hheld.onLoop fun w' hw' hu' => ?_
    exact (hrests.ending _ (h.kept.made _ (hw.all_sent h w' hw'))).symm.trans hu'

/-- **A request gets a token.**  If the token was cancelled before, the request is taken back. -/
theorem joined (h : Watched p rs ws l) (hw : Joins rs ws l w) :
    Ends (watchUntil w.request.future w.token (w.notice p)) l fun _ l' =>
      Watched p rs (ws ++ [w]) l' ∧
        ∃ ids : List Nat, ids.Sublist [w.request.id] ∧ l'.said = l.said ++ ids.map withdrawal := by
  unfold watchUntil
  cases hreq : l.requested w.token with
  | true =>
    refine .bind ((watch_spent hreq (h.held.spent _ hreq)).mono fun x l₁ hx => ?_)
    obtain ⟨rfl, hx⟩ := hx
    obtain ⟨ids, hids, hsaid, -⟩ := taken hx
    exact .pure ⟨h.joined_spent hw hreq hx, ids, hids, hsaid⟩
  | false =>
    refine .bind ((watch_open hreq).mono fun x l₁ hx => ?_)
    obtain ⟨rfl, rfl⟩ := hx
    exact fun _ => ⟨h.joined_open hw hreq, [], List.nil_sublist _, (List.append_nil _).symm⟩

/-! ### Letting go -/

/-- **A callback is run**, some time after a request has ended: the token forgets about it. -/
theorem released {before after : List Job} {f : FutureId} {n : Notice} (h : Watched p rs ws l)
    (hj : l.loop.ready = before ++ .call (.unregister t n) f :: after) :
    Watched p rs ws (withToken t ((l.tokens.getD t default).unregister n)
      { l with loop := { l.loop with ready := before ++ after } }) := by
  obtain ⟨⟨w, hw, heq, rfl⟩, hdone⟩ := h.releases.jobs f t n (hj ▸ by simp)
  obtain ⟨rfl, rfl⟩ := Watch.release_eq heq
  have ht := h.tokens w hw
  have haside : Aside p l
      (withToken w.token ((l.tokens.getD w.token default).unregister (w.notice p))
        { l with loop := { l.loop with ready := before ++ after } }) :=
    .of_same rfl (.of_futures rfl) rfl
  obtain ⟨hkept, htold, hopened⟩ := h.asided haside id
  refine ⟨hkept, htold, hopened, h.sent, h.single, ?_, h.retracted, ?_, h.releases.took hj⟩
  · simpa [withToken] using h.tokens
  · have hloop : Held p ws { l with loop := { l.loop with ready := before ++ after } } :=
      h.held.onLoop fun _ _ => id
    refine hloop.withToken (fun _ => id) ht rfl (fun n hn => .inl (List.mem_of_mem_erase hn)) ?_
      (fun hreq => ?_) fun w' hw' hu => .inl ⟨hw', fun _ hmem => ?_⟩
    · exact (h.held.distinct _).erase _
    · have hnone : (l.tokens.getD w.token default).callbacks = [] := h.held.spent _ hreq
      show (l.tokens.getD w.token default).callbacks.erase _ = []
      rw [hnone]
      rfl
    · -- The request of the callback is done, so it is another one.
      refine (List.mem_erase_of_ne fun hn => ?_).2 hmem
      have hid : w'.request.id = w.request.id := by simpa [Watch.notice] using hn
      obtain rfl := h.eq_of_id hw' hw hid
      rw [Loop.done, show l.loop.ending? w'.request.future = none from hu] at hdone
      cases hdone

end Watched

end EditorBridge.Link
