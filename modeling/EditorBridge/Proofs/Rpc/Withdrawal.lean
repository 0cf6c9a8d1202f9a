/-
Taking requests back.

A request that is taken back is still waiting: nothing is written about a request that has
been answered, or after the connection was lost.  `TakesBack` says what comes of an attempt
to take some requests back, and it composes, so it is known of a token with any number of
requests: cancelling it takes back all of them that wait, in order, and nobody else's.
-/
import EditorBridge.Proofs.Rpc.Callbacks
import EditorBridge.Proofs.Rpc.Correlation

namespace EditorBridge

open Value (textAt? numberAt?)

namespace Link

open Act (Ends Keeps)

variable {p : PeerId} {l l' l'' : Link} {r : PendingRequest} {t : TokenId}

/-! ### Taking back on the wire -/

/-- The messages that were written. -/
def said (l : Link) : List Value := l.written.map (·.message)

/-- The message that takes a request back. -/
def withdrawal (id : Nat) : Value := notification cancelMethod (Value.table [("id", .int id)])

/-- The id of the request that a message takes back. -/
def withdrawal? (message : Value) : Option Int :=
  if textAt? "method" message = some cancelMethod ∧ message.get? "id" = none then
    (message.get? "params").bind (numberAt? "id")
  else none

/-- The ids of the requests that were taken back. -/
def withdrawals (l : Link) : List Int := l.said.filterMap withdrawal?

theorem withdrawal?_withdrawal (id : Nat) : withdrawal? (withdrawal id) = some (id : Int) := by
  simp [withdrawal?, withdrawal, notification, withParams, textAt?, numberAt?, Value.isNull,
    Value.table, Value.get?, Value.find?, Value.same]

theorem withdrawal?_request (id : Nat) (method : String) (params : Value) :
    withdrawal? (request id method params) = none := by
  unfold withdrawal? request withParams
  split <;> simp

theorem requestIds_eq (l : Link) : l.requestIds = l.said.filterMap requestId? := by
  simp [requestIds, said, List.filterMap_map]

/-- Whatever is taken back was sent before. -/
def Behind (ms : List Value) : Prop :=
  ∀ before m after, ms = before ++ m :: after → ∀ n, withdrawal? m = some n →
    .int n ∈ before.filterMap requestId?

theorem Behind.append {ms news : List Value} (h : Behind ms)
    (hn : ∀ m ∈ news, ∀ n, withdrawal? m = some n → .int n ∈ ms.filterMap requestId?) :
    Behind (ms ++ news) := by
  intro before m after heq n hm
  rcases List.append_eq_append_iff.1 heq with ⟨more, rfl, hnews⟩ | ⟨rest, rfl, hrest⟩
  · rw [List.filterMap_append]
    refine List.mem_append_left _ (hn m ?_ n hm)
    rw [hnews]
    simp
  · cases rest with
    | nil =>
      rw [List.nil_append] at hrest
      have := hn m (by rw [← hrest]; simp) n hm
      simpa using this
    | cons x rest =>
      obtain ⟨rfl, -⟩ := List.cons_eq_cons.1 hrest
      exact h before m rest rfl n hm

/-- Some requests are taken back, those of them that wait, if anything can be written. -/
structure TakesBack (p : PeerId) (ids : List Nat) (l l' : Link) : Prop where
  defers : Defers l l'
  aside : Aside p l l'
  quiet : Quiet l l'
  said : l.Open p →
    l'.said = l.said ++ (ids.filter fun id => (l.pending p).any (·.id == id)).map withdrawal
  silent : ¬l.Open p → l'.said = l.said

namespace TakesBack

theorem refl (p : PeerId) (l : Link) : TakesBack p [] l l where
  defers := .refl l
  aside := .refl p l
  quiet := .refl l
  said _ := (List.append_nil _).symm
  silent _ := rfl

theorem trans {ids ids' : List Nat} (h : TakesBack p ids l l') (h' : TakesBack p ids' l' l'') :
    TakesBack p (ids ++ ids') l l'' where
  defers := h.defers.trans h'.defers
  aside := h.aside.trans h'.aside
  quiet := h.quiet.trans h'.quiet
  said ho := by
    rw [h'.said ((open_iff_of_quiet h.quiet).2 ho), h.said ho, h.aside.pending, List.filter_append,
      List.map_append, List.append_assoc]
  silent ho := by
    rw [h'.silent fun ho' => ho ((open_iff_of_quiet h.quiet).1 ho'), h.silent ho]

end TakesBack

theorem said_frame {f : Frame} {lo : Loop Reply Callback Job} :
    ({ l with written := l.written ++ [f], loop := lo } : Link).said = l.said ++ [f.message] := by
  simp [said]

theorem takeBack_takes (p : PeerId) (id : Nat) (l : Link) :
    Ends (takeBack p id) l fun x l' => x = .ok () ∧ TakesBack p [id] l l' := by
  have hsaid : Ends (takeBack p id) l fun _ l' =>
      (l.Open p → l'.said = l.said ++ ([id].filter fun id => (l.pending p).any (·.id == id)).map
        withdrawal) ∧ (¬l.Open p → l'.said = l.said) := by
    refine .read ?_
    show Ends (if (l.pending p).any (·.id == id) then _ else _) l _
    cases hwaits : (l.pending p).any (·.id == id) with
    | false => exact .pure ⟨fun _ => by simp [hwaits], fun _ => rfl⟩
    | true =>
      refine .read (.bind (.log (.bind (.outcome ((write_ends p _ l).mono fun x l₁ h => ?_)))))
      cases h with
      | unconnected hno => exact .read (.log ⟨fun ⟨o, ho⟩ => absurd ho (hno o), fun _ => rfl⟩)
      | unwritable he => exact absurd he ((hasFrame_withdrawal id).render_ne _)
      | @frame o f lo ho _ hm =>
        refine .pure ⟨fun _ => ?_, fun hno => absurd ⟨o, ho⟩ hno⟩
        rw [said_frame, hm]
        simp [hwaits, withdrawal]
  have hall := (((takeBack_ok (p := p) (l := l) id).and hsaid).and
    (((defers_takeBack (q := p) id).ends l).and (((aside_takeBack (p := p) p id).ends l).and
      ((quiet_takeBack (p := p) id).ends l))))
  exact hall.mono fun x l' ⟨⟨hx, hs, hs'⟩, hd, ha, hq⟩ => ⟨hx, hd, ha, hq, hs, hs'⟩

/-- One notice after the other is heeded. -/
theorem heedAll_takes (p : PeerId) (ids : List Nat) (l : Link) :
    Ends (ForIn.forIn (ids.map (Notice.request p)) PUnit.unit fun n (_ : PUnit) => do
      Token.call (heed n)
      return ForInStep.yield PUnit.unit) l fun x l' =>
        (∃ b, x = .ok b) ∧ TakesBack p ids l l' := by
  induction ids generalizing l with
  | nil => exact .pure ⟨⟨_, rfl⟩, .refl p l⟩
  | cons id ids ih =>
    rw [List.map_cons, List.forIn_cons]
    refine .bind (.bind (.bind (.outcome ((takeBack_takes p id l).mono fun x l₁ h₁ => ?_))))
    obtain ⟨rfl, h₁⟩ := h₁
    exact .pure (.pure ((ih l₁).mono fun x l₂ h₂ => ⟨h₂.1, h₁.trans h₂.2⟩))

/-! ### Tokens -/

/-- Who is to be told when a token is cancelled. -/
def notices (l : Link) (t : TokenId) : List Notice := (l.tokens.getD t default).callbacks

/-- Whether a token was cancelled. -/
def requested (l : Link) (t : TokenId) : Bool := (l.tokens.getD t default).requested

/-- The link with another token in the place of one. -/
def withToken (t : TokenId) (token : Token Notice) (l : Link) : Link :=
  { l with tokens := l.tokens.setIfInBounds t token }

theorem getD_withToken {u : TokenId} {token : Token Notice} (ht : t < l.tokens.size) :
    (withToken t token l).tokens.getD u default =
      if u = t then token else l.tokens.getD u default := by
  by_cases hu : u = t
  · subst hu
    simp [withToken, ht]
  · simp [withToken, hu, Array.getElem?_setIfInBounds_ne (Ne.symm hu)]

/-- A token that is there is replaced, and the others stay. -/
theorem tokens_withToken_ne {u : TokenId} {token : Token Notice} (hu : u ≠ t) :
    (withToken t token l).tokens.getD u default = l.tokens.getD u default := by
  simp [withToken, Array.getElem?_setIfInBounds_ne (Ne.symm hu)]

/-- A token that was cancelled holds no notices, and the others hold theirs. -/
theorem notices_cancelled (t u : TokenId) (l : Link) :
    (withToken t ⟨true, []⟩ l).notices u = if u = t then [] else l.notices u := by
  unfold notices
  by_cases hu : u = t
  · subst hu
    rw [if_pos rfl]
    by_cases ht : u < l.tokens.size
    · rw [getD_withToken ht, if_pos rfl]
    · simp [withToken, ht]
      rfl
  · rw [if_neg hu, tokens_withToken_ne hu]

/-- A token that holds no notices once it is cancelled gives them all away when it is. -/
theorem Token.cancel_eq {κ : Type} {token : Token κ}
    (h : token.requested = true → token.callbacks = []) :
    token.cancel = (token.callbacks, ⟨true, []⟩) := by
  unfold Token.cancel
  split
  · rename_i hreq
    obtain ⟨requested, callbacks⟩ := token
    obtain rfl : requested = true := hreq
    obtain rfl : callbacks = [] := h rfl
    rfl
  · rfl

/-- **Cancelling a token** takes its requests back, those that wait. -/
theorem cancelToken_takes {ids : List Nat} (hn : l.notices t = ids.map (Notice.request p))
    (hspent : l.requested t = true → l.notices t = []) :
    Ends (cancelToken t) l fun x l' =>
      x = .ok () ∧ TakesBack p ids (withToken t ⟨true, []⟩ l) l' := by
  unfold cancelToken
  refine .read ?_
  rw [Token.cancel_eq hspent]
  refine .change_bind (.bind ?_)
  have hheed := heedAll_takes p ids (withToken t ⟨true, []⟩ l)
  rw [← hn] at hheed
  refine hheed.mono fun x l' h => ?_
  obtain ⟨⟨b, rfl⟩, h⟩ := h
  exact .pure ⟨rfl, h⟩

end Link

end EditorBridge
