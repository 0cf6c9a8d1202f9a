/-
What leaves the requests of an end alone.

Most of what a link does has nothing to do with the requests that one of its ends has sent:
callbacks are queued, tokens change hands, requests are taken back on the wire.  `Aside`
says so.  The numbers of the end and the requests that wait stay as they are, every future
is in the state it was in, and no request is written.

Futures need a closer look.  A future that is to be ended ends so unless it had ended before,
and this is all that happens to any future (`Loop.Settles`).
-/
import EditorBridge.Proofs.Server.Greeting

namespace EditorBridge

/-! ### Futures that stay as they are, and futures that end -/

namespace Loop

variable {α κ ω : Type} {l l' l'' : Loop α κ ω}

/-- No future is lost, and every one is in the state it was in. -/
structure Rests (l l' : Loop α κ ω) : Prop where
  size : l.futures.size ≤ l'.futures.size
  ending : ∀ f < l.futures.size, l'.ending? f = l.ending? f

theorem Rests.refl (l : Loop α κ ω) : l.Rests l := ⟨Nat.le_refl _, fun _ _ => rfl⟩

theorem Rests.trans (h : l.Rests l') (h' : l'.Rests l'') : l.Rests l'' where
  size := Nat.le_trans h.size h'.size
  ending f hf := (h'.ending f (Nat.lt_of_lt_of_le hf h.size)).trans (h.ending f hf)

/-- Only the futures matter. -/
theorem Rests.of_futures (h : l'.futures = l.futures) : l.Rests l' where
  size := Nat.le_of_eq (congrArg Array.size h.symm)
  ending f _ := by simp only [ending?, h]

theorem ending?_create (l : Loop α κ ω) (f : FutureId) : l.create.2.ending? f = l.ending? f := by
  unfold create ending?
  by_cases hf : f = l.futures.size
  · subst hf
    simp
  · simp [Array.getElem?_push, hf]

theorem rests_create (l : Loop α κ ω) : l.Rests l.create.2 where
  size := by simp [create]
  ending f _ := ending?_create l f

/-- Who is to be called does not matter. -/
theorem rests_whenDone (toJob : κ → FutureId → ω) (f : FutureId) (k : κ) (l : Loop α κ ω) :
    l.Rests (l.whenDone toJob f k) := by
  unfold whenDone
  split
  · exact .refl l
  · rename_i fut hfut
    split
    · exact .of_futures rfl
    · refine ⟨by simp, fun g hg => ?_⟩
      by_cases hfg : f = g
      · subst hfg
        have hget : l.futures[f] = fut := (Array.getElem?_eq_some_iff.1 hfut).2
        simp [ending?, hg, hget]
      · simp [ending?, Array.getElem?_setIfInBounds_ne hfg]

/-- Some futures end in some way unless they had ended before, and the others stay. -/
structure Settles (fs : List FutureId) (e : Ending α) (l l' : Loop α κ ω) : Prop where
  size : l'.futures.size = l.futures.size
  here : ∀ f ∈ fs, f < l.futures.size → l'.ending? f = some ((l.ending? f).getD e)
  elsewhere : ∀ f ∉ fs, l'.futures[f]? = l.futures[f]?

theorem Settles.nil (e : Ending α) (l : Loop α κ ω) : l.Settles [] e l where
  size := rfl
  here _ h := nomatch h
  elsewhere _ _ := rfl

theorem Settles.cons {f : FutureId} {fs : List FutureId} {e : Ending α} (h : l.Settles [f] e l')
    (h' : l'.Settles fs e l'') : l.Settles (f :: fs) e l'' where
  size := h'.size.trans h.size
  here g hg hlt := by
    have hlt' : g < l'.futures.size := h.size ▸ hlt
    by_cases hgf : g = f
    · subst hgf
      have hend := h.here g (by simp) hlt
      by_cases hgs : g ∈ fs
      · rw [h'.here g hgs hlt', hend]
        rfl
      · rw [← hend, ending?, ending?, h'.elsewhere g hgs]
    · have hend : l'.ending? g = l.ending? g := by
        rw [ending?, ending?, h.elsewhere g (by simpa using hgf)]
      rw [h'.here g ((List.mem_cons.1 hg).resolve_left hgf) hlt', hend]
  elsewhere g hg := by
    obtain ⟨hgf, hgs⟩ : g ≠ f ∧ g ∉ fs := by simpa using hg
    rw [h'.elsewhere g hgs, h.elsewhere g (by simpa using hgf)]

theorem settles_of_done {f : FutureId} {e₀ : Ending α} (e : Ending α) (h : l.ending? f = some e₀) :
    l.Settles [f] e l where
  size := rfl
  here g hg _ := by
    obtain rfl : g = f := by simpa using hg
    rw [h]
    rfl
  elsewhere _ _ := rfl

theorem settles_settle? {toJob : κ → FutureId → ω} {f : FutureId} {e : Ending α}
    (h : l.settle? toJob f e = some l') : l.Settles [f] e l' := by
  unfold settle? at h
  split at h
  · cases h
  · rename_i fut hfut
    split at h
    · cases h
    · rename_i hopen
      cases h
      obtain ⟨hlt, hget⟩ := Array.getElem?_eq_some_iff.1 hfut
      have hnone : fut.ending = none := by simpa using hopen
      refine ⟨by simp, fun g hg _ => ?_, fun g hg => ?_⟩
      · obtain rfl : g = f := by simpa using hg
        simp [ending?, hlt, hget, hnone]
      · have hfg : f ≠ g := fun heq => hg (by simp [heq])
        exact Array.getElem?_setIfInBounds_ne hfg

/-- A future that is not ended had ended before, or was never there. -/
theorem settles_of_settle?_none {toJob : κ → FutureId → ω} {f : FutureId} {e : Ending α}
    (h : l.settle? toJob f e = none) : l.Settles [f] e l := by
  unfold settle? at h
  split at h
  · rename_i hnone
    refine ⟨rfl, fun g hg hlt => ?_, fun _ _ => rfl⟩
    obtain rfl : g = f := by simpa using hg
    exact absurd hlt (Nat.not_lt.2 (Array.getElem?_eq_none_iff.1 hnone))
  · rename_i fut hfut
    split at h
    · rename_i hdone
      obtain ⟨e₀, he₀⟩ := Option.isSome_iff_exists.1 hdone
      exact settles_of_done e (show l.ending? f = some e₀ by simp [ending?, hfut, he₀])
    · cases h

/-- What had ended stays ended. -/
theorem Settles.ended {fs : List FutureId} {e e₀ : Ending α} {f : FutureId}
    (h : l.Settles fs e l') (hf : l.ending? f = some e₀) : l'.ending? f = some e₀ := by
  by_cases hmem : f ∈ fs
  · have hlt : f < l.futures.size := by
      obtain ⟨fut, hfut, -⟩ := Option.bind_eq_some_iff.1 hf
      exact (Array.getElem?_eq_some_iff.1 hfut).1
    rw [h.here f hmem hlt, hf]
    rfl
  · rw [← hf, ending?, ending?, h.elsewhere f hmem]

end Loop

namespace Link

open Act (Ends Keeps)

variable {p : PeerId} {l l' l'' : Link}

/-! ### The requests of an end -/

/-- The last number that an end gave to a request. -/
def lastId (l : Link) (p : PeerId) : Nat := (l.peers.getD p default).lastId

/-- The requests of an end that wait for their responses. -/
def pending (l : Link) (p : PeerId) : List PendingRequest := (l.peers.getD p default).pending

/-- The id of a message that is a request. -/
def requestId? (message : Value) : Option Value :=
  if (message.get? "method").isSome then message.get? "id" else none

/-- The ids of the requests that were written. -/
def requestIds (l : Link) : List Value := l.written.filterMap fun f => requestId? f.message

theorem requestId?_notification (method : String) (params : Value) :
    requestId? (notification method params) = none := by
  unfold requestId? notification withParams
  split <;> simp

theorem requestId?_request (id : Nat) (method : String) (params : Value) :
    requestId? (request id method params) = some (.int id) := by
  unfold requestId? request withParams
  split <;> simp

/-! ### What leaves them alone -/

/-- Between two states nothing happened to the requests of an end or to any future. -/
structure Aside (p : PeerId) (l l' : Link) : Prop where
  size : l.peers.size ≤ l'.peers.size
  lastId : l'.lastId p = l.lastId p
  pending : l'.pending p = l.pending p
  futures : l.loop.Rests l'.loop
  wire : l'.requestIds = l.requestIds

namespace Aside

theorem refl (p : PeerId) (l : Link) : Aside p l l := ⟨Nat.le_refl _, rfl, rfl, .refl _, rfl⟩

theorem trans (h : Aside p l l') (h' : Aside p l' l'') : Aside p l l'' where
  size := Nat.le_trans h.size h'.size
  lastId := h'.lastId.trans h.lastId
  pending := h'.pending.trans h.pending
  futures := h.futures.trans h'.futures
  wire := h'.wire.trans h.wire

instance : IsPreorder Link (Aside p) where
  refl := refl p
  trans _ _ _ := trans

/-- Only the ends, the futures and what was written matter. -/
theorem of_same (hp : l'.peers = l.peers) (hl : l.loop.Rests l'.loop)
    (hw : l'.requestIds = l.requestIds) : Aside p l l' where
  size := Nat.le_of_eq (congrArg Array.size hp.symm)
  lastId := by simp only [Link.lastId, hp]
  pending := by simp only [Link.pending, hp]
  futures := hl
  wire := hw

end Aside

theorem aside_onLoop {f : Loop Reply Callback Job → Loop Reply Callback Job}
    (h : ∀ lo : Loop Reply Callback Job, lo.Rests (f lo)) : Keeps (Aside p) (onLoop f) :=
  Keeps.change fun l => Aside.of_same rfl (h l.loop) rfl

instance aside_whenDone (f : FutureId) (k : Callback) : Keeps (Aside p) (whenDone f k) :=
  aside_onLoop (Loop.rests_whenDone Job.call f k)

instance aside_setToken (t : TokenId) (token : Token Notice) :
    Keeps (Aside p) (setToken t token) :=
  Keeps.change fun _ => Aside.of_same rfl (.refl _) rfl

/-- A notification is no request. -/
instance aside_notify (q : PeerId) (method : String) (params : Value) :
    Keeps (Aside p) (notify q method params) := by
  refine .of_ends fun l => (write_ends q _ l).mono fun r l' h => ?_
  cases h with
  | unconnected | unwritable => exact .refl p l
  | @frame o f lo _ _ hm hlo =>
    refine .of_same rfl (.of_futures hlo) ?_
    simp [requestIds, hm, requestId?_notification]

instance aside_orWarn (q : PeerId) (a : Act Link Unit) (what : String) [Keeps (Aside p) a] :
    Keeps (Aside p) (orWarn q a what) := by
  unfold orWarn
  refine .andThen fun r => ?_
  split <;> infer_instance

instance aside_takeBack (q : PeerId) (id : Nat) : Keeps (Aside p) (takeBack q id) := by
  unfold takeBack
  infer_instance

instance aside_call (a : Act Link Unit) [Keeps (Aside p) a] : Keeps (Aside p) (Token.call a) := by
  unfold Token.call
  refine .andThen fun r => ?_
  split <;> infer_instance

/-- A request is watched, and taken back at once if nobody waits for it any more. -/
instance aside_watchUntil (f : FutureId) (t : TokenId) (q : PeerId) (id : Nat) :
    Keeps (Aside p) (watchUntil f t (.request q id)) := by
  have hheed : Keeps (Aside p) (heed (.request q id)) := aside_takeBack q id
  have hwatch : Keeps (Aside p) (watch t (.request q id)) := by
    unfold watch
    infer_instance
  unfold watchUntil
  infer_instance

/-! ### Ending futures -/

/-- Some futures end in some way unless they had ended before, and nothing else happens. -/
def Settling (fs : List FutureId) (e : Ending Reply) (l l' : Link) : Prop :=
  ∃ lo, l.loop.Settles fs e lo ∧ l' = { l with loop := lo }

theorem settleOpen_settles (f : FutureId) (e : Ending Reply) (l : Link) :
    Ends (settleOpen f e) l fun r l' => (∃ b, r = .ok b) ∧ l.Settling [f] e l' := by
  refine .read ?_
  split
  · rename_i lo hlo
    exact .change_bind (.pure ⟨⟨_, rfl⟩, lo, Loop.settles_settle? hlo, rfl⟩)
  · rename_i hnone
    exact .pure ⟨⟨_, rfl⟩, l.loop, Loop.settles_of_settle?_none hnone, rfl⟩

/-- One future after the other is ended. -/
theorem settleAll_settles (rs : List PendingRequest) (e : Ending Reply) (l : Link) :
    Ends (ForIn.forIn rs PUnit.unit fun r (_ : PUnit) => do
      let _ ← settleOpen r.future e
      return ForInStep.yield PUnit.unit) l fun x l' =>
        (∃ b, x = .ok b) ∧ l.Settling (rs.map (·.future)) e l' := by
  induction rs generalizing l with
  | nil => exact .pure ⟨⟨_, rfl⟩, l.loop, .nil e l.loop, rfl⟩
  | cons r rs ih =>
    rw [List.forIn_cons]
    refine .bind (.bind ((settleOpen_settles r.future e l).mono fun x l' h => ?_))
    obtain ⟨⟨b, rfl⟩, lo, hlo, rfl⟩ := h
    refine .pure ((ih _).mono fun x l'' h' => ?_)
    obtain ⟨hx, lo', hlo', rfl⟩ := h'
    exact ⟨hx, lo', hlo.cons hlo', rfl⟩

end Link

end EditorBridge
