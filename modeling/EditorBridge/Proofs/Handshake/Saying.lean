/-
What a client says.

At an end that is connected to a process sending does not fail, and what is sent is one more
call to the process: `Says` keeps the account of the calls and of the numbers that requests
use up.  Working off the queue is one such call after the other.  A request is left out if its
future has ended, and since the futures that wait are nobody else's (`Spared`), that can be
told before the first message is sent.
-/
import EditorBridge.Proofs.Client.Answering
import EditorBridge.Proofs.Handshake.Hearing

namespace EditorBridge

open Json (Writable)

namespace Queued

/-- The message that a call becomes, with the number that it gets if it is a request. -/
def message (id : Nat) : Queued → Value
  | .notification method params => Link.notification method params
  | .request method params .. => Link.request id method params

/-- How many numbers a call uses up. -/
def numbers : Queued → Nat
  | .notification .. => 0
  | .request .. => 1

/-- Whether a call can be written. -/
def Writes : Queued → Prop
  | .notification _ params | .request _ params .. => Writable params

/-- The messages of calls whose requests are numbered in order. -/
def numbered (id : Nat) : List Queued → List Value
  | [] => []
  | q :: qs => q.message id :: numbered (id + q.numbers) qs

/-- How many numbers calls use up. -/
def total (qs : List Queued) : Nat := (qs.map numbers).sum

theorem numbered_append (id : Nat) (qs rs : List Queued) :
    numbered id (qs ++ rs) = numbered id qs ++ numbered (id + total qs) rs := by
  induction qs generalizing id with
  | nil => rfl
  | cons q qs ih =>
    rw [List.cons_append, numbered, ih, numbered, List.cons_append, Nat.add_assoc]
    rfl

theorem total_append (qs rs : List Queued) : total (qs ++ rs) = total qs + total rs := by
  simp [total]

end Queued

namespace Link

open Act (Ends Keeps Reads)

variable {l l' l'' : Link} {A : List TaskId} {f : FutureId} {p : PeerId} {n : ProcessId}
  {ms ms' : List Value} {i i' : Nat} {message : Value} {method : String} {params : Value}
  {target : Wire.Target} {token : Option TokenId} {q : Queued}

/-! ### The account -/

/-- Some messages were written to a process, and so many numbers of an end used up. -/
structure Says (n : ProcessId) (p : PeerId) (ms : List Value) (i : Nat) (l l' : Link) : Prop where
  calls : l'.callsTo n = l.callsTo n ++ ms.filter isCall
  lastId : l'.lastId p = l.lastId p + i

theorem Says.nothing (h : Hushed l l') : Says n p [] 0 l l' :=
  ⟨(h.calls n).trans (List.append_nil _).symm, h.lastId p⟩

theorem Says.trans (h : Says n p ms i l l') (h' : Says n p ms' i' l' l'') :
    Says n p (ms ++ ms') (i + i') l l'' where
  calls := by rw [h'.calls, h.calls, List.filter_append, List.append_assoc]
  lastId := by rw [h'.lastId, h.lastId, Nat.add_assoc]

theorem Says.hushed (h : Says n p ms i l l') (h' : Hushed l' l'') : Says n p ms i l l'' :=
  ⟨(h'.calls n).trans h.calls, (h'.lastId p).trans h.lastId⟩

/-- An end writes to a process that listens. -/
def Linked (n : ProcessId) (p : PeerId) (l : Link) : Prop := l.Connected p { process := some n }

/-- A connection is a matter of the wiring. -/
theorem Linked.mono (h : l.Linked n p) (hw : l'.wiring = l.wiring) : l'.Linked n p :=
  ⟨(congrFun (congrArg Wiring.outlet hw) p).trans h.1,
    (congrFun (congrArg Wiring.closing hw) n).trans h.2⟩

/-! ### Single messages -/

theorem says_write (h : l.Linked n p) (hm : HasFrame message) : Ends (write p message) l
    fun x l' => x = .ok () ∧ Says n p [message] 0 l l' := by
  refine (write_ends p message l).mono fun x l' hw => ?_
  cases hw with
  | unconnected hc => exact absurd h (hc _)
  | unwritable he => exact absurd he (hm.render_ne _)
  | frame ho hp hmessage hlo =>
    cases h.1.symm.trans ho.1
    refine ⟨rfl, ?_, rfl⟩
    rw [callsTo_frame, hp, if_pos rfl, hmessage]

/-- What becomes of a request that is sent is nobody else's concern. -/
instance stays_sendRequest : Keeps (Stays A f) (sendRequest p method params target token) := by
  unfold sendRequest
  refine stays_new (fun g f hf => ?_) f
  have hnumber (id : Nat) : Keeps (Stays A f) (onPeer p fun e => { e with lastId := id }) :=
    Keeps.change fun _ => stays_touched rfl fun _ => .inl
  have hpending (id : Nat) : Keeps (Stays A f)
      (onPeer p fun e =>
        { e with pending := e.pending ++ [{ id, method, future := g, target }] }) := by
    refine Keeps.change fun l => stays_touched rfl fun r hr => ?_
    rcases List.mem_append.1 hr with hr | hr
    · exact .inl hr
    · cases List.mem_singleton.1 hr
      exact .inr hf.symm
  have hwatch (t : TokenId) (id : Nat) :=
    stays_of_tacit (A := A) (f := f) (watchUntil g t (.request p id))
  refine .andThen fun e => .andThen fun _ => .andThen fun _ => .andThen fun _ => ?_
  cases token <;> infer_instance

/-- **A request is sent** with the next number, and has a new future. -/
theorem says_sendRequest (h : l.Linked n p) (hp : Writable params) (hl : l.Fit A) :
    Ends (sendRequest p method params target token) l fun x l' => x = .ok l.loop.futures.size ∧
      Says n p [request (l.lastId p + 1) method params] 1 l l' := by
  let g := l.loop.futures.size
  have hnumbering : Stays A (g + 1) l (l.numbering p) :=
    trans_of (Stays A (g + 1)) tacit_created.stays (stays_touched rfl fun _ => .inl)
  have hnumbered := numbered_numbering (size_of_outlet h.1)
  have hlinked : (l.numbering p).Linked n p := h.mono (hnumbering hl).wiring
  unfold sendRequest
  refine .bind (newFuture_ends.mono fun x l₁ h₁ => ?_)
  obtain ⟨rfl, rfl⟩ := h₁
  refine .read (.change_bind (.bind ?_))
  refine (((stays_write (A := A) (f := g + 1) (request (l.lastId p + 1) method params)).ends
    (l.numbering p)).and (says_write hlinked (hasFrame_request _ hp))).mono fun x l₂ h₂ => ?_
  obtain ⟨hs, rfl, hsaid⟩ := h₂
  let r : PendingRequest := ⟨l.lastId p + 1, method, g, target⟩
  let issue (e : Peer) : Peer := { e with pending := e.pending ++ [r] }
  have hissued : Stays A (g + 1) l₂ (touched p issue l₂) := by
    refine stays_touched rfl fun r' hr => ?_
    rcases List.mem_append.1 hr with hr | hr
    · exact .inl hr
    · exact .inr (List.mem_singleton.1 hr ▸ (Nat.succ_ne_self g).symm)
  have hfit : (touched p issue l₂).Fit A := (hissued (hs (hnumbering hl).fit).fit).fit
  have hsaid : Says n p [request (l.lastId p + 1) method params] 1 l (touched p issue l₂) := by
    refine ⟨hsaid.calls, ?_⟩
    exact (getD_modify Peer.lastId rfl p).trans (hsaid.lastId.trans hnumbered.lastId)
  refine .change_bind ?_
  cases token with
  | none => exact .pure ⟨rfl, hsaid⟩
  | some t =>
    refine .bind (((watchUntil_ok g t r.id).and
      ((tacit_watchUntil (A := A) (f := g) g t _).ends _)).mono fun x l₃ h₃ => ?_)
    obtain ⟨rfl, h₃⟩ := h₃
    exact .pure ⟨rfl, hsaid.hushed (h₃ hfit).2⟩

/-! ### Messages that had to wait -/

/-- What becomes of a message that had to wait concerns nobody but the future of its request. -/
theorem stays_sendQueued (hf : q.result? ≠ some f) : Keeps (Stays A f) (sendQueued q) := by
  have hpeer : Keeps (Stays A f) clientPeer := by
    unfold clientPeer
    refine .andThen fun c => ?_
    split <;> infer_instance
  have hlog (level : Level) (text : String) : Keeps (Stays A f) (logClient level text) := by
    unfold logClient
    infer_instance
  cases q with
  | notification method params =>
    have (p : PeerId) : Keeps (Stays A f) (notify p method params) :=
      stays_write (notification method params)
    unfold sendQueued
    refine .andThen fun r => ?_
    split <;> infer_instance
  | request method params target token result =>
    have hf : f ≠ result := fun h => hf (by rw [h]; rfl)
    have hpass (g : FutureId) : Keeps (Stays A f) (whenDone g (.pass result)) :=
      (tacit_whenDone (k := .pass result) rfl rfl rfl fun heq => hf (Option.some.inj heq).symm).mono
        fun _ _ => Tacit.stays
    have hsettle (e : Ending Reply) : Keeps (Stays A f) (Link.settle result e) :=
      (tacit_settle hf e).mono fun _ _ => Tacit.stays
    unfold sendQueued
    refine .andThen fun done => ?_
    split
    · infer_instance
    · refine .andThen fun r => ?_
      split <;> infer_instance

/-- Whether nobody has given up the answer of a call. -/
def Wanted (l : Link) (q : Queued) : Bool := q.result?.all fun f => !l.loop.done f

/-- **A message that had to wait** is sent, unless nobody wants it any more. -/
theorem says_sendQueued (h : l.Linked n p) (hpeer : l.client.peer = some p) (hq : q.Writes)
    (hl : l.Fit A) : Ends (sendQueued q) l fun x l' => x = .ok () ∧
      if l.Wanted q then Says n p [q.message (l.lastId p + 1)] q.numbers l l' else l' = l := by
  have hclient {α : Type} {a : PeerId → Act Link α} {Q : Except Failure α → Link → Prop}
      (ha : Ends (a p) l Q) : Ends (clientPeer >>= a) l Q := by
    refine .bind (clientPeer_ends.mono fun x l₁ h₁ => ?_)
    obtain ⟨rfl, hx⟩ := h₁
    cases x with
    | error e => cases hpeer.symm.trans hx
    | ok p' =>
      cases hpeer.symm.trans hx
      exact ha
  cases q with
  | notification method params =>
    refine .bind (.outcome (hclient
      ((says_write h (hasFrame_notification hq)).mono fun x l' h' => ?_)))
    obtain ⟨rfl, hs⟩ := h'
    exact .pure ⟨rfl, hs⟩
  | request method params target token result =>
    refine .read ?_
    have hwanted : l.Wanted (.request method params target token result) = !l.loop.done result :=
      rfl
    rw [hwanted]
    cases l.loop.done result with
    | true => exact .pure ⟨rfl, rfl⟩
    | false =>
      refine .bind (.outcome (hclient ((says_sendRequest h hq hl).mono fun x l₁ h₁ => ?_)))
      obtain ⟨rfl, hs⟩ := h₁
      dsimp only
      refine (whenDone_ends _ (.pass result) l₁).mono fun x l₂ h₂ => ?_
      obtain ⟨rfl, rfl⟩ := h₂
      exact ⟨rfl, hs.hushed ⟨fun _ => rfl, fun _ => rfl, fun _ _ => id⟩⟩

/-- The future of a call has ended, or is nobody else's. -/
def Apart (l : Link) (q : Queued) : Prop :=
  ∀ f, q.result? = some f → f < l.loop.futures.size ∧ (l.loop.done f = true ∨ l.Spared [] f)

/-- What leaves the future of a call alone does so with the call. -/
theorem Apart.mono (hs : ∀ f, q.result? = some f → Still A f l l') (h : l.Apart q) :
    l'.Apart q ∧ l'.Wanted q = l.Wanted q := by
  cases hq : q.result? with
  | none =>
    refine ⟨fun f hf => ?_, by simp [Wanted, hq]⟩
    cases hq.symm.trans hf
  | some f =>
    obtain ⟨hlt, hd⟩ := h f hq
    have hs := hs f hq
    have hlt' := Nat.lt_of_lt_of_le hlt hs.loop.futures
    have hapart (hd' : l'.loop.done f = true ∨ l'.Spared [] f) : l'.Apart q := by
      intro g hg
      cases hq.symm.trans hg
      exact ⟨hlt', hd'⟩
    simp only [Wanted, hq, Option.all_some]
    rcases hd with hd | hspared
    · have hd' := hs.loop.done f hd
      exact ⟨hapart (.inl hd'), by rw [hd, hd']⟩
    · obtain ⟨hspared', he⟩ := hs.free (.inl hlt) hspared
      exact ⟨hapart (.inr hspared'), by rw [Loop.done, he, Loop.done]⟩

/-- **The messages that had to wait** are sent in order, but for those that nobody wants. -/
theorem says_sendAll {qs : List Queued} (h : l.Linked n p) (hpeer : l.client.peer = some p)
    (hqs : ∀ q ∈ qs, q.Writes) (hl : l.Fit A) (hd : (qs.filterMap Queued.result?).Nodup)
    (ha : ∀ q ∈ qs, l.Apart q) : Ends (forIn qs PUnit.unit fun q _ => do
      sendQueued q
      pure (ForInStep.yield PUnit.unit)) l fun x l' => x = .ok PUnit.unit ∧
        Says n p (Queued.numbered (l.lastId p + 1) (qs.filter l.Wanted))
          (Queued.total (qs.filter l.Wanted)) l l' ∧
        ∀ f, (∀ q ∈ qs, q.result? ≠ some f) → Stays A f l l' := by
  induction qs generalizing l with
  | nil => exact .pure ⟨rfl, .nothing (.refl l), fun _ _ => refl_of (Stays A _) l⟩
  | cons q qs ih =>
    obtain ⟨hq, hqs⟩ := List.forall_mem_cons.1 hqs
    obtain ⟨-, ha⟩ := List.forall_mem_cons.1 ha
    have hstays : Ends (sendQueued q) l fun _ l' => ∀ f, q.result? ≠ some f → Stays A f l l' :=
      fun j f hf => (stays_sendQueued hf).keeps ⟨j, l⟩
    rw [List.forIn_cons]
    refine .bind (.bind (((says_sendQueued h hpeer hq hl).and hstays).mono fun x l₁ h₁ => ?_))
    obtain ⟨⟨rfl, hsaid⟩, hstays⟩ := h₁
    -- The future of the message is not that of any other, so it is nobody else's who waits.
    obtain ⟨f₀, hf₀⟩ : ∃ f, q.result? ≠ some f := by
      cases q.result? with
      | none => exact ⟨0, nofun⟩
      | some g => exact ⟨g + 1, by simp⟩
    have hstill := hstays f₀ hf₀ hl
    have hrest (q' : Queued) (hq' : q' ∈ qs) : l₁.Apart q' ∧ l₁.Wanted q' = l.Wanted q' := by
      refine (ha q' hq').mono fun f hf => hstays f (fun heq => ?_) hl
      have hmem : f ∈ qs.filterMap Queued.result? := List.mem_filterMap.2 ⟨q', hq', hf⟩
      rw [List.filterMap_cons_some heq] at hd
      exact (List.nodup_cons.1 hd).1 hmem
    have hd' : (qs.filterMap Queued.result?).Nodup := by
      cases hr : q.result? with
      | none => rwa [List.filterMap_cons_none hr] at hd
      | some f =>
        rw [List.filterMap_cons_some hr] at hd
        exact (List.nodup_cons.1 hd).2
    refine .pure ((ih (h.mono hstill.wiring) (hstill.client ▸ hpeer) hqs hstill.fit hd'
      fun q' hq' => (hrest q' hq').1).mono fun x l₂ h₂ => ?_)
    obtain ⟨rfl, hsaid₂, hstays₂⟩ := h₂
    refine ⟨rfl, ?_, fun f hf => ?_⟩
    · rw [List.filter_congr fun q' hq' => (hrest q' hq').2] at hsaid₂
      cases hwanted : l.Wanted q with
      | true =>
        rw [hwanted] at hsaid
        rw [List.filter_cons_of_pos hwanted]
        have := hsaid.trans hsaid₂
        rwa [hsaid.lastId, Nat.add_right_comm] at this
      | false =>
        rw [hwanted] at hsaid
        subst hsaid
        rwa [List.filter_cons_of_neg (by simp [hwanted])]
    · obtain ⟨hf, hfs⟩ := List.forall_mem_cons.1 hf
      exact trans_of (Stays A f) (hstays f hf) (hstays₂ f hfs)

end Link

end EditorBridge
