/-
The answer to the greeting.

What had to wait is sent once the server is ready, and from then on messages go to the
server and not to the queue.  For the tracker that makes no difference only if nothing is
lost on the way.  So the point of this file is that sending does not fail here: the end
writes to a process that listens (`Talks`), and whatever waits can be written.  All that
may be left out are requests that nobody waits for any more, and these only mention
documents.
-/
import EditorBridge.Proofs.Server.Starting

namespace EditorBridge.Link

open Act (Keeps Ends Reads)
open Json (Writable)

variable {c : Option Turn} {u : Turn} {t : Tracker} {l l' : Link} {p : PeerId} {o : Outlet}
  {method : String} {params : Value} {news : List Told}

/-! ### Writing that does not fail -/

theorem writable_withParams {front : List (String × Value)} (hf : ∀ e ∈ front, Writable e.2)
    (h : Writable params) : Writable (withParams params front) := by
  refine .table fun e he => ?_
  rcases List.mem_append.1 he with he | he
  · exact hf e he
  · split at he
    · cases he
    · rw [List.mem_singleton.1 he]
      exact h

theorem writable_notification (h : Writable params) : Writable (notification method params) :=
  writable_withParams (by simp [version, Writable.str]) h

theorem hasFrame_notification (h : Writable params) : HasFrame (notification method params) :=
  .of_writable (writable_notification h)

/-- A request can be sent if its parameters have a text, whatever its number. -/
theorem hasFrame_request (id : Nat) (h : Writable params) :
    HasFrame (request id method params) := by
  have hnumber : Frame.number? (request id method params) = some (id : Int) := by
    simp [Frame.number?, request, withParams]
  unfold HasFrame Frame.render
  rw [hnumber]
  refine Json.write_table fun e he => ?_
  have hshort (n : Int) (hn : Digits.fit n = true) :
      (Digits.fit n || some (id : Int) == some n) = true := by rw [hn, Bool.true_or]
  rcases List.mem_append.1 he with he | he
  · simp only [List.mem_cons, List.not_mem_nil, or_false] at he
    rcases he with rfl | rfl | rfl
    · exact Writable.str _ _ hshort _ _
    · exact ⟨_, Json.writeInt_ok (by simp)⟩
    · exact Writable.str _ _ hshort _ _
  · split at he
    · cases he
    · rw [List.mem_singleton.1 he]
      exact h _ hshort _ _

/-- A request can be taken back, whatever its number. -/
theorem hasFrame_withdrawal (id : Nat) :
    HasFrame (notification cancelMethod (Value.table [("id", .int id)])) := by
  have hnumber : Frame.number? (notification cancelMethod (Value.table [("id", .int id)])) =
      some (id : Int) := by
    simp [Frame.number?, notification, withParams, Value.table, Value.isNull, Value.get?,
      Value.find?, Value.same]
  unfold HasFrame Frame.render
  rw [hnumber]
  refine Json.write_table fun e he => ?_
  have hshort (n : Int) (hn : Digits.fit n = true) :
      (Digits.fit n || some (id : Int) == some n) = true := by rw [hn, Bool.true_or]
  simp only [Value.table, Value.isNull, List.mem_append, List.mem_cons, List.not_mem_nil, or_false,
    Bool.false_eq_true, if_false] at he
  rcases he with (rfl | rfl) | rfl
  · exact Writable.str _ _ hshort _ _
  · exact Writable.str _ _ hshort _ _
  · have hid : ∀ e ∈ [("id", Value.int id)], ∃ s, Json.write
        (fun n => Digits.fit n || some (id : Int) == some n) .compact 2 e.2 = .ok s :=
      List.forall_mem_singleton.2 ⟨_, Json.writeInt_ok (by simp)⟩
    exact Json.write_table hid

/-- Messages go out at once, to an end that writes to a process that listens. -/
structure Talks (l : Link) (p : PeerId) (o : Outlet) : Prop where
  recording : l.recording = false
  initialized : l.client.initialized = true
  peer : l.client.peer = some p
  connected : l.Connected p o

theorem Talks.mono (h : l.Talks p o) (ht : Tells news l l') : l'.Talks p o := by
  obtain ⟨hrec, hi, hp, ho, hc⟩ := h
  refine ⟨ht.recording.trans hrec, ht.initialized.trans hi, ht.peer.trans hp,
    (ht.outlet p).trans ho, ?_⟩
  rw [← hc]
  cases o.process with
  | none => rfl
  | some n => exact ht.closing n

theorem Talks.speaks (h : l.Talks p o) : l.Speaks p :=
  speaks_of_sending h.recording (by simp [sendsNow, h.initialized]) h.peer

theorem write_talks {message : Value} (h : l.Talks p o) (hw : HasFrame message) :
    Ends (write p message) l fun r l' =>
      r = .ok () ∧ Tells (Told.ofMessage? message).toList l l' := by
  refine ((write_ends p message l).and (write_tells h.speaks message)).mono fun r l' hr => ?_
  obtain ⟨hr, ht⟩ := hr
  cases hr with
  | unconnected hc => exact absurd h.connected (hc o)
  | unwritable he => exact absurd he (hw.render_ne _)
  | frame => exact ⟨rfl, ht⟩

theorem notify_talks (h : l.Talks p o) (hw : Writable params) :
    Ends (notify p method params) l fun r l' =>
      r = .ok () ∧ Tells (Told.of? method params).toList l l' := by
  rw [← told_notification]
  exact write_talks h (hasFrame_notification hw)

/-- A request is taken back, or not, and nobody hears of a failure. -/
theorem takeBack_ok (id : Nat) : Ends (takeBack p id) l fun r _ => r = .ok () := by
  refine .read ?_
  split
  · refine .read (.bind (.log ?_))
    refine .bind (.outcome ((write_ends p _ _).mono fun r l₁ h => ?_))
    cases h with
    | unconnected => exact .read (.log rfl)
    | unwritable he => exact absurd he ((hasFrame_withdrawal id).render_ne _)
    | frame => exact .pure rfl
  · exact .pure rfl

theorem whenDone_ok (f : FutureId) (k : Callback) : Ends (whenDone f k) l fun r _ => r = .ok () :=
  fun _ => rfl

theorem watchUntil_ok (f : FutureId) (k : TokenId) (id : Nat) :
    Ends (watchUntil f k (.request p id)) l fun r _ => r = .ok () := by
  have hend (b : Bool) (l : Link) : Ends (if b then whenDone f (.unregister k (.request p id))
      else pure ()) l fun r _ => r = .ok () := by
    split
    · exact whenDone_ok f _
    · exact .pure rfl
  unfold watchUntil watch
  refine .bind (.read ?_)
  dsimp only
  refine .change_bind ?_
  split
  · refine .bind (.bind (.outcome ((takeBack_ok id).mono fun r l₁ h => ?_)))
    subst h
    exact .pure (.pure (hend _ l₁))
  · exact .pure (hend _ _)

theorem onPeer_ok (f : Peer → Peer) : Ends (onPeer p f) l fun r _ => r = .ok () := fun _ => rfl

/-- **A request goes out** and has a future, also if it is cancelled at once. -/
theorem sendRequest_talks {target : Wire.Target} {token : Option TokenId} (h : l.Talks p o)
    (hw : Writable params) : Ends (sendRequest p method params target token) l fun r l' =>
      (∃ f, r = .ok f) ∧ Tells (Told.of? method params).toList l l' := by
  unfold sendRequest
  refine .bind ((newFuture_ends.and (quiet_newFuture.ends l)).mono fun r l₁ h₁ => ?_)
  obtain ⟨⟨rfl, -⟩, h₁⟩ := h₁
  refine .read (.bind (((onPeer_ok _).and ((quiet_onPeer_lastId _).ends l₁)).mono
    fun r l₂ h₂ => ?_))
  obtain ⟨rfl, h₂⟩ := h₂
  have h₂ := h₁.trans h₂
  refine .bind ((write_talks (h.mono h₂) (hasFrame_request _ hw)).mono fun r l₃ h₃ => ?_)
  obtain ⟨rfl, h₃⟩ := h₃
  rw [told_request] at h₃
  have h₃ := h₂.trans h₃
  refine .bind (((onPeer_ok _).and ((quiet_onPeer_pending _).ends l₃)).mono fun r l₄ h₄ => ?_)
  obtain ⟨rfl, h₄⟩ := h₄
  have h₄ := h₃.trans h₄
  rw [List.append_nil] at h₄
  cases token with
  | none => exact .pure ⟨⟨_, rfl⟩, h₄⟩
  | some k =>
    refine .bind (((watchUntil_ok _ k _).and ((quiet_watchUntil ..).ends l₄)).mono fun r l₅ h₅ => ?_)
    obtain ⟨rfl, h₅⟩ := h₅
    have h₅ := h₄.trans h₅
    rw [List.append_nil] at h₅
    exact .pure ⟨⟨_, rfl⟩, h₅⟩

/-! ### Sending what had to wait -/

/-- What had to wait was sent, but for what only mentions documents. -/
def Delivered (waiting : List Told) (l l' : Link) : Prop :=
  ∃ news, Tells news l l' ∧
    ∀ told rest, Thinned told rest → Thinned (told ++ waiting) (rest ++ news)

theorem Delivered.of_tells {x : Option Told} (h : Tells x.toList l l') :
    Delivered x.toList l l' := by
  refine ⟨_, h, fun told rest hr => ?_⟩
  cases x with
  | none => simpa using hr
  | some x => exact .keep hr x

theorem sendQueued_talks {q : Queued} (h : l.Talks p o) (hq : l.Sendable q) :
    Ends (sendQueued q) l fun r l' => r = .ok () ∧ Delivered q.told?.toList l l' := by
  cases q with
  | notification method params =>
    refine .bind (.outcome (.bind (clientPeer_ends.mono fun r l₁ h₁ => ?_)))
    obtain ⟨rfl, hp⟩ := h₁
    cases r with
    | error f => simp [h.peer] at hp
    | ok p' =>
      cases h.peer.symm.trans hp
      refine (notify_talks h hq).mono fun r l₂ h₂ => ?_
      obtain ⟨rfl, h₂⟩ := h₂
      exact .pure ⟨rfl, .of_tells h₂⟩
  | request method params target token result =>
    obtain ⟨hw, -, hm⟩ := hq
    refine .read ?_
    split
    · -- Nobody waits for the answer any more.
      refine .pure ⟨rfl, [], .refl l, fun told rest hr => ?_⟩
      rw [List.append_nil]
      rcases Told.of?_mentioning hm params with hnone | ⟨uri, hsome⟩
      · simpa [Queued.told?, hnone] using hr
      · simpa [Queued.told?, hsome] using hr.skip uri
    · refine .bind (.outcome (.bind (clientPeer_ends.mono fun r l₁ h₁ => ?_)))
      obtain ⟨rfl, hp⟩ := h₁
      cases r with
      | error f => simp [h.peer] at hp
      | ok p' =>
        cases h.peer.symm.trans hp
        refine (sendRequest_talks h hw).mono fun r l₂ h₂ => ?_
        obtain ⟨⟨f, rfl⟩, h₂⟩ := h₂
        refine ((whenDone_ok f _).and ((quiet_whenDone f _).ends l₂)).mono fun r l₃ h₃ => ?_
        obtain ⟨rfl, h₃⟩ := h₃
        have h₃ := h₂.trans h₃
        rw [List.append_nil] at h₃
        exact ⟨rfl, .of_tells h₃⟩

theorem Delivered.trans {a b : List Told} {l'' : Link} (h : Delivered a l l')
    (h' : Delivered b l' l'') : Delivered (a ++ b) l l'' := by
  obtain ⟨news, ht, hn⟩ := h
  obtain ⟨more, ht', hm⟩ := h'
  refine ⟨news ++ more, ht.trans ht', fun told rest hr => ?_⟩
  rw [← List.append_assoc, ← List.append_assoc]
  exact hm _ _ (hn _ _ hr)

/-- **Everything that had to wait goes out**, one message after the other. -/
theorem sendAll_talks {qs : List Queued} (h : l.Talks p o) (hqs : ∀ q ∈ qs, l.Sendable q) :
    Ends (forIn qs PUnit.unit fun q _ => do
      sendQueued q
      pure (ForInStep.yield PUnit.unit)) l fun r l' =>
      r = .ok PUnit.unit ∧ Delivered (qs.filterMap Queued.told?) l l' := by
  induction qs generalizing l with
  | nil => exact .pure ⟨rfl, [], .refl l, fun told rest hr => by simpa using hr⟩
  | cons q qs ih =>
    obtain ⟨hq, hqs⟩ := List.forall_mem_cons.1 hqs
    rw [List.forIn_cons]
    refine .bind (.bind ((sendQueued_talks h hq).mono fun r l₁ h₁ => ?_))
    obtain ⟨rfl, h₁⟩ := h₁
    obtain ⟨news, ht, -⟩ := id h₁
    refine .pure ((ih (h.mono ht) fun q' hq' => (hqs q' hq').mono ht.grows).mono fun r l₂ h₂ => ?_)
    refine ⟨h₂.1, ?_⟩
    rw [show (q :: qs).filterMap Queued.told? = q.told?.toList ++ qs.filterMap Queued.told? by
      cases hq : q.told? <;> simp [hq]]
    exact h₁.trans h₂.2

/-! ### A server that is ready -/

/-- The link once messages go out at once and nothing waits. -/
def welcomed (l : Link) : Link :=
  { l with client := { l.client with initialized := true, queued := [] } }

/-- A server that becomes ready has heard nothing, so it knows what a tracker does that knows
nothing. -/
theorem Settled.welcomed (h : Settled c t l) (hp : l.client.peer = some p)
    (ho : l.outlet p = some o) : Settled c {} l.welcomed := by
  constructor
  · exact { h.toSound with
      obeyed := fun e => by
        cases e with
        | queue => exact openBeforeUse_nil
        | recorder => exact h.obeyed .recorder
        | frames n => exact h.obeyed (.frames n)
        | nobody => exact openBeforeUse_nil
      covers := fun _ => Tracker.covers_empty _
      sendable := fun q hq => nomatch hq
      flushed := fun _ => rfl
      silent := nofun
      fresh := h.fresh
      served := fun _ q hq => by
        cases hp.symm.trans hq
        obtain ⟨n, hn, -, howner⟩ := h.outlets p o ho
        exact ⟨n, hn, howner⟩
      tasked := h.tasked.grows (.of_loop (.refl _) rfl) (Nat.le_refl _) rfl fun _ _ => rfl }
  · exact fun _ _ => rfl

/-- The queue is sent to a server that becomes ready. -/
theorem flush_welcomes (h : Settled c t l) (hi : l.client.initialized = false)
    (hp : l.client.peer = some p) (ho : l.outlet p = some o) :
    Ends flush { l with client := { l.client with initialized := true } } fun r l' =>
      r = .ok () ∧ Settled c t l' ∧ l'.spawned.length = l.spawned.length ∧
        (l.client.peer = none → l'.client.peer = none) := by
  have htalks : l.welcomed.Talks p o := by
    refine ⟨h.recording, rfl, hp, ho, ?_⟩
    obtain ⟨n, -, hon, -⟩ := h.outlets p o ho
    rw [hon]
    exact h.listening n
  have hear : l.ear = .queue := by
    rw [ear_eq h.recording, hp]
    simp [hi]
  refine .read (.change_bind ?_)
  refine .bind ((sendAll_talks htalks fun q hq => ?_).mono fun r l' h' => ?_)
  · exact (h.sendable q hq).mono (.of_loop (.refl _) rfl)
  · obtain ⟨rfl, news, ht, hn⟩ := h'
    refine .pure ⟨rfl, (h.welcomed hp ho).told ht ?_, ht.spawned, ht.peer.trans⟩
    obtain ⟨hobeyed, hopen⟩ := (hn [] [] .nil).openBeforeUse (h.obeyed .queue)
    have hcovers : t.Covers (l.heard .queue) := by
      have := h.covers (by simp [hear])
      rwa [hear] at this
    exact .anew (fun u hu => hopen u (hcovers u hu)) hobeyed

/-- If nothing waits there is nothing to be sent. -/
theorem flush_nothing (h : l.client.queued = []) :
    Ends flush l fun r l' => r = .ok () ∧ Quiet l l' := by
  have hquiet : Quiet l { l with client := { l.client with queued := [] } } :=
    quiet_rest rfl rfl rfl ⟨h.symm, rfl, rfl⟩
  refine .read (.change_bind ?_)
  rw [h]
  exact .pure ⟨rfl, hquiet⟩

/-! ### The answer -/

/-- **A server that is ready** was greeted at an end that writes to it, and gets the queue. -/
theorem initialized_ends (h : Settled c t l) (hp : l.client.peer = some p)
    (ho : l.outlet p = some o) :
    Ends flush { l with client := { l.client with initialized := true } } fun _ l' =>
      Settled c t l' ∧ l'.spawned.length = l.spawned.length ∧
        (l.client.peer = none → l'.client.peer = none) := by
  cases hi : l.client.initialized with
  | false => exact (flush_welcomes h hi hp ho).mono fun _ _ h' => h'.2
  | true =>
    -- It was ready before, so nothing waits.
    have hsame : { l with client := { l.client with initialized := true } } = l := by rw [← hi]
    rw [hsame]
    refine (flush_nothing (h.flushed hi)).mono fun r l' h' => ?_
    exact ⟨h.told h'.2 (.refl t), h'.2.spawned, h'.2.peer.trans⟩

/-- **The answer to the greeting** loses nothing that a tracker counts on. -/
instance steady_welcome (ready : Option FutureId) (g : Wire) :
    Keeps (Steady c c) (welcome ready g) := by
  have hrest : Keeps (Steady c c) (do
      Act.logBuilt Client.logger .info fun _ => greetedText g
      if let some f := ready then
        let _ ← settleOpen f (.result (.wire g))) := by
    cases ready <;> infer_instance
  refine .andThen fun _ => .of_ends fun l => .ends fun t h => ?_
  refine .bind (clientPeer_ends.mono fun r l' hp => ?_)
  obtain ⟨rfl, hp⟩ := hp
  cases r with
  | error f => exact ⟨h, rfl, id⟩
  | ok p =>
    have hnotify : Keeps Quiet (notify p "initialized" (Value.table [])) :=
      quiet_notify (by decide) _
    refine .bind (((write_ends p _ l').and (hnotify.ends l')).mono fun r l₁ h₁ => ?_)
    obtain ⟨hw, h₁⟩ := h₁
    have hs := h.told h₁ (.refl t)
    cases hw with
    | unconnected | unwritable => exact ⟨h, rfl, id⟩
    | frame ho =>
      have hpeer := h₁.peer.trans hp
      refine .change_bind (.bind ((initialized_ends hs hpeer ((h₁.outlet p).trans ho.1)).mono
        fun r l₂ h₂ => ?_))
      obtain ⟨hs₂, hl, hn⟩ := h₂
      cases r with
      | error f => exact ⟨hs₂, hl.trans h₁.spawned, fun hnone => hn (h₁.peer.trans hnone)⟩
      | ok _ =>
        refine (hrest.ends l₂).mono fun _ l₃ h₃ => ?_
        obtain ⟨hs₃, hl₃, hn₃⟩ := h₃ t hs₂
        exact ⟨hs₃, hl₃.trans (hl.trans h₁.spawned), fun hnone => hn₃ (hn (h₁.peer.trans hnone))⟩

instance steady_greeted (ready : Option FutureId) (r : Except Failure Reply) :
    Keeps (Steady c c) (greeted ready r) := by
  unfold greeted
  split
  · infer_instance
  · refine .andThen fun x => ?_
    split <;> infer_instance

end EditorBridge.Link
