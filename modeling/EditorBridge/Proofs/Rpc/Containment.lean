/-
What can be taken does no harm.

A message that is civil is taken in every state, whatever else it is: nothing fails, a
request that does not wait any more has ended, and a response with a foreign id changes
nothing (`receiveMessage_handled`).

Being civil is not asked too much.  A message that is not does harm in some state
(`contained_iff_civil`): a method that is a list or a table cannot be looked up, a
notification with a number for a method cannot be passed over, an error that is no table
cannot be taken apart, and `true` is taken for the number 1.  The third of them is the worst:
its request is out of the table by then, so nobody will ever end it.
-/
import EditorBridge.Proofs.Rpc.Handling

namespace EditorBridge

open Json (Plain Writable)

namespace Link

open Act (Ends Keeps)

variable {p : PeerId} {l l' : Link} {message : Value}

/-! ### Messages -/

/-- Taking a message: what is none is refused, and the others are calls or responses. -/
theorem receiveMessage_eq (p : PeerId) (message : Value) :
    receiveMessage p message = if isMessage message then
      match message.get? "method" with
      | some method => receiveCall p method message
      | none => receiveResponse p message
    else (do
      Act.logBuilt (← peer p).logger .error fun _ =>
        .ok ("Invalid JSON-RPC message: " ++ message.shown)
      sendError p .null (.int invalidRequest) (.str "Invalid JSON-RPC message.")) := by
  cases message with
  | dict entries =>
    show (if !isMessage (.dict entries) then _ else _) = _
    cases isMessage (.dict entries) <;> rfl
  | _ => rfl

/-- **A civil message** is taken. -/
theorem receiveMessage_handled (hw : Waits p l) (hf : AllFair (l.handlers p)) (hp : Plain message)
    (hc : Civil message) : Ends (receiveMessage p message) l fun x l' =>
      x = .ok () ∧ Handled p (debt? message).toList (responds message) l l' := by
  have hid : ∀ v, message.get? "id" = some v → Writable v := fun v hv => (hp.get? hv).writable
  rw [receiveMessage_eq]
  cases hmessage : isMessage message with
  | false =>
    have hresponds : ∀ r ∈ l.pending p, responds message r = false := by simp [responds, hmessage]
    rw [if_neg (by simp), show debt? message = some .invalid by simp [debt?, hmessage]]
    refine .read (.bind (.log ?_))
    refine (sendError_ends .null (.int (by decide)) (.str _) .null l).mono fun x l' h => ?_
    exact ⟨h.1, (h.2.handled .invalid).congr hresponds⟩
  | true =>
    rw [if_pos rfl]
    -- A call is no response, and it is owed an answer if it has an id.
    have hcall (method : Value) (hm : message.get? "method" = some method)
        (hn : nameable method = true)
        (hstr : message.get? "id" = none → ∃ s, method = .str s) :
        Ends (match message.get? "method" with
          | some method => receiveCall p method message
          | none => receiveResponse p message) l fun x l' =>
            x = .ok () ∧ Handled p (debt? message).toList (responds message) l l' := by
      have hresponds : ∀ r ∈ l.pending p, responds message r = false := by simp [responds, hm]
      have hdebt : debt? message = (message.get? "id").map fun v =>
          Debt.call v method ((message.get? "params").getD .null) := by
        simp only [debt?, hmessage, hm, if_true]
        cases message.get? "id" <;> rfl
      rw [hm, hdebt]
      refine (receiveCall_handled hf hn hid hstr).mono fun x l' h => ?_
      exact ⟨h.1, h.2.congr hresponds⟩
    have hresponse (hm : message.get? "method" = none)
        (hid : message.get? "id" ≠ some (.bool true))
        (he : ∀ r ∈ l.pending p, respondsTo message r = true →
          ∃ e, endingOf r.target message = .ok e) :
        Ends (match message.get? "method" with
          | some method => receiveCall p method message
          | none => receiveResponse p message) l fun x l' =>
            x = .ok () ∧ Handled p (debt? message).toList (responds message) l l' := by
      have hdebt : debt? message = none := by simp [debt?, hmessage, hm]
      rw [hm, hdebt]
      exact receiveResponse_handled hw hmessage hm hid he
    cases hc with
    | refused h =>
      rw [hmessage] at h
      cases h
    | request hm hid hn =>
      exact hcall _ hm hn fun hnone => absurd (hid.symm.trans hnone) (Option.some_ne_none _)
    | notification hm => exact hcall _ hm rfl fun _ => ⟨_, rfl⟩
    | response hm hid he => exact hresponse hm hid fun _ _ _ => endingOf_ok he
    | stray hm hid hn =>
      exact hresponse hm hid fun r hr hto => absurd (respondsTo_iff.1 hto) (hn _ (hw.positive r hr))

/-! ### Messages that do harm -/

/-- Taking a message does no harm, whatever the end and its handlers: it does not fail, a request
that does not wait any more has ended, and without the id of a request nobody stops waiting. -/
def Contained (message : Value) : Prop :=
  ∀ p l, Waits p l → AllFair (l.handlers p) → Ends (receiveMessage p message) l fun x l' =>
    x = .ok () ∧ (∀ r ∈ l.pending p, r ∉ l'.pending p → l'.loop.done r.future = true) ∧
      ((∀ r ∈ l.pending p, respondsTo message r = false) → l'.pending p = l.pending p)

theorem Civil.contained (hp : Plain message) (hc : Civil message) : Contained message := by
  intro p l hw hf
  refine (receiveMessage_handled hw hf hp hc).mono fun x l' h =>
    ⟨h.1, fun r hr hn => ?_, fun hno => ?_⟩
  · refine h.2.done r hr ?_
    by_contra hgone
    exact hn (h.2.pending ▸ List.mem_filter.2 ⟨hr, by simp [hgone]⟩)
  · rw [h.2.pending]
    exact List.filter_eq_self.2 fun r hr => by simp [responds, hno r hr]

/-- A method that cannot be looked up. -/
theorem receiveCall_unhashable {method : Value} (hn : nameable method = false) (l : Link) :
    Ends (receiveCall p method message) l fun x _ => x ≠ .ok () := by
  unfold receiveCall
  refine .read ?_
  cases method with
  | list | dict => exact .bind (.throw nofun)
  | _ => cases hn

/-- A method that is no text, without an id: nobody can have meant it for a notification. -/
theorem receiveCall_fails {method : Value} (hid : message.get? "id" = none)
    (hs : ∀ s, method ≠ .str s) (l : Link) :
    Ends (receiveCall p method message) l fun x _ => x ≠ .ok () := by
  cases hn : nameable method with
  | false => exact receiveCall_unhashable hn l
  | true =>
    unfold receiveCall
    refine .read ?_
    rw [handlerOf_eq hn, hid]
    refine .bind (.pure ?_)
    cases method with
    | str s => exact absurd rfl (hs s)
    | _ => exact .throw nofun

/-- An end with one request that waits. -/
def awaiting1 (n : Nat) : Link where
  loop := { futures := #[{}] }
  peers := #[{ outlet := some {}, lastId := n, pending := [⟨n, "m", 0, .unchanged⟩] }]

theorem waits_awaiting1 {n : Nat} (hn : 0 < n) : Waits 0 (awaiting1 n) where
  size := Nat.one_pos
  positive r hr := by
    obtain rfl := List.mem_singleton.1 hr
    exact hn
  distinct := List.pairwise_singleton ..
  made r hr := by
    obtain rfl := List.mem_singleton.1 hr
    exact Nat.one_pos

/-- The request that a response is taken for does not wait any more, also if that fails. -/
theorem receiveResponse_awaiting1 {n : Nat} {Q : Except Failure Unit → Link → Prop}
    (hid : requestNumber? ((message.get? "id").getD .null) = some (n : Int))
    (h : Ends (conclude 0 message ⟨n, "m", 0, .unchanged⟩)
      (touched 0 (without ⟨n, "m", 0, .unchanged⟩) (awaiting1 n)) Q) :
    Ends (receiveResponse 0 message) (awaiting1 n) Q := by
  have hanswered : answered? message ((awaiting1 n).peers.getD 0 default) =
      some ⟨n, "m", 0, .unchanged⟩ := by simp [answered?, hid, awaiting1]
  rw [receiveResponse_eq]
  refine .read ?_
  rw [hanswered]
  exact .change_bind h

/-- The truth value is taken for the number of the first request. -/
theorem receiveResponse_true (hid : message.get? "id" = some (.bool true)) :
    Ends (receiveResponse 0 message) (awaiting1 1) fun _ l' => l'.pending 0 = [] := by
  refine receiveResponse_awaiting1 (by simp [hid, requestNumber?]) ?_
  have hkept : Keeps Mute (conclude 0 message ⟨1, "m", 0, .unchanged⟩) := by
    unfold conclude settle
    refine .andThen fun done => ?_
    split
    · infer_instance
    · refine .andThen fun e => ?_
      split <;> infer_instance
  refine (hkept.ends _).mono fun x l' h => ?_
  have hpeers : l'.pending 0 =
      (touched 0 (without ⟨1, "m", 0, .unchanged⟩) (awaiting1 1)).pending 0 := by
    simp only [Link.pending, h.peers]
  rw [hpeers, Goes.pending_without (waits_awaiting1 Nat.one_pos).size]
  simp [Link.pending, awaiting1]

/-- An error that is no table cannot be taken apart. -/
theorem receiveResponse_fails {n : Nat} (hid : message.get? "id" = some (.int n))
    (he : ¬TellsError message) :
    Ends (receiveResponse 0 message) (awaiting1 n) fun x _ => x ≠ .ok () := by
  refine receiveResponse_awaiting1 (by simp [hid, requestNumber?]) ?_
  have hfails : ∃ f, endingOf .unchanged message = .error f := by
    unfold endingOf
    cases herr : message.get? "error" with
    | none => exact absurd (.inl (by rw [herr]; rfl)) he
    | some v =>
      cases v with
      | null => exact absurd (.inl (by rw [herr]; rfl)) he
      | dict entries => exact absurd (.inr ⟨entries, herr⟩) he
      | _ => exact ⟨_, rfl⟩
  obtain ⟨f, hf⟩ := hfails
  unfold conclude
  refine .read ?_
  rw [if_neg (by simp [touched, awaiting1, Loop.done, Loop.ending?]), hf]
  refine .bind (.throw ?_)
  rintro ⟨⟩

/-- **Messages that can be taken**: a message does no harm exactly if it is civil. -/
theorem contained_iff_civil (hp : Plain message) : Contained message ↔ Civil message := by
  refine ⟨fun h => ?_, fun h => h.contained hp⟩
  cases hmessage : isMessage message with
  | false => exact .refused hmessage
  | true =>
    have hone {n : Nat} (hn : 0 < n) := h 0 (awaiting1 n) (waits_awaiting1 hn) nofun default
    rw [receiveMessage_eq, if_pos hmessage] at hone
    cases hm : message.get? "method" with
    | some method =>
      rw [hm] at hone
      cases hid : message.get? "id" with
      | some id =>
        refine .request hm hid ?_
        by_contra hn
        exact receiveCall_unhashable (by simpa using hn) _ default (hone Nat.one_pos).1
      | none =>
        by_cases hs : ∃ s, method = .str s
        · obtain ⟨s, rfl⟩ := hs
          exact .notification hm
        · have hs : ∀ s, method ≠ .str s := fun s heq => hs ⟨s, heq⟩
          exact absurd (hone Nat.one_pos).1 (receiveCall_fails hid hs _ default)
    | none =>
      rw [hm] at hone
      by_cases htrue : message.get? "id" = some (.bool true)
      · -- Nobody has that id, and yet the first request does not wait any more.
        have hkept := (hone Nat.one_pos).2.2 fun r _ => by simp [respondsTo, htrue]
        have hgone := receiveResponse_true htrue default
        rw [hgone] at hkept
        cases hkept
      · by_cases he : TellsError message
        · exact .response hm htrue he
        · refine .stray hm htrue fun n hn hid => ?_
          exact receiveResponse_fails hid he default (hone hn).1

end Link

end EditorBridge
