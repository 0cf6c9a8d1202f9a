/-
Handlers that play fair.

The other side calls methods, and what a handler makes of a call is its own business, as long
as it comes to something that can be answered with: a value that has a text, an error of its
own, or a failure that is no more than an error (`Fair`).  The handlers of a language client
do, and so do those that only note what they are given, if what they are told to answer is
fair.  Whatever a handler does on the way, it changes no end and answers nobody itself
(`Mute`); cancelling a token, which is the most it can do, always goes through.
-/
import EditorBridge.Proofs.Rpc.Aside

namespace EditorBridge

open Json (Writable)

/-- Whoever takes an error takes the error of a value that could not be built. -/
theorem Failure.isError_wire (e : Wire.Error) : (Failure.wire e).isError = true := by
  cases e <;> rfl

/-! ### Handlers that play fair -/

/-- An outcome that can be answered with: a value that has a text, an error whose parts have one,
or a failure that is an error. -/
def Fair : Except Failure Value → Prop
  | .ok v => Writable v
  | .error (.remote code message data) => Writable code ∧ Writable message ∧ Writable data
  | .error f => f.isError = true

/-- Whatever the parameters, a handler comes to something that can be answered with. -/
def Handler.Fair (h : Handler) : Prop :=
  match h.reaction with
  | .note _ _ answer => ∀ w, EditorBridge.Fair (answer w)
  | _ => True

/-- What a language client does with the calls of its server is fair. -/
theorem Peer.fair_clientHandlers : ∀ h ∈ Peer.clientHandlers, h.2.Fair := by
  simp [Peer.clientHandlers, Handler.Fair]

namespace Link

open Act (Ends Keeps Reads)

variable {p : PeerId} {l l' l'' : Link}

/-! ### What calls leave alone -/

/-- What was written and is no call. -/
def answers (l : Link) : List Value :=
  (l.written.map (·.message)).filter fun m => (m.get? "method").isNone

/-- The ends are as they were, and nobody was answered. -/
structure Mute (l l' : Link) : Prop where
  peers : l'.peers = l.peers
  answers : l'.answers = l.answers

namespace Mute

theorem refl (l : Link) : Mute l l := ⟨rfl, rfl⟩

theorem trans (h : Mute l l') (h' : Mute l' l'') : Mute l l'' :=
  ⟨h'.peers.trans h.peers, h'.answers.trans h.answers⟩

instance : IsPreorder Link Mute where
  refl := refl
  trans _ _ _ := trans

/-- Only the ends and what was written matter. -/
theorem of_same (hp : l'.peers = l.peers) (hw : l'.written = l.written) : Mute l l' :=
  ⟨hp, by simp only [Link.answers, hw]⟩

end Mute

instance mute_setToken (t : TokenId) (token : Token Notice) : Keeps Mute (setToken t token) :=
  Keeps.change fun _ => .of_same rfl rfl

instance mute_settleOpen (f : FutureId) (e : Ending Reply) : Keeps Mute (settleOpen f e) := by
  refine .of_ends fun l => (settleOpen_ends f e).mono fun r l' h => ?_
  obtain ⟨lo, -, rfl⟩ := h
  exact .of_same rfl rfl

/-- A notification is no answer. -/
instance mute_notify (q : PeerId) (method : String) (params : Value) :
    Keeps Mute (notify q method params) := by
  refine .of_ends fun l => (write_ends q _ l).mono fun r l' h => ?_
  cases h with
  | unconnected | unwritable => exact .refl l
  | @frame o f lo _ _ hm _ =>
    have hcall : ((notification method params).get? "method").isNone = false := by
      unfold notification withParams
      split <;> simp
    exact ⟨rfl, by simp [Link.answers, hm, hcall]⟩

instance mute_orWarn (q : PeerId) (a : Act Link Unit) (what : String) [Keeps Mute a] :
    Keeps Mute (orWarn q a what) := by
  unfold orWarn
  refine .andThen fun r => ?_
  split <;> infer_instance

instance mute_heed (n : Notice) : Keeps Mute (heed n) := by
  have (method : String) : Keeps Mute (Act.change fun l : Link => { l with
      recorder := { l.recorder with
        notes := l.recorder.notes ++ [{ kind := "cancel", method := some method }] } }) :=
    Keeps.change fun _ => .of_same rfl rfl
  unfold heed takeBack noteCancelled
  split <;> infer_instance

instance mute_call (a : Act Link Unit) [Keeps Mute a] : Keeps Mute (Token.call a) := by
  unfold Token.call
  refine .andThen fun r => ?_
  split <;> infer_instance

instance mute_cancelToken (t : TokenId) : Keeps Mute (cancelToken t) := by
  unfold cancelToken
  infer_instance

instance mute_perform (reaction : Reaction) (params : Wire) :
    Keeps Mute (perform p reaction params) := by
  have (method : String) : Keeps Mute (Act.change fun l : Link =>
      { l with calls := l.calls ++ [(method, params.toValue)] }) :=
    Keeps.change fun _ => .of_same rfl rfl
  unfold perform
  split
  · rename_i cancels _
    cases cancels <;> infer_instance
  all_goals infer_instance

instance mute_handle (h : Handler) (params : Value) : Keeps Mute (handle p h params) := by
  unfold handle
  infer_instance

/-! ### Handlers come to something -/

/-- Nobody who heeds the end of a token fails. -/
theorem heed_ok (n : Notice) (l : Link) : Ends (heed n) l fun x _ => x = .ok () := by
  cases n with
  | request q id => exact takeBack_ok id
  | note method f =>
    refine .change_bind (.read ?_)
    split
    · refine .bind ((settleOpen_settles f _ _).mono fun x l' h => ?_)
      obtain ⟨⟨b, rfl⟩, -⟩ := h
      exact .pure rfl
    · exact .pure rfl

theorem call_ok {a : Act Link Unit} (h : Ends a l fun x _ => x = .ok ()) :
    Ends (Token.call a) l fun x _ => x = .ok () := by
  refine .bind (.outcome (h.mono fun x l' hx => ?_))
  subst hx
  exact .pure rfl

/-- **Cancelling a token** goes through. -/
theorem cancelToken_ok (t : TokenId) (l : Link) :
    Ends (cancelToken t) l fun x _ => x = .ok () := by
  refine .read (.change_bind (.bind ?_))
  refine (Ends.forIn (I := fun _ => True) (fun n _ b l₁ _ => ?_) trivial).mono fun x l₁ h => ?_
  · refine .bind ((call_ok (heed_ok n l₁)).mono fun x l₂ h => ?_)
    subst h
    exact .pure ⟨⟨b, rfl⟩, trivial⟩
  · obtain ⟨⟨b, rfl⟩, -⟩ := h
    exact .pure rfl

/-- Parameters that miss a part are an error like any other. -/
theorem fair_of_part {w : Wire} {name : String} {f : Failure} (h : part w name = .error f) :
    Fair (.error f) := by
  unfold part at h
  split at h
  · cases h
  · cases h
    rfl

theorem part_bind {params : Wire} {name : String} {g : Wire → Act Link Value}
    (h : ∀ w, Ends (g w) l fun x _ => Fair x) :
    Ends (Act.ofExcept (part params name) >>= g) l fun x _ => Fair x := by
  refine .bind ?_
  cases hpart : part params name with
  | ok w => exact .pure (h w)
  | error f => exact .throw (fair_of_part hpart)

/-- A record that names a part of the parameters. -/
theorem logPart_bind {params : Wire} {name : String} {logger : Logger} {level : Level}
    {text : Wire → Except Failure String} {g : Unit → Act Link Value}
    (ht : ∀ w, ∃ t, text w = .ok t) (h : Ends (g ()) l fun x _ => Fair x) :
    Ends (Act.logBuilt logger level (fun _ => part params name >>= text) >>= g) l
      fun x _ => Fair x := by
  refine .bind (.logBuilt h fun f hf => ?_)
  cases hpart : part params name with
  | ok w =>
    obtain ⟨t, ht⟩ := ht w
    rw [hpart] at hf
    cases ht.symm.trans hf
  | error f' =>
    rw [hpart] at hf
    cases hf
    exact fair_of_part hpart

theorem perform_fair {reaction : Reaction} (h : Handler.Fair ⟨.unchanged, reaction⟩) (params : Wire)
    (l : Link) : Ends (perform p reaction params) l fun x _ => Fair x := by
  cases reaction with
  | note method cancels answer =>
    refine .change_bind ?_
    have hanswer (l : Link) : Ends (Act.ofExcept (answer params)) l fun x _ => Fair x :=
      .ofExcept (h params)
    cases cancels with
    | none => exact hanswer _
    | some t =>
      refine .bind ((cancelToken_ok t _).mono fun x l₁ hx => ?_)
      subst hx
      exact hanswer l₁
  | logMessage => exact part_bind fun w => .bind (.log (.pure .null))
  | logTrace => exact logPart_bind (fun w => ⟨_, rfl⟩) (.pure .null)
  | logDiagnostics =>
    refine .read (logPart_bind (fun w => ⟨_, rfl⟩) (part_bind fun w => .bind ?_))
    refine (Ends.forIn (I := fun _ => True) (fun d _ b l₁ _ => ?_) trivial).mono fun x l₁ hx => ?_
    · exact .read (.bind (.log (.pure ⟨⟨b, rfl⟩, trivial⟩)))
    · obtain ⟨⟨b, rfl⟩, -⟩ := hx
      exact .pure .null
  | noSettings =>
    refine part_bind fun w => .pure (.list fun v hv => ?_)
    obtain ⟨_, -, rfl⟩ := List.mem_map.1 hv
    exact .null
  | logRegistrations => exact .read (logPart_bind (fun w => ⟨_, rfl⟩) (.pure .null))
  | ignore => exact .pure .null

/-- **A fair handler** comes to something that can be answered with, whatever the parameters. -/
theorem handle_fair {h : Handler} (hf : h.Fair) (params : Value) (l : Link) :
    Ends (handle p h params) l fun x _ => Fair x := by
  unfold handle
  cases hw : Wire.read h.params params with
  | error e =>
    refine .bind (.ofExcept ?_)
    exact Failure.isError_wire e
  | ok w => exact .bind (.ofExcept (perform_fair hf w l))

end Link

end EditorBridge
