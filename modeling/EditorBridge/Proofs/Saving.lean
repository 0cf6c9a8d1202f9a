/-
When documents are formatted.

A save tells up to three things, in this order: that the document exists, if there is need of
that, that it is to be formatted, if that is wanted, and that it was saved (`saved_inOrder`).
Each of them may be refused.  A request to format that is refused is as good as none, but an
announcement that is refused ends the save.

Nothing else that happens asks for a document to be formatted (`Happening.unasked`).  The rules
for that are instances, as elsewhere.
-/
import EditorBridge.Proofs.OpenBeforeUse
import EditorBridge.Proofs.Parallel

namespace EditorBridge

open Act (Ends Keeps)
open Json (Writable)

variable {s s' : Tracker × Link} {d : Document} {m : String} {params : Value}

/-! ### What a save tells -/

namespace Document

/-- The announcement of a document. -/
def openingNote (d : Document) : Note :=
  { kind := "notification", method := some "textDocument/didOpen", params := d.announcement }

theorem told_openingNote (d : Document) : d.openingNote.told? = some d.opening :=
  d.told_announcement

/-- The news that a document was saved. -/
def savingNote (d : Document) : Note :=
  { kind := "notification", method := some "textDocument/didSave"
    params := d.named [("text", .str d.content)] }

end Document

namespace Link

variable {l : Link}

/-- The recorder took some messages. -/
def taking (l : Link) (ns : List Note) : Link :=
  { l with recorder := { l.recorder with notes := l.recorder.notes ++ ns } }

theorem taking_nil (l : Link) : l.taking [] = l := by
  simp [taking]

/-- A notification is taken, or it is not. -/
theorem sendNotification_takes (hrec : l.recording = true) :
    Ends (sendNotification m params) l fun r l₁ =>
      r = .ok () ∧ l₁ = l.taking [{ kind := "notification", method := some m, params }] ∨
        (∃ f, r = .error f) ∧ l₁ = l := by
  refine .read ?_
  rw [if_pos hrec]
  refine .bind (checkSend_ends.mono fun r l₁ hr => ?_)
  obtain ⟨rfl, -⟩ := hr
  cases r with
  | error f => exact .inr ⟨⟨f, rfl⟩, rfl⟩
  | ok _ =>
    unfold note onRecorder
    exact .change (.inl ⟨rfl, rfl⟩)

end Link

/-- An announcement is all that comes of announcing a document. -/
theorem Tracker.ensureOpen_takes (hrec : s.2.recording = true) :
    Ends (Tracker.ensureOpen d) s fun r s₁ => ∃ a, s₁.2 = s.2.taking a ∧
      (a = [] ∨ a = [d.openingNote]) ∧
        ((∃ b, r = .ok b) → a = [] → s.1.knows d.identity = true) := by
  refine (Tracker.ensureOpen_announcing fun _ => Link.sendNotification_takes hrec).mono fun r s₁ hr => ?_
  cases hr with
  | known h => exact ⟨[], s.2.taking_nil.symm, .inl rfl, fun _ _ => h⟩
  | taken _ _ hl =>
    obtain ⟨-, rfl⟩ := hl.resolve_right fun h => nomatch h.1
    exact ⟨_, rfl, .inr rfl, nofun⟩
  | refused _ _ hl =>
    obtain ⟨-, rfl⟩ := hl.resolve_left fun h => nomatch h.1
    exact ⟨[], s.2.taking_nil.symm, .inl rfl, nofun⟩
  | unfit => exact ⟨[], s.2.taking_nil.symm, .inl rfl, nofun⟩

/-- What is published is taken, or it is not. -/
theorem Relay.publish_takes (hv : Writable params) (hrec : s.2.recording = true) :
    Ends (Relay.publish m params) s fun _ s₁ => ∃ c, s₁.2 = s.2.taking c ∧
      (c = [] ∨ c = [{ kind := "notification", method := some m, params }]) := by
  refine .bind ((Tracker.logParams_ends hv _).mono fun r s₁ hr => ?_)
  obtain ⟨rfl, rfl⟩ := hr
  refine .on ((Link.sendNotification_takes hrec).mono fun r l₁ hr => ?_)
  rcases hr with ⟨-, rfl⟩ | ⟨-, rfl⟩
  · exact ⟨_, rfl, .inr rfl⟩
  · exact ⟨[], (Link.taking_nil _).symm, .inl rfl⟩

/-- What a save tells: an announcement, if there is need of one, then a request to format, if one is
wanted, and then the news that the document was saved; each of them may be refused. -/
def Relay.InOrder (r : Relay) (d : Document) (s s₁ : Tracker × Link) : Prop :=
  ∃ a b c, s₁.2.recorder.notes = s.2.recorder.notes ++ a ++ b ++ c ∧
    (a = [] ∨ a = [d.openingNote]) ∧ (b = [] ∨ b = [r.formattingNote d]) ∧
    (c = [] ∨ c = [d.savingNote]) ∧ (a = [] → b ++ c ≠ [] → s.1.knows d.identity = true)

/-- The news of a save comes last. -/
theorem Relay.inOrder_published {r : Relay} {s₁ : Tracker × Link} {a b : List Note}
    (hrec : s₁.2.recording = true)
    (hnotes : s₁.2.recorder.notes = s.2.recorder.notes ++ a ++ b)
    (ha : a = [] ∨ a = [d.openingNote]) (hb : b = [] ∨ b = [r.formattingNote d])
    (hk : a = [] → s.1.knows d.identity = true) : Ends (do
      publish "textDocument/didSave"
        (← Act.ofExcept (identityParams d [("text", .str d.content)]))) s₁
      fun _ s₂ => r.InOrder d s s₂ := by
  refine .bind (.ofExcept ?_)
  rw [identityParams_eq]
  refine (publish_takes (d.writable_named (by simp [Writable.str])) hrec).mono fun _ s₂ hr => ?_
  obtain ⟨c, htaken, hc⟩ := hr
  refine ⟨a, b, c, ?_, ha, hb, hc, fun hnil _ => hk hnil⟩
  rw [htaken, ← hnotes]
  rfl

/-- **A save tells everything in its order.** -/
theorem Relay.saved_inOrder {r : Relay} (hw : Writable r.formatting) (hrec : s.2.recording = true)
    (hg : s.2.recorder.Gentle) : Ends (r.saved d) s fun _ s₁ => r.InOrder d s s₁ := by
  unfold Relay.saved
  split
  · exact .pure ⟨[], [], [], by simp, .inl rfl, .inl rfl, .inl rfl, fun _ h => absurd rfl h⟩
  · refine .bind ((Tracker.ensureOpen_takes hrec).mono fun x s₁ hx => ?_)
    obtain ⟨a, htaken, ha, hk⟩ := hx
    have hnotes : s₁.2.recorder.notes = s.2.recorder.notes ++ a := by rw [htaken]; rfl
    have hrec₁ : s₁.2.recording = true := by rw [htaken]; exact hrec
    have hg₁ : s₁.2.recorder.Gentle := by rw [htaken]; exact hg
    cases x with
    | error f =>
      exact ⟨a, [], [], by simp [hnotes], ha, .inl rfl, .inl rfl, fun _ h => absurd rfl h⟩
    | ok known =>
      have hk := hk ⟨known, rfl⟩
      dsimp only
      split
      · refine .bind ((requestFormatting_beside hw hrec₁ hg₁).mono fun x s₂ hx => ?_)
        obtain ⟨rfl, -, hb, hasked⟩ := hx
        have hrec₂ := hb.recording.trans hrec₁
        rcases hasked with hasked | hasked
        · exact inOrder_published hrec₂ (by rw [hasked, hnotes, List.append_nil]) ha (.inl rfl) hk
        · exact inOrder_published hrec₂ (by rw [hasked, hnotes]) ha (.inr rfl) hk
      · exact inOrder_published hrec₁ (by rw [hnotes, List.append_nil]) ha (.inl rfl) hk

/-! ### Nothing else asks for formatting -/

/-- The requests to format that a recorder took. -/
def Recorder.asked (r : Recorder) : List Note := r.notes.filter Note.formats

namespace Link

/-- No document is to be formatted that was not before. -/
def Unasked (l l' : Link) : Prop :=
  l.recording = true → l'.recording = true ∧ l'.recorder.asked = l.recorder.asked

namespace Unasked

instance : IsPreorder Link Unasked where
  refl _ hrec := ⟨hrec, rfl⟩
  trans _ _ _ h h' hrec := by
    obtain ⟨hrec, hs⟩ := h hrec
    obtain ⟨hrec, hs'⟩ := h' hrec
    exact ⟨hrec, hs'.trans hs⟩

/-- Only the recorder matters. -/
theorem change {f : Link → Link} (hrec : ∀ l, (f l).recording = l.recording)
    (hf : ∀ l, (f l).recorder.asked = l.recorder.asked) : Keeps Unasked (Act.change f) :=
  .change fun l h => ⟨(hrec l).trans h, hf l⟩

theorem note {n : Note} (h : n.formats = false) : Keeps Unasked (note n) :=
  change (f := fun l => { l with recorder := { l.recorder with notes := l.recorder.notes ++ [n] } })
    (fun _ => rfl) fun l => by simp [Recorder.asked, h]

instance newFuture : Keeps Unasked newFuture :=
  .of_ends fun l => newFuture_ends.mono fun _ _ h hrec => by rw [h.2]; exact ⟨hrec, rfl⟩

instance newToken : Keeps Unasked newToken := by
  have := change (f := fun l => { l with tokens := l.tokens.push {} }) (fun _ => rfl) fun _ => rfl
  unfold Link.newToken
  infer_instance

instance setToken (t : TokenId) (token : Token Notice) : Keeps Unasked (setToken t token) :=
  change (fun _ => rfl) fun _ => rfl

instance settleOpen (f : FutureId) (e : Ending Reply) : Keeps Unasked (settleOpen f e) := by
  have (lo : Loop Reply Callback Job) :=
    change (f := fun l => { l with loop := lo }) (fun _ => rfl) fun _ => rfl
  unfold Link.settleOpen
  refine .andThen fun l => ?_
  split <;> infer_instance

instance settle (f : FutureId) (e : Ending Reply) : Keeps Unasked (settle f e) := by
  unfold Link.settle
  infer_instance

theorem heed (m : String) (f : FutureId) : Keeps Unasked (heed (.note m f)) := by
  have := note (n := { kind := "cancel", method := some m }) (by simp [Note.formats])
  show Keeps Unasked (do
    Link.note { kind := "cancel", method := some m }
    if (← Act.state).recorder.failsCancelled then
      let _ ← Link.settleOpen f
        (.failed (.remote (.int Failure.requestCancelled) (.str "Request cancelled.") .null)))
  infer_instance

instance call (a : Act Link Unit) [Keeps Unasked a] : Keeps Unasked (Token.call a) := by
  unfold Token.call
  refine .andThen fun r => ?_
  split <;> infer_instance

instance watch (t : TokenId) (m : String) (f : FutureId) : Keeps Unasked (watch t (.note m f)) := by
  have := heed m f
  unfold Link.watch
  infer_instance

/-- Requests of another kind do not ask for formatting. -/
theorem sendQuery (hm : m ≠ Relay.method) (params : Value) (target : Wire.Target)
    (token : Option TokenId) : Keeps Unasked (sendQuery m params target token) := by
  have hnote := note (n := { kind := "request", method := some m, params })
    (by simp [Note.formats, hm])
  have (f : FutureId) : Keeps Unasked (onRecorder (Recorder.enqueue m f target)) :=
    change (fun _ => rfl) fun _ => rfl
  have hcheck : Keeps Unasked (checkSend m) :=
    .of_ends fun l => checkSend_ends.mono fun _ _ h => by rw [h.1]; exact refl l
  have hanswer (f : FutureId) : Keeps Unasked (answerAtOnce m target f) := by
    unfold answerAtOnce theRecorder
    refine .andThen fun done => ?_
    dsimp only
    split
    · refine .andThen fun r => ?_
      split <;> infer_instance
    · infer_instance
  have hrecord : Keeps Unasked (recordRequest m params target token) := by
    unfold recordRequest
    refine .andThen fun _ => .andThen fun _ => .andThen fun f => ?_
    have hrest := hanswer f
    unfold answerAtOnce at hrest
    cases token <;> dsimp only <;> infer_instance
  refine .of_ends fun l => .read ?_
  split
  · exact hrecord.ends l
  · rename_i hrec
    exact fun _ h => absurd h hrec

theorem sendNotification (m : String) (params : Value) :
    Keeps Unasked (sendNotification m params) := by
  refine .of_ends fun l => ?_
  by_cases hrec : l.recording = true
  · refine (sendNotification_takes hrec).mono fun _ l₁ hr => ?_
    rcases hr with ⟨-, rfl⟩ | ⟨-, rfl⟩
    · exact fun h => ⟨h, by simp [taking, Recorder.asked, Note.formats]⟩
    · exact refl _
  · exact fun _ h => absurd h hrec

end Unasked

end Link

/-! ### The relay and the queries -/

/-- No document is to be formatted that was not before. -/
def Unasked (s s' : Tracker × Link) : Prop := Link.Unasked s.2 s'.2

namespace Unasked

instance : IsPreorder (Tracker × Link) Unasked where
  refl s := refl s.2
  trans _ _ _ h h' := trans_of Link.Unasked h h'

instance onChannel {α : Type} (a : Act Link α) [Keeps Link.Unasked a] :
    Keeps Unasked (Tracker.onChannel a) := .on fun _ _ h => h

instance onLink {α : Type} (a : Act Link α) [Keeps Link.Unasked a] :
    Keeps Unasked (Query.onLink a) := onChannel a

instance update (f : Tracker → Tracker) :
    Keeps Unasked (Tracker.update f : Act (Tracker × Link) Unit) := .change fun s => refl s.2

instance notify (m : String) (params : Value) :
    Keeps Link.Unasked (Channel.notify m params : Act Link Unit) :=
  Link.Unasked.sendNotification m params

instance logParams (l : Logger) (before : String) (params : Value) :
    Keeps Unasked (Tracker.logParams l before params : Act (Tracker × Link) Unit) :=
  Keeps.logBuilt ..

instance publish (m : String) (params : Value) :
    Keeps Unasked (Relay.publish m params : Act (Tracker × Link) Unit) := by
  unfold Relay.publish
  infer_instance

instance ensureOpen (d : Document) :
    Keeps Unasked (Tracker.ensureOpen d : Act (Tracker × Link) Bool) := by
  have hannounced (params : Value) : Keeps Unasked (do
      try Tracker.onChannel (Channel.notify "textDocument/didOpen" params)
      catch f => do
        Tracker.update (Tracker.erase d.identity)
        throw f : Act (Tracker × Link) Unit) := Keeps.tryCatch _ _
  unfold Tracker.ensureOpen
  infer_instance

instance answered (m : String) (t : TokenId) (r : Except Failure Reply) :
    Keeps Link.Unasked (Query.answered m t r) :=
  .of_ends fun l => (Query.answered_ends m t r l).mono fun _ _ h => by rw [h.1]; exact refl l

instance converted (q : Query) (r : Except Failure Reply) :
    Keeps Unasked (Query.converted q r : Act (Tracker × Link) Step) :=
  .of_ends fun s => (Query.converted_ends q r s).mono fun _ _ h => by rw [h.1]; exact refl s

instance request (q : Query) (params : Value) (t : TokenId) :
    Keeps Unasked (q.request params t) := by
  have hm : q.method ≠ Relay.method := by cases q <;> decide
  have := Link.Unasked.sendQuery hm
  have (f : FutureId) : Keeps Link.Unasked
      (Link.awaiting f (.answered q.method t) (Query.answered q.method t)) := by
    unfold Link.awaiting
    refine .andThen fun e => ?_
    split <;> infer_instance
  unfold Query.request
  refine .andThen fun _ => .andThen fun x => ?_
  split <;> infer_instance

instance tracedAsk (schemes : List String) (q : Query) (d : Document) (p : Position)
    (token : Option TokenId) : Keeps Unasked (q.tracedAsk schemes d p token) := by
  have hrest (t : TokenId) : Keeps Unasked (do
      let _ ← Tracker.ensureOpen d
      let params ← Act.ofExcept (Query.params d p)
      Step.calling (q.request params t) (.converted q) q.converted) :=
    .andThen fun _ => .andThen fun _ => Keeps.calling ..
  unfold Query.tracedAsk Query.ask
  cases token <;> infer_instance

end Unasked

/-- **Only saves ask for documents to be formatted.** -/
theorem Happening.unasked {x : Happening} (hx : ∀ r d, x ≠ .saved r d) : Keeps Unasked x.act := by
  cases x with
  | saved r d => exact absurd rfl (hx r d)
  | opened r d =>
    unfold act Relay.opened
    infer_instance
  | changed r e =>
    unfold act Relay.changed
    infer_instance
  | closed r d =>
    unfold act Relay.closed
    infer_instance
  | asked schemes q d p token =>
    unfold act
    infer_instance
  | answered q token r =>
    unfold act
    infer_instance

end EditorBridge
