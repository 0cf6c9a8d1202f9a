/-
What the language client does, and what sending a message comes to.

Greeting, waiting, stopping and watching the server process are quiet.  What is left, and
what the theory has to look at one by one, is what changes the wiring: a start, the
process that comes of it, the answer to the greeting, and the end of the process.

A message goes to the ear of the link, or to nobody.  If sending fails, nothing was told;
and the recorder fails exactly where it was told to.  A client that is not ready keeps the
message, and has to be able to send it later on, so parameters that go there must be ones
that can be written.
-/
import EditorBridge.Proofs.Link.Frames

namespace EditorBridge.Link

open Act (Keeps Ends Reads)
open Json (Writable)

/-! ### The client besides sending -/

instance reads_theClient : Reads theClient fun l => l.client := ⟨fun _ => rfl⟩

instance reads_process (n : ProcessId) : Reads (process n) fun l => l.processes.getD n default :=
  ⟨fun _ => rfl⟩

/-- Whatever of the client is no wiring may change. -/
theorem quiet_onClient {f : Client → Client} (hp : ∀ c, (f c).peer = c.peer)
    (hr : ∀ c, (f c).ready = c.ready) (hi : ∀ c, (f c).initialized = c.initialized)
    (hq : ∀ c, (f c).queued = c.queued) : Keeps Quiet (onClient f) :=
  quiet_change fun l =>
    quiet_rest (by simp only [wiring, hp, hr, hi]; rfl) rfl rfl ⟨hq l.client, rfl, rfl⟩

instance quiet_onClient_process (n : Option ProcessId) :
    Keeps Quiet (onClient fun c => { c with process := n }) :=
  quiet_onClient (fun _ => rfl) (fun _ => rfl) (fun _ => rfl) fun _ => rfl

instance quiet_onClient_greeting (t : Option TaskId) :
    Keeps Quiet (onClient fun c => { c with greeting := t }) :=
  quiet_onClient (fun _ => rfl) (fun _ => rfl) (fun _ => rfl) fun _ => rfl

instance quiet_onClient_greeted (w : Wire) :
    Keeps Quiet (onClient fun c => { c with greeted := w }) :=
  quiet_onClient (fun _ => rfl) (fun _ => rfl) (fun _ => rfl) fun _ => rfl

instance quiet_onClient_stopping (b : Bool) :
    Keeps Quiet (onClient fun c => { c with stopping := b }) :=
  quiet_onClient (fun _ => rfl) (fun _ => rfl) (fun _ => rfl) fun _ => rfl

instance quiet_logClient (level : Level) (text : String) : Keeps Quiet (logClient level text) := by
  unfold logClient
  infer_instance

instance quiet_clientPeer : Keeps Quiet clientPeer := by
  unfold clientPeer
  refine .andThen fun c => ?_
  split <;> infer_instance

/-! ### Greeting -/

instance quiet_greetingFailed (ready : Option FutureId) (f : Failure) :
    Keeps Quiet (greetingFailed ready f) := by
  unfold greetingFailed
  cases ready <;> infer_instance

instance quiet_running (n : ProcessId) : Keeps Quiet (running n) := by
  unfold running
  refine .andThen fun _ => .andThen fun c => ?_
  split <;> infer_instance

instance quiet_ready : Keeps Quiet ready := by
  unfold ready
  refine .andThen fun c => ?_
  split <;> infer_instance

/-! ### Processes -/

/-- Whatever of a process is no wiring may change. -/
theorem quiet_onProcess {n : ProcessId} {f : Process → Process} (hp : ∀ p, (f p).peer = p.peer)
    (hc : ∀ p, (f p).closing = p.closing) : Keeps Quiet (onProcess n f) := by
  refine quiet_change fun l => quiet_rest ?_ rfl rfl ⟨rfl, rfl, rfl⟩
  have howner := funext (getD_modify (a := l.processes) (i := n) Process.peer (hp _))
  have hclosing := funext (getD_modify (a := l.processes) (i := n) Process.closing (hc _))
  simp only [wiring, howner, hclosing, Array.size_modify]
  rfl

instance quiet_onProcess_stderr (n : ProcessId) (bs : Rpc.Bytes) :
    Keeps Quiet (onProcess n fun p => { p with stderr := bs }) :=
  quiet_onProcess (fun _ => rfl) fun _ => rfl

instance quiet_onProcess_code (n : ProcessId) (code : Option Int) :
    Keeps Quiet (onProcess n fun p => { p with code }) :=
  quiet_onProcess (fun _ => rfl) fun _ => rfl

instance quiet_receiveStderr (n : ProcessId) (bytes : Rpc.Bytes) :
    Keeps Quiet (receiveStderr n bytes) := by
  unfold receiveStderr
  infer_instance

instance quiet_receiveOutput (n : ProcessId) (output : Int) (bytes : Rpc.Bytes) :
    Keeps Quiet (receiveOutput n output bytes) := by
  unfold receiveOutput
  infer_instance

instance quiet_order (n : ProcessId) (text : String) : Keeps Quiet (order n text) :=
  quiet_change fun _ => quiet_rest rfl rfl rfl ⟨rfl, rfl, rfl⟩

instance quiet_terminate (n : ProcessId) : Keeps Quiet (terminate n) := by
  unfold terminate
  infer_instance

/-! ### Stopping -/

section Stopping

variable (n : ProcessId) (exited : FutureId) (timeout : Option Int) (r : Except Failure Reply)

instance quiet_left : Keeps Quiet (left r) := by
  unfold left stopOver
  infer_instance

instance quiet_leaving : Keeps Quiet (leaving n exited r) := by
  unfold leaving
  split <;> infer_instance

instance quiet_leave : Keeps Quiet (leave n exited timeout) := by
  unfold leave
  infer_instance

instance quiet_sayExit : Keeps Quiet sayExit := by
  have (p : PeerId) : Keeps Quiet (notify p "exit" .null) := quiet_notify (by decide) _
  unfold sayExit
  refine .andThen fun c => ?_
  split <;> infer_instance

instance quiet_shutDown : Keeps Quiet (shutDown n exited timeout r) := by
  unfold shutDown
  refine .andThen fun x => ?_
  split <;> infer_instance

instance quiet_stop : Keeps Quiet (stop timeout) := by
  have (p : PeerId) : Keeps Quiet (sendRequest p "shutdown" .null .unchanged none) :=
    quiet_sendRequest (by decide) ..
  unfold stop
  refine .andThen fun c => ?_
  split
  · refine .andThen fun _ => ?_
    cases c.greeting <;> cases c.peer <;> cases c.greeted.isNothing <;> dsimp only <;>
      infer_instance
  · infer_instance

instance quiet_tracedStop (arguments : List String) : Keeps Quiet (tracedStop arguments timeout) := by
  unfold tracedStop
  infer_instance

end Stopping

/-! ### Sending -/

variable {l : Link} {method : String} {params : Value}

instance reads_theRecorder : Reads theRecorder fun l => l.recorder := ⟨fun _ => rfl⟩

/-! ### The three ears -/

theorem ear_recording (h : l.recording = true) : l.ear = .recorder := by
  simp [ear, wiring, Wiring.ear, h]

/-- What was delivered to the recorder between two states. -/
def news (before after : Link) : List Told :=
  (after.heard .recorder).drop (before.heard .recorder).length

/-- What is told while there is a recorder is delivered to it. -/
theorem Tells.news_eq {l' : Link} {news : List Told} (h : Tells news l l')
    (hrec : l.recording = true) : l.news l' = news := by
  unfold Link.news
  rw [h.heard, if_pos (ear_recording hrec).symm, List.drop_left]

/-- A note tells what it holds, if there is a recorder. -/
theorem tells_note {n : Note} (he : ∀ t, n.told? = some t → l.ear = .recorder) :
    Tells n.told?.toList l
      { l with recorder := { l.recorder with notes := l.recorder.notes ++ [n] } } where
  wiring := rfl
  heard e := by
    cases htold : n.told? with
    | none => cases e <;> simp [heard, htold]
    | some t =>
      rw [he t htold]
      cases e <;> simp [heard, htold]
  audible hne := by
    cases htold : n.told? with
    | none => simp [htold] at hne
    | some t => simp [he t htold]
  queued := ⟨[], by simp, by simp⟩
  grows := .of_loop (.refl _) rfl

theorem tells_recorded {kind : String} (h : l.recording = true)
    (hk : kind = "notification" ∨ kind = "request") :
    Tells (Told.of? method params).toList l { l with recorder := { l.recorder with
      notes := l.recorder.notes ++ [{ kind, method := some method, params }] } } := by
  have htold : Note.told? { kind, method := some method, params } = Told.of? method params := by
    simp [Note.told?, hk]
  rw [← htold]
  exact tells_note fun _ _ => ear_recording h

/-- A message that has to wait tells what it holds, as long as messages wait. -/
theorem tells_queued {q : Queued} (he : l.ear = .queue) (hq : l.Sendable q) :
    Tells q.told?.toList l
      { l with client := { l.client with queued := l.client.queued ++ [q] } } where
  wiring := rfl
  heard e := by
    rw [he]
    cases htold : q.told? <;> cases e <;> simp [heard, htold]
  audible _ := by simp [he]
  queued := ⟨[q], rfl, by
    rintro q' hq'
    rw [List.mem_singleton.1 hq']
    exact ⟨by cases q <;> exact hq, he⟩⟩
  grows := .of_loop (.refl _) rfl

theorem ear_waiting (h : l.recording = false) (hs : sendsNow l.client = false) :
    l.ear = .queue := by
  unfold sendsNow at hs
  unfold ear Wiring.ear
  rw [if_neg (by simp [wiring, h]), if_neg (by simp [wiring, hs])]

/-- What is written at an end is what the ear hears. -/
def Speaks (l : Link) (p : PeerId) : Prop := ∀ o, l.outlet p = some o → l.ear = .frames o.process

theorem Speaks.mono {l' : Link} {p : PeerId} {news : List Told} (h : l.Speaks p)
    (ht : Tells news l l') : l'.Speaks p := by
  intro o ho
  rw [ht.ear]
  exact h o ((congrFun (congrArg Wiring.outlet ht.wiring) p).symm.trans ho)

theorem speaks_of_sending {p : PeerId} (h : l.recording = false)
    (hs : sendsNow l.client = true) (hp : l.client.peer = some p) : l.Speaks p := by
  intro o ho
  unfold sendsNow at hs
  unfold ear Wiring.ear
  rw [if_neg (by simp [wiring, h]), if_pos (by simpa [wiring] using hs)]
  simp [wiring, hp, ho]

/-- Writing at an end that the ear hears tells what the message says, or fails. -/
theorem write_tells {p : PeerId} (h : l.Speaks p) (message : Value) :
    Ends (write p message) l fun r l' => match r with
      | .ok _ => Tells (Told.ofMessage? message).toList l l'
      | .error _ => Quiet l l' := by
  refine (write_ends p message l).mono fun r l' hw => ?_
  cases hw with
  | unconnected | unwritable => exact .refl l
  | @frame o f lo ho hfp hfm hlo =>
    have := tells_frame (f := f) hlo fun _ _ => by rw [h o ho.1, hfp]
    rwa [Frame.told?, hfm] at this

theorem clientPeer_ends : Ends clientPeer l fun r l' => l' = l ∧
    match r with
    | .ok p => l.client.peer = some p
    | .error _ => l.client.peer = none := by
  unfold clientPeer
  refine .read ?_
  split
  · rename_i p hp
    exact .pure ⟨rfl, hp⟩
  · rename_i hp
    exact .throw ⟨rfl, hp⟩

/-! ### Notifications -/

theorem checkSend_ends : Ends (checkSend method) l fun r l' => l' = l ∧
    match r with
    | .ok _ => l.recorder.sendFails.lookup method = none
    | .error f => l.recorder.sendFails.lookup method = some f := by
  unfold checkSend
  refine .read ?_
  split
  · rename_i f hf
    exact .throw ⟨rfl, hf⟩
  · rename_i hf
    exact .pure ⟨rfl, Option.eq_none_iff_forall_ne_some.2 hf⟩

/-- Sending a notification tells what it says, or fails and tells nothing. -/
inductive Sent (method : String) (params : Value) (l : Link) : Except Failure Unit → Link → Prop
  | sent {l' : Link} (h : Tells (Told.of? method params).toList l l') : Sent method params l (.ok ()) l'
  | refused {f : Failure} {l' : Link} (h : Quiet l l')
    (hf : l.recording = true → l.recorder.sendFails.lookup method = some f) :
    Sent method params l (.error f) l'

theorem sendNotification_ends (hv : l.recording = false → Writable params) :
    Ends (sendNotification method params) l (Sent method params l) := by
  unfold sendNotification
  refine .read ?_
  split
  · rename_i hrec
    refine .bind (checkSend_ends.mono fun r l' h => ?_)
    obtain ⟨rfl, hr⟩ := h
    cases r with
    | error f => exact .refused (.refl _) fun _ => hr
    | ok _ => exact .change (.sent (tells_recorded hrec (.inl rfl)))
  · rename_i hrec
    have hrec : l.recording = false := by simpa using hrec
    unfold notifyServer
    refine .read ?_
    split
    · rename_i hs
      refine .bind (clientPeer_ends.mono fun r l' h => ?_)
      obtain ⟨rfl, hp⟩ := h
      cases r with
      | error f => exact .refused (.refl _) (by simp [hrec])
      | ok p =>
        refine (write_tells (speaks_of_sending hrec hs hp) _).mono fun r l' hw => ?_
        rw [told_notification] at hw
        cases r with
        | error f => exact .refused hw (by simp [hrec])
        | ok _ => exact .sent hw
    · rename_i hs
      exact .change (.sent (tells_queued (q := .notification method params)
        (ear_waiting hrec (by simpa using hs)) (hv hrec)))

/-! ### Requests -/

/-- What is noted of a request, and what it is answered with, tells nothing more. -/
instance quiet_enqueue (f : FutureId) (target : Wire.Target) :
    Keeps Quiet (onRecorder (Recorder.enqueue method f target)) :=
  quiet_change fun _ => quiet_rest rfl rfl rfl ⟨rfl, rfl, rfl⟩

/-- A request tells what it says, or nothing. -/
def Asked (method : String) (params : Value) (l l' : Link) : Prop :=
  Tells (Told.of? method params).toList l l' ∨ Quiet l l'

theorem Asked.trans {l' l'' : Link} (h : Asked method params l l') (h' : Quiet l' l'') :
    Asked method params l l'' := by
  rcases h with h | h
  · have := h.trans h'
    rw [List.append_nil] at this
    exact .inl this
  · exact .inr (h.trans h')

variable {target : Wire.Target} {token : Option TokenId}

theorem note_bind {α : Type} {n : Note} {f : Unit → Act Link α}
    {Q : Except Failure α → Link → Prop}
    (h : Ends (f ()) { l with recorder := { l.recorder with notes := l.recorder.notes ++ [n] } } Q) :
    Ends (note n >>= f) l Q := fun j => h j

/-- Answers a request that was taken at once, or leaves it open. -/
def answerAtOnce (method : String) (target : Wire.Target) (f : FutureId) : Act Link FutureId := do
  if !(← isDone f) then
    match (← theRecorder).responses.lookup method with
    | some r => settle f (Response.ending target r)
    | none => onRecorder (Recorder.enqueue method f target)
  return f

theorem recordRequest_ends (hrec : l.recording = true) :
    Ends (recordRequest method params target token) l fun _ => Asked method params l := by
  unfold recordRequest
  refine .bind (checkSend_ends.mono fun r l' h => ?_)
  obtain ⟨rfl, hr⟩ := h
  cases r with
  | error f => exact .inr (.refl _)
  | ok _ =>
    refine note_bind (((?_ : Keeps Quiet _).ends _).mono fun _ _ h =>
      Asked.trans (.inl (tells_recorded hrec (.inr rfl))) h)
    refine .andThen fun f => ?_
    suffices hrest : Keeps Quiet (answerAtOnce method target f) by
      unfold answerAtOnce at hrest
      cases token <;> dsimp only <;> infer_instance
    unfold answerAtOnce
    refine .andThen fun done => ?_
    dsimp only
    split
    · refine .andThen fun r => ?_
      split <;> infer_instance
    · infer_instance

theorem sendRequest_ends {p : PeerId} (h : l.Speaks p) :
    Ends (sendRequest p method params target token) l fun _ => Asked method params l := by
  unfold sendRequest
  refine .bind ((quiet_newFuture.ends l).mono fun r l₁ h₁ => ?_)
  cases r with
  | error f => exact .inr h₁
  | ok future =>
    refine .read (.bind (((quiet_onPeer_lastId _).ends l₁).mono fun r l₂ h₂ => ?_))
    have h₂ := h₁.trans h₂
    cases r with
    | error f => exact .inr h₂
    | ok _ =>
      refine .bind ((write_tells (h.mono h₂) _).mono fun r l₃ h₃ => ?_)
      rw [told_request] at h₃
      cases r with
      | error f => exact .inr (h₂.trans h₃)
      | ok _ =>
        refine ((?_ : Keeps Quiet _).ends l₃).mono fun _ _ h₄ => Asked.trans (.inl (h₂.trans h₃)) h₄
        cases token <;> infer_instance

theorem newFuture_ends : Ends newFuture l fun r l' =>
    r = .ok l.loop.futures.size ∧ l' = { l with loop := l.loop.create.2 } :=
  .read (.change_bind (.pure ⟨rfl, rfl⟩))

theorem requestServer_ends (hrec : l.recording = false) (hv : Writable params)
    (hm : method ∈ Told.mentioning) :
    Ends (requestServer method params target token) l fun _ => Asked method params l := by
  unfold requestServer
  refine .read ?_
  split
  · rename_i hs
    refine .bind (clientPeer_ends.mono fun r l' h => ?_)
    obtain ⟨rfl, hp⟩ := h
    cases r with
    | error f => exact .inr (.refl _)
    | ok p => exact sendRequest_ends (speaks_of_sending hrec hs hp)
  · rename_i hs
    refine .bind (newFuture_ends.mono fun r l' h => ?_)
    obtain ⟨rfl, rfl⟩ := h
    have hquiet : Quiet l { l with loop := l.loop.create.2 } := quiet_loop l.loop.grows_create
    have hear : l.ear = .queue := ear_waiting hrec (by simpa using hs)
    have hq : Sendable { l with loop := l.loop.create.2 }
        (.request method params target token l.loop.futures.size) := ⟨hv, by simp [Loop.create], hm⟩
    exact .change_bind (.pure (.inl (hquiet.trans (tells_queued (hquiet.ear.trans hear) hq))))

theorem sendQuery_ends (hv : l.recording = false → Writable params)
    (hm : method ∈ Told.mentioning) :
    Ends (sendQuery method params target token) l fun _ => Asked method params l := by
  unfold sendQuery
  refine .read ?_
  split
  · rename_i hrec
    exact recordRequest_ends hrec
  · rename_i hrec
    have hrec : l.recording = false := by simpa using hrec
    exact requestServer_ends hrec (hv hrec) hm

/-! ### Starting and stopping whoever is there -/

theorem quiet_note {n : Note} (h : n.told? = none) : Keeps Quiet (note n) := by
  unfold note onRecorder
  exact quiet_change fun _ => quiet_rest rfl rfl rfl ⟨rfl, rfl, by simp [h]⟩

instance quiet_note_start : Keeps Quiet (note { kind := "start" }) := quiet_note rfl

instance quiet_note_stop : Keeps Quiet (note { kind := "stop" }) := quiet_note rfl

instance quiet_onRecorder_started (b : Bool) :
    Keeps Quiet (onRecorder fun r => { r with started := b }) :=
  quiet_change fun _ => quiet_rest rfl rfl rfl ⟨rfl, rfl, rfl⟩

instance quiet_disconnect : Keeps Quiet disconnect := by
  unfold disconnect
  infer_instance

instance quiet_connected : Keeps Quiet connected := by
  unfold connected
  infer_instance

end EditorBridge.Link
