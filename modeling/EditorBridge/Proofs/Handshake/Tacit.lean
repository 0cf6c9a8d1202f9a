/-
What goes on without a word.

While a client greets its server a lot may happen that has nothing to do with it: the
server writes whatever it likes, tokens and requests are cancelled, somebody waits for
readiness.  `Tacit` is what all of this has in common.  No call is written, the client and the
activities of the greeting stay as they are, and their jobs are owed as before; and a
future that nobody is going to end (`Spared`) goes on.

Futures are looked at one at a time.  Whoever is about to end a future has been told which, so
for any other future it is an act like any other.  A future that does not exist yet
is spared as well, so one that is new is known to be nobody else's.
-/
import EditorBridge.Proofs.Client.Waiting
import EditorBridge.Proofs.Handshake.Owing

namespace EditorBridge

open Resumption (All)
open Value (textAt?)

/-- Whether it does nothing but to wait for readiness. -/
@[reducible] def Resumption.isMild : Resumption → Bool
  | .traced .. | .reply | .await => true
  | _ => false

namespace Link

open Act (Ends Keeps Reads)

variable {l l' l'' : Link} {A : List TaskId} {f g : FutureId} {k : Callback} {p : PeerId}
  {t : TaskId}

/-! ### Calls -/

/-- Whether a message calls somebody, other than to take a call back. -/
def isCall (message : Value) : Bool := (textAt? "method" message).any (· ≠ cancelMethod)

/-- The calls that were written to a process. -/
def callsTo (n : ProcessId) (l : Link) : List Value :=
  ((l.written.filter (·.process = some n)).map (·.message)).filter isCall

theorem isCall_response (id result : Value) : isCall (response id result) = false := by
  simp [isCall, response, textAt?]

theorem isCall_errorResponse (id code message data : Value) :
    isCall (errorResponse id code message data) = false := by
  simp [isCall, errorResponse, textAt?]

theorem isCall_withdrawal (params : Value) : isCall (notification cancelMethod params) = false := by
  unfold isCall notification withParams
  split <;> simp [textAt?]

/-! ### What stays -/

/-- Nobody but some activities is going to end a future. -/
structure Spared (A : List TaskId) (f : FutureId) (l : Link) : Prop where
  loop : l.loop.Spares f
  pending : ∀ q, ∀ r ∈ l.pending q, r.future ≠ f
  tasks : ∀ t < l.tasks.size, t ∉ A →
    (l.tasks.getD t default).outcome ≠ f ∧ (l.tasks.getD t default).waitsFor ≠ some f
  ready : l.client.ready ≠ some f

/-- A link on which some activities do something of their own, and the others wait for readiness.
Neither scripts nor a recorder have a part in it. -/
structure Fit (A : List TaskId) (l : Link) : Prop where
  scripts : l.scripts = []
  lenient : l.recorder.failsCancelled = false
  sane : l.loop.Sane
  there : ∀ t ∈ A, t < l.tasks.size
  turned : ∀ j, l.loop.Owes j → ∀ t, j.turn? = some t → t < l.tasks.size
  mild : ∀ t ∉ A, l.Over t ∨ All Resumption.isMild (l.rest t)

/-- Some activities, the jobs that concern them, and a future are left alone. -/
structure Still (A : List TaskId) (f : FutureId) (l l' : Link) : Prop where
  fit : l'.Fit A
  wiring : l'.wiring = l.wiring
  client : l'.client = l.client
  loop : l.loop.Grows l'.loop
  ended : ∀ g e, l.loop.ending? g = some e → l'.loop.ending? g = some e
  size : l.tasks.size ≤ l'.tasks.size
  there : ∀ t ∈ A, t < l.tasks.size
  tasks : ∀ t ∈ A, l'.tasks.getD t default = l.tasks.getD t default
  owes : ∀ j, j.concerns A = true → (l'.loop.Owes j ↔ l.loop.Owes j)
  turns : l'.loop.turns A = l.loop.turns A
  spared : f < l.loop.futures.size ∨ l'.loop.futures.size ≤ f → l.Spared A f →
    l'.Spared A f ∧ l'.loop.ending? f = l.loop.ending? f

/-- Nothing is called, no number is used up, and no request begins to wait. -/
structure Hushed (l l' : Link) : Prop where
  calls : ∀ n, l'.callsTo n = l.callsTo n
  lastId : ∀ p, l'.lastId p = l.lastId p
  pending : ∀ p, ∀ r ∈ l'.pending p, r ∈ l.pending p

/-- A link that is fit stays so, and whatever is left alone stays as it is. -/
def Stays (A : List TaskId) (f : FutureId) (l l' : Link) : Prop := l.Fit A → Still A f l l'

/-- It does so without a word. -/
def Tacit (A : List TaskId) (f : FutureId) (l l' : Link) : Prop :=
  l.Fit A → Still A f l l' ∧ Hushed l l'

theorem Still.refl (h : l.Fit A) : Still A f l l where
  fit := h
  wiring := rfl
  client := rfl
  loop := .refl _
  ended _ _ := id
  size := Nat.le_refl _
  there := h.there
  tasks _ _ := rfl
  owes _ _ := Iff.rfl
  turns := rfl
  spared _ hs := ⟨hs, rfl⟩

theorem Still.trans (h : Still A f l l') (h' : Still A f l' l'') : Still A f l l'' where
  fit := h'.fit
  wiring := h'.wiring.trans h.wiring
  client := h'.client.trans h.client
  loop := h.loop.trans h'.loop
  ended g e := h'.ended g e ∘ h.ended g e
  size := Nat.le_trans h.size h'.size
  there := h.there
  tasks t ht := (h'.tasks t ht).trans (h.tasks t ht)
  owes j hj := (h'.owes j hj).trans (h.owes j hj)
  turns := h'.turns.trans h.turns
  spared hf hs := by
    obtain ⟨hs₁, he₁⟩ := h.spared (hf.imp id (Nat.le_trans h'.loop.futures)) hs
    obtain ⟨hs₂, he₂⟩ := h'.spared (hf.imp (Nat.lt_of_lt_of_le · h.loop.futures) id) hs₁
    exact ⟨hs₂, he₂.trans he₁⟩

theorem Spared.mono {A' : List TaskId} (h : l.Spared A f) (ho : ∀ t ∈ A, t ∈ A') :
    l.Spared A' f :=
  { h with tasks := fun t hlt ht => h.tasks t hlt fun hmem => ht (ho t hmem) }

/-- A future that is nobody's at all goes on being so. -/
theorem Still.free (h : Still A f l l') (hf : f < l.loop.futures.size ∨ l'.loop.futures.size ≤ f)
    (hs : l.Spared [] f) : l'.Spared [] f ∧ l'.loop.ending? f = l.loop.ending? f := by
  obtain ⟨hs', he⟩ := h.spared hf (hs.mono nofun)
  refine ⟨{ hs' with tasks := fun t hlt _ => ?_ }, he⟩
  by_cases ht : t ∈ A
  · rw [h.tasks t ht]
    exact hs.tasks t (h.there t ht) List.not_mem_nil
  · exact hs'.tasks t hlt ht

instance : IsPreorder Link (Stays A f) where
  refl _ := .refl
  trans _ _ _ h h' hl := (h hl).trans (h' (h hl).fit)

theorem Hushed.refl (l : Link) : Hushed l l := ⟨fun _ => rfl, fun _ => rfl, fun _ _ => id⟩

theorem Hushed.trans (h : Hushed l l') (h' : Hushed l' l'') : Hushed l l'' :=
  ⟨fun n => (h'.calls n).trans (h.calls n), fun q => (h'.lastId q).trans (h.lastId q),
    fun q r hr => h.pending q r (h'.pending q r hr)⟩

instance : IsPreorder Link (Tacit A f) where
  refl l h := ⟨.refl h, .refl l⟩
  trans _ _ _ h h' hl := ⟨(h hl).1.trans (h' (h hl).1.fit).1, (h hl).2.trans (h' (h hl).1.fit).2⟩

theorem Tacit.stays (h : Tacit A f l l') : Stays A f l l' := fun hl => (h hl).1

/-- A future that is not spared, or neither there at first nor missing in the end, need not be
looked at. -/
theorem Stays.of_ne (h : ∀ f, f ≠ g → Stays A f l l')
    (hg : l.Fit A → g < l.loop.futures.size ∨ l'.loop.futures.size ≤ g → ¬l.Spared A g)
    (f : FutureId) : Stays A f l l' := by
  by_cases hf : f = g
  · subst hf
    exact fun hl => { h (f + 1) (Nat.succ_ne_self f) hl with
      spared := fun hside hs => absurd hs (hg hl hside) }
  · exact h f hf

theorem Tacit.of_ne (h : ∀ f, f ≠ g → Tacit A f l l')
    (hg : l.Fit A → g < l.loop.futures.size ∨ l'.loop.futures.size ≤ g → ¬l.Spared A g)
    (f : FutureId) : Tacit A f l l' := fun hl =>
  ⟨Stays.of_ne (fun f hf => (h f hf).stays) hg f hl, (h (g + 1) (Nat.succ_ne_self g) hl).2⟩

/-- What is done about one future is done without a word, if that future was not to be left
alone. -/
theorem tacit_but {α : Type} {a : Act Link α} {l₁ : Link} (h : ∀ f, Tacit A f l l₁)
    (ha : ∀ f, f ≠ g → Keeps (Tacit A f) a)
    (hg : ∀ l', Tacit A (g + 1) l₁ l' → l.Fit A →
      g < l.loop.futures.size ∨ l'.loop.futures.size ≤ g → ¬l.Spared A g) :
    Ends a l₁ fun _ l' => ∀ f, Tacit A f l l' :=
  fun j => Tacit.of_ne (fun f hf => trans_of (Tacit A f) (h f) ((ha f hf).keeps ⟨j, l₁⟩))
    (hg _ ((ha _ (Nat.succ_ne_self g)).keeps ⟨j, l₁⟩))

/-! ### Changes -/

/-- The activities of a link may be kept along with whatever is told to its client. -/
theorem Still.of_same (h : l.Fit A) (hw : l'.wiring = l.wiring) (hc : l'.client = l.client)
    (hs : (l'.scripts, l'.recorder.failsCancelled) = (l.scripts, l.recorder.failsCancelled))
    (ht : l'.tasks = l.tasks) (hlo : l.loop.Abides A l.tasks.size l'.loop)
    (hspared : f < l.loop.futures.size ∨ l'.loop.futures.size ≤ f → l.Spared A f →
      l'.Spared A f ∧ l'.loop.ending? f = l.loop.ending? f) : Still A f l l' where
  fit := {
    scripts := (Prod.mk.inj hs).1.trans h.scripts
    lenient := (Prod.mk.inj hs).2.trans h.lenient
    sane := hlo.sane h.sane
    there := ht ▸ h.there
    turned := fun j hj t hjt => by
      rw [ht]
      exact (hlo.owed j hj).elim (fun ho => h.turned j ho t hjt) fun ho => ho.2 t hjt
    mild := fun t hm => by
      rw [Over, rest, ht]
      exact (h.mild t hm).imp (hlo.done _) id }
  wiring := hw
  client := hc
  loop := hlo.toGrows
  ended := hlo.ended
  size := Nat.le_of_eq (congrArg Array.size ht.symm)
  there := h.there
  tasks _ _ := by rw [ht]
  owes _ := hlo.iff
  turns := hlo.turns
  spared := hspared

/-- Only the loop is changed. -/
theorem tacit_loop {lo : Loop Reply Callback Job}
    (hlo : l.Fit A → l.loop.Abides A l.tasks.size lo)
    (hf : l.loop.Spares f → lo.Spares f ∧ lo.ending? f = l.loop.ending? f) :
    Tacit A f l { l with loop := lo } :=
  fun h => ⟨.of_same h rfl rfl rfl rfl (hlo h) fun _ hs =>
    ⟨{ hs with loop := (hf hs.loop).1 }, (hf hs.loop).2⟩, fun _ => rfl, fun _ => rfl, fun _ _ => id⟩

/-- What no activity might end or write does not matter. -/
theorem tacit_rest (hw : l'.wiring = l.wiring) (hc : l'.client = l.client)
    (hl : l'.loop = l.loop) (ht : l'.tasks = l.tasks)
    (hs : (l'.scripts, l'.recorder.failsCancelled) = (l.scripts, l.recorder.failsCancelled))
    (hh : Hushed l l') : Tacit A f l l' :=
  fun h => ⟨.of_same h hw hc hs ht (hl ▸ .refl _) fun _ hs =>
      ⟨⟨hl ▸ hs.loop, fun q r hr => hs.pending q r (hh.pending q r hr), ht ▸ hs.tasks,
        hc ▸ hs.ready⟩, by rw [hl]⟩, hh⟩

/-- Whatever is only remembered may be changed. -/
theorem tacit_change {c : Link → Link} (h : ∀ l, (c l).loop = l.loop ∧ (c l).tasks = l.tasks ∧
      (c l).client = l.client ∧ (c l).peers = l.peers ∧ (c l).written = l.written ∧
      (c l).wiring = l.wiring ∧
      ((c l).scripts, (c l).recorder.failsCancelled) = (l.scripts, l.recorder.failsCancelled)) :
    Keeps (Tacit A f) (Act.change c) := by
  refine Keeps.change fun l => ?_
  obtain ⟨hl, ht, hc, hp, hwr, hw, hs⟩ := h l
  exact tacit_rest hw hc hl ht hs ⟨fun n => by rw [callsTo, hwr, callsTo],
    fun q => by rw [lastId, hp, lastId], fun q r hr => by rwa [pending, hp] at hr⟩

/-- What waits for a response once an end is changed. -/
theorem mem_pending_touched {c : Peer → Peer} {P : PendingRequest → Prop} {q : PeerId}
    {r : PendingRequest} (hp : ∀ r ∈ (c (l.peers.getD p default)).pending, r ∈ l.pending p ∨ P r)
    (hr : r ∈ (touched p c l).pending q) : r ∈ l.pending q ∨ P r := by
  by_cases hq : q = p
  · subst hq
    by_cases hlt : q < l.peers.size
    · rw [pending_touched c hlt] at hr
      exact hp r hr
    · exact .inl (by simpa [pending, touched, hlt] using hr)
  · rw [pending, peer_touched_ne c hq] at hr
    exact .inl hr

/-- An end may be changed, but not its connection, and what it waits for is nobody else's. -/
theorem stays_touched {c : Peer → Peer} (ho : (c (l.peers.getD p default)).outlet = l.outlet p)
    (hp : ∀ r ∈ (c (l.peers.getD p default)).pending, r ∈ l.pending p ∨ r.future ≠ f) :
    Stays A f l (touched p c l) := by
  refine fun h => .of_same h (quiet_modify ho).wiring rfl rfl rfl (.refl _) fun _ hs =>
    ⟨{ hs with pending := fun q r hr => ?_ }, rfl⟩
  exact (mem_pending_touched hp hr).elim (hs.pending q r) id

/-- Without using up a number, and without a request more, it is done without a word. -/
theorem tacit_touched {c : Peer → Peer} (ho : (c (l.peers.getD p default)).outlet = l.outlet p)
    (hi : (c (l.peers.getD p default)).lastId = l.lastId p)
    (hp : ∀ r ∈ (c (l.peers.getD p default)).pending, r ∈ l.pending p) :
    Tacit A f l (touched p c l) :=
  fun h => ⟨stays_touched ho (fun r hr => .inl (hp r hr)) h, fun _ => rfl,
    fun _ => getD_modify Peer.lastId hi _, fun _ _ hr =>
      (mem_pending_touched (P := fun _ => False) (fun r hr => .inl (hp r hr)) hr).resolve_right id⟩

/-! ### Futures -/

theorem tacit_onLoop {c : Loop Reply Callback Job → Loop Reply Callback Job}
    (h : ∀ l : Link, Tacit A f l { l with loop := c l.loop }) : Keeps (Tacit A f) (onLoop c) :=
  Keeps.change h

theorem tacit_created : Tacit A f l { l with loop := l.loop.create.2 } :=
  tacit_loop (fun _ => .create _) fun hs =>
    ⟨hs.of_owes fun _ => Loop.owes_create.1, Loop.ending?_create l.loop f⟩

/-- A future that is new is nobody else's, whatever becomes of it. -/
theorem stays_new {α : Type} {a : FutureId → Act Link α}
    (h : ∀ g f, f ≠ g → Keeps (Stays A f) (a g)) (f : FutureId) :
    Keeps (Stays A f) (newFuture >>= a) := by
  refine .of_ends fun l => .bind (newFuture_ends.mono fun r l₁ h₁ => ?_)
  obtain ⟨rfl, rfl⟩ := h₁
  have hnew (f : FutureId) : Stays A f l { l with loop := l.loop.create.2 } := tacit_created.stays
  have ha (f : FutureId) (hf : f ≠ l.loop.futures.size) := h l.loop.futures.size f hf
  refine fun j =>
    Stays.of_ne (fun f hf => trans_of (Stays A f) (hnew f) ((ha f hf).keeps ⟨j, _⟩)) ?_ f
  rintro hl (hlt | hle)
  · exact absurd hlt (Nat.lt_irrefl _)
  · have hgrows := ((ha _ (Nat.succ_ne_self _)).keeps ⟨j, _⟩ (hnew 0 hl).fit).loop.futures
    exact absurd (Nat.le_trans hgrows hle) (by simp [Loop.create])

theorem tacit_new {α : Type} {a : FutureId → Act Link α}
    (h : ∀ g f, f ≠ g → Keeps (Tacit A f) (a g)) (f : FutureId) :
    Keeps (Tacit A f) (newFuture >>= a) := by
  have hstays := stays_new (fun g f hf => (h g f hf).mono fun _ _ => Tacit.stays) f
  refine .of_ends fun l => hstays.knowing (.bind (newFuture_ends.mono fun r l₁ h₁ => ?_))
  obtain ⟨rfl, rfl⟩ := h₁
  refine ((h l.loop.futures.size _ (Nat.succ_ne_self _)).ends _).mono fun r l' h' hs hl =>
    ⟨hs hl, ?_⟩
  have hnew : Tacit A 0 l { l with loop := l.loop.create.2 } := tacit_created
  exact (hnew hl).2.trans (h' (hnew hl).1.fit).2

theorem tacit_asked {k : Callback} (hk : k.ofClient = true) (hj : (Job.call k g).concerns A = false)
    (ht : l.Fit A → ∀ t, (Job.call k g).turn? = some t → t < l.tasks.size)
      (hf : k.target? ≠ some f) :
    Tacit A f l { l with loop := l.loop.whenDone .call g k } :=
  tacit_loop (fun h => .whenDone hk hj (ht h)) fun hs => ⟨hs.whenDone hf, Loop.ending?_whenDone⟩

/-- Whoever asks may be told, if he is no activity. -/
theorem tacit_whenDone (hj : (Job.call k g).concerns A = false) (ht : (Job.call k g).turn? = none)
    (hk : k.ofClient = true) (hf : k.target? ≠ some f) : Keeps (Tacit A f) (whenDone g k) :=
  tacit_onLoop fun _ => tacit_asked hk hj (fun _ t hjt => by cases ht.symm.trans hjt) hf

instance tacit_unregister (t : TokenId) (n : Notice) :
    Keeps (Tacit A f) (whenDone g (.unregister t n)) := tacit_whenDone rfl rfl rfl nofun

/-- Only the future that is to end does. -/
theorem tacit_settled {e : Ending Reply} {lo : Loop Reply Callback Job}
    (h : l.loop.settle? .call g e = some lo) (hg : f ≠ g) : Tacit A f l { l with loop := lo } :=
  tacit_loop (fun _ => .settle? h) fun hs =>
    ⟨hs.of_owes fun _ => (Loop.owes_settle? h).1, Loop.ending?_settle? h hg⟩

theorem tacit_settleOpen (hg : f ≠ g) (e : Ending Reply) : Keeps (Tacit A f) (settleOpen g e) := by
  refine .of_ends fun l => .read ?_
  split
  · rename_i lo hlo
    exact .change_bind (.pure (tacit_settled hlo hg))
  · exact .pure (refl_of (Tacit A f) l)

theorem tacit_settle (hg : f ≠ g) (e : Ending Reply) : Keeps (Tacit A f) (settle g e) := by
  have := tacit_settleOpen (A := A) hg e
  unfold settle
  infer_instance

theorem tacit_forget {l : Link} (hk : k.common = true) (hj : ∀ f, (Job.call k f).concerns A = false)
    (hi : l.loop.Idle k) : Ends (forget g k) l fun _ => Tacit A f l :=
  fun _ => tacit_loop (fun _ => .forget hk hj hi) fun hs =>
    ⟨hs.of_owes fun _ => Loop.owes_of_forget, Loop.ending?_forget⟩

theorem tacit_advanceTo (time : Nat) : Tacit A f l { l with loop := l.loop.advanceTo time } :=
  tacit_loop (fun h => .advanceTo h.sane time) fun hs =>
    ⟨hs.of_owes fun _ => (Loop.owes_advanceTo time).1, rfl⟩

/-- A job that concerns nobody need not be done. -/
theorem tacit_next {j : Job} {js : List Job} (h : l.loop.ready = j :: js)
    (hj : j.concerns A = false) :
    Tacit A f l { l with loop := { l.loop with ready := js } } :=
  tacit_loop (fun _ => .next h hj) fun hs =>
    ⟨hs.of_owes fun _ hi => (Loop.owes_next h).2 (.inr hi), rfl⟩

/-! ### Waiting -/

instance tacit_shield (g : FutureId) : Keeps (Tacit A f) (shield g) := by
  have hcopies (g' f : FutureId) (hf : f ≠ g') : Keeps (Tacit A f) (whenDone g (.copy g')) :=
    tacit_whenDone rfl rfl rfl fun heq => hf (Option.some.inj heq).symm
  have hforgets (g' f : FutureId) : Keeps (Tacit A f) (whenDone g' (.forgetCopy g)) :=
    tacit_whenDone rfl rfl rfl nofun
  have hnew : Keeps (Tacit A f) (do
      let outer ← newFuture
      whenDone g (.copy outer)
      whenDone outer (.forgetCopy g)
      return outer) := tacit_new (fun g' f hf => by
    have := hcopies g' f hf
    have := hforgets g' f
    infer_instance) f
  unfold shield
  refine .andThen fun done => ?_
  split
  · infer_instance
  · exact hnew

instance tacit_awaiting (rest : Resumption) (go : Except Failure Reply → Act Link Step)
    [∀ r, Keeps (Tacit A f) (go r)] : Keeps (Tacit A f) (awaiting g rest go) := by
  unfold awaiting
  refine .andThen fun e => ?_
  split <;> infer_instance

instance tacit_ready : Keeps (Tacit A f) ready := by
  unfold ready
  refine .andThen fun c => ?_
  split <;> infer_instance

end Link

end EditorBridge
