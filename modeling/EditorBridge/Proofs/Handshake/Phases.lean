/-
The phases of a greeting.

A client that is asked to start begins to run a process, runs it, says the greeting and waits
for the answer to it; then it says that it is ready, works off what had to wait, and from then on
says everything at once.  In each of these phases one activity is about to act, and what
it has to do next is known, as is everything that was said so far (`Phase`).  Should
anything go wrong the client says nothing more (`Phase.lost`).

What goes on without a word leaves a greeting in its phase.  That is so because nobody ends
a future that matters: not the outcome of the activity, nor the future that tells of the end
of the process, nor those of the requests that have to wait.
-/
import EditorBridge.Proofs.Client.Service
import EditorBridge.Proofs.Handshake.Bystanders
import EditorBridge.Proofs.Handshake.Saying

namespace EditorBridge

open Resumption (All)
open Value (table)

namespace Link

variable {l l' : Link} {A : List TaskId} {F X R : List FutureId} {f g : FutureId} {t : TaskId}
  {ks : List Resumption} {o a : Option FutureId} {c i : Nat} {p : PeerId} {n : ProcessId}
  {qs : List Queued} {ms : List Value}

/-! ### A greeting that is not disturbed -/

/-- Some activities are not disturbed.  The futures `X` tell of the end of a process that lasts, and
the futures `F` were given for calls. -/
structure Undisturbed (A : List TaskId) (X F : List FutureId) (l : Link) : Prop where
  fit : l.Fit A
  /-- Nobody knows of a future that does not exist yet. -/
  unknown : ∀ f, l.loop.futures.size ≤ f → l.Spared [] f
  lasts : ∀ m code, ¬l.loop.Owes (.die m code)
  gone : ∀ f, l.loop.Owes (.call .gone f) → f ∈ X
  lasting : ∀ f ∈ X, f < l.loop.futures.size ∧ l.Spared [] f ∧ l.loop.done f = false
  given : ∀ f ∈ F, f < l.loop.futures.size ∧ f ∉ X ∧ ∀ t ∈ A, (l.tasks.getD t default).outcome ≠ f

/-- Whatever ends neither those futures nor new ones does not disturb anybody. -/
theorem Undisturbed.mono (h : l.Undisturbed A X F)
    (hs : ∀ f, f ∈ X ∨ l.loop.futures.size ≤ f → Stays A f l l') : l'.Undisturbed A X F := by
  have hstill := hs _ (.inr (Nat.le_refl _)) h.fit
  have hsize := hstill.loop.futures
  refine ⟨hstill.fit, fun f hf => ?_, fun m code ho => ?_, fun f ho => ?_, fun f hf => ?_,
    fun f hf => ?_⟩
  · have hf' := Nat.le_trans hsize hf
    exact ((hs f (.inr hf') h.fit).free (.inr hf) (h.unknown f hf')).1
  · exact h.lasts m code ((hstill.owes _ rfl).1 ho)
  · exact h.gone f ((hstill.owes _ rfl).1 ho)
  · obtain ⟨hlt, hspared, hd⟩ := h.lasting f hf
    obtain ⟨hspared', he⟩ := (hs f (.inl hf) h.fit).free (.inl hlt) hspared
    exact ⟨Nat.lt_of_lt_of_le hlt hsize, hspared', by rw [Loop.done, he, ← Loop.done, hd]⟩
  · obtain ⟨hlt, hX, ht⟩ := h.given f hf
    refine ⟨Nat.lt_of_lt_of_le hlt hsize, hX, fun t hmem => ?_⟩
    rw [hstill.tasks t hmem]
    exact ht t hmem

/-- A job that is about to be done does not tell of the end of a process. -/
theorem Undisturbed.not_gone (h : l.Undisturbed A X F) : .call .gone f ∉ l.loop.ready := by
  intro hj
  have hd := (h.fit.sane.jobs _ _ hj).1
  rw [(h.lasting f (h.gone f (.inl hj))).2.2] at hd
  cases hd

/-- An activity waits for `o`, or for its turn, and has something left to do then. -/
structure Poised (t : TaskId) (ks : List Resumption) (o : Option FutureId) (l : Link) : Prop where
  there : t < l.tasks.size
  rest : l.rest t = ks
  waits : (l.tasks.getD t default).waitsFor = o
  steady : (l.tasks.getD t default).mustCancel = false
  made : (l.tasks.getD t default).outcome < l.loop.futures.size
  goes : ¬l.Over t
  alone : l.Spared [t] (l.tasks.getD t default).outcome

theorem Poised.mono (h : l.Poised t ks o) (ht : l'.tasks.getD t default = l.tasks.getD t default)
    (hs : l.tasks.size ≤ l'.tasks.size) (hf : l.loop.futures.size ≤ l'.loop.futures.size)
    (halone : l'.Spared [t] (l.tasks.getD t default).outcome ∧
      l'.loop.ending? (l.tasks.getD t default).outcome =
        l.loop.ending? (l.tasks.getD t default).outcome) : l'.Poised t ks o where
  there := Nat.lt_of_lt_of_le h.there hs
  rest := by rw [Link.rest, ht]; exact h.rest
  waits := by rw [ht]; exact h.waits
  steady := by rw [ht]; exact h.steady
  made := by rw [ht]; exact Nat.lt_of_lt_of_le h.made hf
  goes := by rw [Over, ht, Loop.done, halone.2]; exact h.goes
  alone := by rw [ht]; exact halone.1

/-- An activity is called when what it waits for ends, or has so many turns in the queue. -/
structure Acts (t : TaskId) (ks : List Resumption) (o : Option FutureId) (c : Nat) (l : Link) : Prop
    extends l.Poised t ks o where
  wakes : ∀ f, l.loop.Owes (.call (.wake t) f) ↔ o = some f
  turns : l.loop.turns [t] = c

theorem Acts.mono (h : l.Acts t ks o c) (hs : Still [t] (l.tasks.getD t default).outcome l l') :
    l'.Acts t ks o c where
  toPoised := h.toPoised.mono (hs.tasks t List.mem_cons_self) hs.size hs.loop.futures
    (hs.spared (.inl h.made) h.alone)
  wakes f := (hs.owes (.call (.wake t) f) (by simp [Job.concerns])).trans (h.wakes f)
  turns := hs.turns.trans h.turns

/-! ### Calls that have to wait -/

/-- The futures that were given for the requests that have to wait. -/
def promised (l : Link) : List FutureId := l.client.queued.filterMap Queued.result?

/-- The calls that had to wait so far, but for the requests that nobody wants any more, are those
in the queue, and can be sent. -/
structure Backlog (qs : List Queued) (l : Link) : Prop where
  closed : l.client.initialized = false
  wanted : l.client.queued.filter l.Wanted = qs
  writes : ∀ q ∈ l.client.queued, q.Writes
  apart : ∀ q ∈ l.client.queued, l.Apart q
  nodup : l.promised.Nodup

theorem Backlog.promised (h : l.Backlog qs) :
    ∀ f ∈ qs.filterMap Queued.result?, f ∈ l.promised := by
  rw [← h.wanted]
  exact (List.filter_sublist.filterMap _).subset

/-- What is nobody's goes on, and nothing is undone. -/
structure Sparing (l l' : Link) : Prop where
  size : l.loop.futures.size ≤ l'.loop.futures.size
  ended : ∀ g e, l.loop.ending? g = some e → l'.loop.ending? g = some e
  spared : ∀ f, f < l.loop.futures.size ∨ l'.loop.futures.size ≤ f → l.Spared [] f →
    l'.Spared [] f ∧ l'.loop.ending? f = l.loop.ending? f

theorem Sparing.of_stays (hl : l.Fit A) (hs : ∀ f, Stays A f l l') : Sparing l l' where
  size := (hs 0 hl).loop.futures
  ended := (hs 0 hl).ended
  spared f := (hs f hl).free

instance : IsPreorder Link Sparing where
  refl _ := ⟨Nat.le_refl _, fun _ _ => id, fun _ _ hf => ⟨hf, rfl⟩⟩
  trans _ _ _ h h' := by
    refine ⟨Nat.le_trans h.size h'.size, fun g e => h'.ended g e ∘ h.ended g e, fun f hf hs => ?_⟩
    obtain ⟨hs₁, he₁⟩ := h.spared f (hf.imp id (Nat.le_trans h'.size)) hs
    obtain ⟨hs₂, he₂⟩ := h'.spared f (hf.imp (Nat.lt_of_lt_of_le · h.size) id) hs₁
    exact ⟨hs₂, he₂.trans he₁⟩

theorem Sparing.apart {q : Queued} (hs : Sparing l l') (h : l.Apart q) :
    l'.Apart q ∧ l'.Wanted q = l.Wanted q := by
  have hkept (f : FutureId) (hf : q.result? = some f) : l'.loop.done f = l.loop.done f ∧
      (l'.loop.done f = true ∨ l'.Spared [] f) := by
    obtain ⟨hlt, hd | hspared⟩ := h f hf
    · obtain ⟨e, he⟩ := Option.isSome_iff_exists.1 hd
      have hd' : l'.loop.done f = true := by simp [Loop.done, hs.ended f e he]
      exact ⟨hd'.trans hd.symm, .inl hd'⟩
    · obtain ⟨hspared', he⟩ := hs.spared f (.inl hlt) hspared
      exact ⟨by rw [Loop.done, he, Loop.done], .inr hspared'⟩
  refine ⟨fun f hf => ⟨Nat.lt_of_lt_of_le (h f hf).1 hs.size, (hkept f hf).2⟩, ?_⟩
  unfold Wanted
  cases hq : q.result? with
  | none => rfl
  | some f => simp [(hkept f hq).1]

theorem Backlog.mono (h : l.Backlog qs) (hs : Sparing l l')
    (hc : l'.client.queued = l.client.queued) (hi : l'.client.initialized = l.client.initialized) :
    l'.Backlog qs := by
  refine ⟨hi.trans h.closed, ?_, hc ▸ h.writes, ?_, by rw [Link.promised, hc]; exact h.nodup⟩
  · rw [hc, List.filter_congr fun q hq => (hs.apart (h.apart q hq)).2]
    exact h.wanted
  · rw [hc]
    exact fun q hq => (hs.apart (h.apart q hq)).1

/-- Whoever leaves the client alone leaves its queue alone. -/
theorem Backlog.stays (h : l.Backlog qs) (hl : l.Fit A) (hs : ∀ f, Stays A f l l') :
    l'.Backlog qs :=
  h.mono (.of_stays hl hs) (by rw [(hs 0 hl).client]) (by rw [(hs 0 hl).client])

/-! ### Phases -/

namespace Still

variable (h : Still A f l l')

include h

theorem ends : l'.peers.size = l.peers.size := congrArg Wiring.ends h.wiring

theorem processes : l'.processes.size = l.processes.size := congrArg Wiring.processes h.wiring

theorem outlet (p : PeerId) : l'.outlet p = l.outlet p :=
  congrFun (congrArg Wiring.outlet h.wiring) p

end Still

theorem Hushed.empty (h : Hushed l l') (hp : l.pending p = []) : l'.pending p = [] :=
  List.eq_nil_iff_forall_not_mem.2 fun r hr => by
    have := h.pending p r hr
    rw [hp] at this
    cases this

/-- What was said so far at the end of a client. -/
structure Facing (p : PeerId) (n : ProcessId) (i : Nat) (ms : List Value) (l : Link) : Prop where
  peer : l.client.peer = some p
  lastId : l.lastId p = i
  calls : l.callsTo n = ms

theorem Facing.mono (h : l.Facing p n i ms) (hs : Still A f l l') (hh : Hushed l l') :
    l'.Facing p n i ms :=
  ⟨hs.client ▸ h.peer, (hh.lastId p).trans h.lastId, (hh.calls n).trans h.calls⟩

/-- The message that greets a server. -/
def hello (params : Value) : Value := request 1 "initialize" params

/-- The message that ends the greeting. -/
def thanks : Value := notification "initialized" (table [])

/-- **The phases** of the greeting of process `n`, with the calls that were made so far, but for the
requests that were given up in time.  The future `a` is that of the answer to the greeting,
once the server was asked. -/
inductive Phase (n : ProcessId) (qs : List Queued) (a : Option FutureId) (l : Link) :
    List TaskId → Prop
  /-- The client is to start. -/
  | asked {t : TaskId} (h : l.Undisturbed [t] [] []) (ht : l.Acts t [.start] none 1) (hqs : qs = [])
    (hclosed : l.client.initialized = false) (hpeer : l.client.peer = none)
    (hprocess : l.client.process = none) (hn : l.processes.size = n) (hcalls : l.callsTo n = [])
    (ha : a = none) : Phase n qs a l [t]
  /-- A process is about to be run. -/
  | launching {t : TaskId} {p : PeerId} {x : FutureId} {ks : List Resumption}
    (h : l.Undisturbed [t] [x] l.promised)
    (ht : l.Acts t (.spawned p x :: ks) none 1) (hks : All Resumption.isTraced ks)
    (hw : l.Backlog qs)
    (hf : l.Facing p n 0 []) (hp : p < l.peers.size ∧ l.outlet p = none ∧ l.pending p = [])
    (hx : l.client.exited = some x) (hn : l.processes.size = n) (ha : a = none) : Phase n qs a l [t]
  /-- The process runs and is about to be greeted, if it takes input at all. -/
  | due {t : TaskId} {p : PeerId} {x : FutureId}
    (h : l.Undisturbed [t] [x] l.promised) (ht : l.Acts t [.greet] none 1)
    (hw : l.Backlog qs) (hf : l.Facing p n 0 [])
    (hp : p < l.peers.size ∧ (l.outlet p = none ∨ l.Linked n p) ∧ l.pending p = [])
    (ha : a = none) : Phase n qs a l [t]
  /-- The greeting was said, and is not answered. -/
  | greeting {t : TaskId} {p : PeerId} {x g : FutureId} {params : Value}
    (h : l.Undisturbed [t] [x] l.promised)
    (ht : l.Acts t [.greeted l.client.ready] (some g) 0) (hw : l.Backlog qs)
    (hf : l.Facing p n 1 [hello params]) (hlink : l.Linked n p)
    (hp : ∀ q ∈ l.pending p, q.future = g) (ha : a = some g) : Phase n qs a l [t]
  /-- The greeting is over, and everything that had to wait was said. -/
  | welcomed {p : PeerId} {x : FutureId} {params : Value}
    (h : l.Undisturbed [] [x] (qs.filterMap Queued.result?)) (hopen : l.client.initialized = true)
    (hf : l.Facing p n (1 + Queued.total qs)
      (hello params :: thanks :: (Queued.numbered 2 qs).filter isCall))
    (hlink : l.Linked n p) : Phase n qs a l []
  /-- The process could not be run, or the greeting failed. -/
  | lost {X F : List FutureId} (h : l.Undisturbed [] X F) (hclosed : l.client.initialized = false)
    (hF : ∀ f ∈ qs.filterMap Queued.result?, f ∈ F)
    (hcalls : l.callsTo n = [] ∨ ∃ params, l.callsTo n = [hello params])
    (hpeer : n < l.processes.size → l.client.peer ≠ none)
    (hp : ∀ p, l.client.peer = some p → ∀ r ∈ l.pending p, a = some r.future)
    (ha : ∀ g, a = some g → ∃ e, l.loop.ending? g = some e ∧ ∀ y, e ≠ .result y) : Phase n qs a l []

theorem Still.promised (h : Still A f l l') : l'.promised = l.promised := by
  rw [Link.promised, h.client, Link.promised]

namespace Phase

variable {rs : List Queued}

/-- What happens without a word, but for the futures of calls, does not change the phase of a
greeting.  It may be that some calls are given up in time. -/
theorem carry (h : l.Phase n qs a A) (hs : ∀ f, f ∉ qs.filterMap Queued.result? → Tacit A f l l')
    (hw : l.Backlog qs → l'.Backlog rs) (hrs : ∀ q ∈ rs, q ∈ qs)
    (hopen : l.client.initialized = true → rs = qs) : l'.Phase n rs a A := by
  have hgiven {F X : List FutureId} (h : l.Undisturbed A X F)
      (hF : ∀ f ∈ qs.filterMap Queued.result?, f ∈ F) (f : FutureId)
      (hf : f ∈ X ∨ l.loop.futures.size ≤ f) : Tacit A f l l' :=
    hs f fun hmem => by
      obtain ⟨hlt, hX, -⟩ := h.given f (hF f hmem)
      exact hf.elim hX (Nat.not_le.2 hlt)
  have houtcome {F X : List FutureId} {t : TaskId} (h : l.Undisturbed [t] X F)
      (hF : ∀ f ∈ qs.filterMap Queued.result?, f ∈ F) :
      (l.tasks.getD t default).outcome ∉ qs.filterMap Queued.result? := fun hmem =>
    (h.given _ (hF _ hmem)).2.2 t List.mem_cons_self rfl
  cases h with
  | @asked t h ht hqs hclosed hpeer hprocess hn hcalls ha =>
    subst hqs
    obtain ⟨hstill, hh⟩ := hs (l.tasks.getD t default).outcome nofun h.fit
    have hc := hstill.client
    exact .asked (h.mono fun f _ => (hs f nofun).stays) (ht.mono hstill)
      (List.eq_nil_iff_forall_not_mem.2 fun q hq => nomatch hrs q hq) (hc ▸ hclosed) (hc ▸ hpeer)
      (hc ▸ hprocess) (hstill.processes.trans hn) ((hh.calls n).trans hcalls) ha
  | @launching t p x ks h ht hks hb hf hp hx hn ha =>
    obtain ⟨hstill, hh⟩ := hs _ (houtcome h hb.promised) h.fit
    obtain ⟨hlt, hout, hpending⟩ := hp
    refine .launching (hstill.promised ▸ h.mono fun f hf => (hgiven h hb.promised f hf).stays)
      (ht.mono hstill) hks (hw hb) (hf.mono hstill hh)
      ⟨?_, (hstill.outlet p).trans hout, hh.empty hpending⟩ (hstill.client ▸ hx)
      (hstill.processes.trans hn) ha
    exact hstill.ends.symm ▸ hlt
  | @due t p x h ht hb hf hp ha =>
    obtain ⟨hstill, hh⟩ := hs _ (houtcome h hb.promised) h.fit
    obtain ⟨hlt, hout, hpending⟩ := hp
    refine .due (hstill.promised ▸ h.mono fun f hf => (hgiven h hb.promised f hf).stays)
      (ht.mono hstill) (hw hb) (hf.mono hstill hh)
      ⟨hstill.ends.symm ▸ hlt, ?_, hh.empty hpending⟩ ha
    exact hout.imp (hstill.outlet p).trans (·.mono hstill.wiring)
  | @greeting t p x g params h ht hb hf hlink hp ha =>
    obtain ⟨hstill, hh⟩ := hs _ (houtcome h hb.promised) h.fit
    exact .greeting (hstill.promised ▸ h.mono fun f hf => (hgiven h hb.promised f hf).stays)
      (hstill.client ▸ ht.mono hstill) (hw hb) (hf.mono hstill hh) (hlink.mono hstill.wiring)
      (fun q hq => hp q (hh.pending p q hq)) ha
  | @welcomed p x params h hinit hf hlink =>
    obtain rfl := hopen hinit
    obtain ⟨hstill, hh⟩ := hgiven h (fun _ => id) x (.inl List.mem_cons_self) h.fit
    exact .welcomed (h.mono fun f hf => (hgiven h (fun _ => id) f hf).stays) (hstill.client ▸ hinit)
      (hf.mono hstill hh) (hlink.mono hstill.wiring)
  | lost h hclosed hF hcalls hpeer hp ha =>
    obtain ⟨hstill, hh⟩ := hgiven h hF _ (.inr (Nat.le_refl _)) h.fit
    refine .lost (h.mono fun f hf => (hgiven h hF f hf).stays) (hstill.client ▸ hclosed)
      (fun f hf => ?_)
      ?_ (fun hlt => ?_) (fun p hpeer r hr => hp p (hstill.client ▸ hpeer) r (hh.pending p r hr))
      fun g hg => ?_
    · obtain ⟨q, hq, hqf⟩ := List.mem_filterMap.1 hf
      exact hF f (List.mem_filterMap.2 ⟨q, hrs q hq, hqf⟩)
    · rw [hh.calls n]
      exact hcalls
    · rw [hstill.client]
      exact hpeer (hstill.processes ▸ hlt)
    · obtain ⟨e, he, hne⟩ := ha g hg
      exact ⟨e, hstill.ended g e he, hne⟩

/-- Somebody is not disturbed in any phase. -/
theorem undisturbed (h : l.Phase n qs a A) :
    ∃ X F, l.Undisturbed A X F ∧ ∀ f ∈ qs.filterMap Queued.result?, f ∈ F := by
  cases h with
  | asked h ht hqs => exact ⟨_, _, h, hqs ▸ nofun⟩
  | launching h ht hks hw => exact ⟨_, _, h, hw.promised⟩
  | due h ht hw => exact ⟨_, _, h, hw.promised⟩
  | greeting h ht hw => exact ⟨_, _, h, hw.promised⟩
  | welcomed h => exact ⟨_, _, h, fun _ => id⟩
  | lost h hclosed hF => exact ⟨_, _, h, hF⟩

/-- Nothing that happens without a word changes the phase of a greeting. -/
theorem mono (h : l.Phase n qs a A) (hs : ∀ f, Tacit A f l l') : l'.Phase n qs a A := by
  obtain ⟨X, F, hd, -⟩ := h.undisturbed
  exact h.carry (fun f _ => hs f) (·.stays hd.fit fun f => (hs f).stays) (fun _ => id) fun _ => rfl

end Phase

end Link

end EditorBridge
