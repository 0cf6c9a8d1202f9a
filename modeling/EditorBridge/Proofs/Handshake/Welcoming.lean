/-
A server is greeted.

The greeting takes two turns, one to say it and one to go on once it is answered.  If the
server agreed, the client says that it is ready and works off its queue in the same turn,
so nothing can come between the calls that had to wait and those that are made later.  If
anything fails, whoever waits for readiness is told, and nothing is said any more.
-/
import EditorBridge.Proofs.Handshake.Launching

namespace EditorBridge

open Act (Ends Keeps Reads)
open Resumption (All)
open Value (table)
open Workbench (Ceases)

namespace Link

variable {l l' : Link} {A : List TaskId} {X F : List FutureId} {f g x : FutureId} {t : TaskId}
  {ks : List Resumption} {p : PeerId} {n : ProcessId} {method : String} {params : Value}
  {target : Wire.Target} {qs : List Queued}

/-! ### Failing -/

/-- Whoever waits for readiness has nothing to do with the futures of others. -/
theorem byReady_tacit {α : Type} {a : Option FutureId → Act Link α}
    (hnone : ∀ f, Keeps (Tacit A f) (a none))
    (hsome : ∀ r f, f ≠ r → Keeps (Tacit A f) (a (some r))) :
    Ends (a l.client.ready) l fun _ l' => ∀ f, Tacit A f l l' := by
  cases hr : l.client.ready with
  | none => exact fun j f => (hnone f).keeps ⟨j, l⟩
  | some r =>
    exact tacit_but (g := r) (fun f => refl_of (Tacit A f) l) (hsome r) fun _ _ _ _ hs =>
      hs.ready hr

/-- **A greeting that failed** is told to whoever waits for readiness, and to nobody else. -/
theorem greetingFailed_tacit (e : Failure) : Ends (greetingFailed l.client.ready e) l fun y l' =>
    Ceases y ∧ ∀ f, Tacit A f l l' := by
  have hceases : Ends (greetingFailed l.client.ready e) l fun y _ => Ceases y := by
    have hafter {a : Act Link Unit} {b : Act Link Step} {l : Link}
        (hb : ∀ l, Ends b l fun y _ => Ceases y) :
        Ends (a >>= fun _ => b) l fun y _ => Ceases y := by
      refine .bind ((show Ends a l fun _ _ => True from fun _ => trivial).mono fun y l' _ => ?_)
      cases y with
      | ok _ => exact hb l'
      | error _ => trivial
    unfold greetingFailed
    dsimp only
    split
    · exact hafter fun l => .throw trivial
    · split
      · exact .throw trivial
      · exact hafter fun l => hafter fun l => .pure trivial
  refine hceases.and (byReady_tacit (a := (greetingFailed · e)) (fun f => ?_) fun r f hf => ?_)
  · unfold greetingFailed
    infer_instance
  · have (e : Ending Reply) := tacit_settleOpen (A := A) hf e
    unfold greetingFailed
    infer_instance

/-! ### Asking -/

/-- A request is written to the process, or not at all. -/
theorem sendRequest_wrote (h : l.outlet p = none ∨ l.Linked n p) :
    Ends (sendRequest p method params target none) l fun y l' => match y with
      | .error _ => l'.callsTo n = l.callsTo n ∧ l'.pending p = l.pending p
      | .ok _ => l.Linked n p ∧
        l'.callsTo n = l.callsTo n ++ [request (l.lastId p + 1) method params].filter isCall := by
  unfold sendRequest
  refine .bind (newFuture_ends.mono fun x l₁ h₁ => ?_)
  obtain ⟨rfl, rfl⟩ := h₁
  refine .read (.change_bind ?_)
  refine .bind ((write_ends p _ (l.numbering p)).mono fun x l₂ h₂ => ?_)
  have houtlet : (l.numbering p).outlet p = l.outlet p := getD_modify Peer.outlet rfl p
  cases h₂ with
  | unconnected | unwritable => exact ⟨rfl, getD_modify Peer.pending rfl p⟩
  | @frame o frame lo ho hp hm hlo =>
    rcases h with hnone | hlink
    · cases (houtlet.trans hnone).symm.trans ho.1
    refine .change_bind (.pure ⟨hlink, ?_⟩)
    cases (houtlet.trans hlink.1).symm.trans ho.1
    have hcalls := @callsTo_frame (l.numbering p) frame lo n
    rw [hp, if_pos rfl, hm] at hcalls
    exact hcalls

theorem isCall_hello (params : Value) : isCall (hello params) = true := by
  unfold isCall hello request withParams
  split <;> simp [Value.textAt?, cancelMethod]

theorem isCall_thanks : isCall thanks = true := by
  unfold isCall thanks notification withParams
  split <;> simp [Value.textAt?, cancelMethod]

/-- What saying the greeting comes to: it could not be said, or somebody waits for the answer. -/
def Greets (A : List TaskId) (n : ProcessId) (p : PeerId) (l : Link) (y : Except Failure Step)
    (l' : Link) : Prop :=
  (∀ f, Stays A f l l') ∧
    (Ceases y ∧ l'.callsTo n = l.callsTo n ∧ (∀ r ∈ l'.pending p, r ∈ l.pending p) ∨
      y = .ok (.wait l.loop.futures.size [.greeted l.client.ready]) ∧ l.Linked n p ∧
        l'.lastId p = l.lastId p + 1 ∧
        (∃ params, l'.callsTo n =
          l.callsTo n ++ [request (l.lastId p + 1) "initialize" params].filter isCall) ∧
        (∃ r, r.future = l.loop.futures.size ∧ l'.pending p = l.pending p ++ [r]) ∧
        l.loop.futures.size < l'.loop.futures.size)

theorem greet_greets (hpeer : l.client.peer = some p) (hlt : p < l.peers.size)
    (hlink : l.outlet p = none ∨ l.Linked n p) (hl : l.Fit A) : Ends greet l (Greets A n p l) := by
  have hfailed {l₁ : Link} (e : Failure) (hs : ∀ f, Stays A f l l₁)
      (hcalls : l₁.callsTo n = l.callsTo n ∧ l₁.pending p = l.pending p) :
      Ends (greetingFailed l.client.ready e) l₁ (Greets A n p l) := by
    rw [← (hs 0 hl).client]
    refine (greetingFailed_tacit (A := A) e).mono fun y l' h' => ?_
    obtain ⟨hy, hs'⟩ := h'
    obtain ⟨-, hh⟩ := hs' 0 (hs 0 hl).fit
    exact ⟨fun f => trans_of (Stays A f) (hs f) (hs' f).stays,
      .inl ⟨hy, (hh.calls n).trans hcalls.1, fun r hr => hcalls.2 ▸ hh.pending p r hr⟩⟩
  refine .read (.bind (.outcome ?_))
  refine .bind (clientPeer_ends.mono fun y l₁ h₁ => ?_)
  obtain ⟨rfl, hy⟩ := h₁
  cases y with
  | error e => cases hpeer.symm.trans hy
  | ok q =>
    cases hpeer.symm.trans hy
    refine .read (.bind (.ofExcept ?_))
    cases greeting l₁.client with
    | error e => exact hfailed e (fun f => refl_of (Stays A f) l₁) ⟨rfl, rfl⟩
    | ok params =>
      have hstays : Ends (sendRequest p "initialize" params (.struct "InitializeResult") none) l₁
          fun _ l' => ∀ f, Stays A f l₁ l' := fun j f => stays_sendRequest.keeps ⟨j, l₁⟩
      refine ((hstays.and (sendRequest_issues hlt)).and (sendRequest_wrote hlink)).mono
        fun y l₂ h₂ => ?_
      obtain ⟨⟨hs, hissued⟩, hwrote⟩ := h₂
      cases y with
      | error e => exact hfailed e hs hwrote
      | ok answer =>
        obtain rfl : answer = l₁.loop.futures.size := hissued.future
        refine .read ?_
        rw [show l₂.loop.ending? l₁.loop.futures.size = none from hissued.unended]
        exact .pure ⟨hs, .inr ⟨rfl, hwrote.1, hissued.lastId, ⟨params, hwrote.2⟩,
          ⟨_, rfl, hissued.pending⟩, hissued.made⟩⟩

/-! ### Going on -/

/-- Futures that were given need not be remembered. -/
theorem Undisturbed.subset (h : l.Undisturbed A X F) {F' : List FutureId} (hF : ∀ f ∈ F', f ∈ F) :
    l.Undisturbed A X F' :=
  { h with given := fun f hf => h.given f (hF f hf) }

/-- What a server that agreed has heard, and the link afterwards. -/
structure Welcomes (t : TaskId) (x : FutureId) (p : PeerId) (n : ProcessId) (params : Value)
    (qs : List Queued) (l l' : Link) : Prop where
  undisturbed : l'.Undisturbed [t] [x] (qs.filterMap Queued.result?)
  opened : l'.client.initialized = true
  ready : l'.client.ready = l.client.ready
  facing : l'.Facing p n (1 + Queued.total qs)
    (hello params :: thanks :: (Queued.numbered 2 qs).filter isCall)
  linked : l'.Linked n p
  acting : l'.tasks.getD t default = l.tasks.getD t default
  size : l.loop.futures.size ≤ l'.loop.futures.size

theorem Welcomes.tacit {l'' : Link} (h : Welcomes t x p n params qs l l')
    (hs : ∀ f, Tacit [t] f l' l'') : Welcomes t x p n params qs l l'' := by
  obtain ⟨hstill, hh⟩ := hs 0 h.undisturbed.fit
  exact ⟨h.undisturbed.mono fun f _ => (hs f).stays, hstill.client ▸ h.opened,
    (congrArg Client.ready hstill.client).trans h.ready, h.facing.mono hstill hh,
    h.linked.mono hstill.wiring, (hstill.tasks t List.mem_cons_self).trans h.acting,
    Nat.le_trans h.size hstill.loop.futures⟩

/-- What is recorded of a server that was greeted, and who hears of it. -/
def announce (w : Wire) (ready : Option FutureId) : Act Link Unit := do
  Act.logBuilt Client.logger .info fun _ => greetedText w
  if let some f := ready then
    let _ ← settleOpen f (.result (.wire w))

theorem announce_tacit (w : Wire) : Ends (announce w l.client.ready) l
    fun _ l' => ∀ f, Tacit A f l l' := by
  refine byReady_tacit (fun f => ?_) fun r f hf => ?_
  · unfold announce
    infer_instance
  · have := tacit_settleOpen (A := A) hf (.result (.wire w))
    unfold announce
    infer_instance

/-- **A client that is welcome** says so, and then everything that had to wait. -/
theorem welcome_welcomes (h : l.Undisturbed [t] [x] l.promised) (hw : l.Backlog qs)
    (hf : l.Facing p n 1 [hello params]) (hlink : l.Linked n p) (w : Wire) :
    Ends (welcome l.client.ready w) l fun _ l' => Welcomes t x p n params qs l l' := by
  let l₁ : Link := { l with client := { l.client with greeted := w } }
  have hp₁ : Proceeds l l₁ := proceeds_alike rfl rfl rfl (fun _ _ => id) fun _ => id
  have h₁ : l₁.Undisturbed [t] [x] l.promised := h.alike hp₁ rfl
  refine .change_bind ?_
  refine .bind (clientPeer_ends.mono fun y l₁' hy => ?_)
  obtain ⟨rfl, hy⟩ := hy
  cases y with
  | error e => cases hf.peer.symm.trans hy
  | ok q =>
    cases hf.peer.symm.trans hy
    have hstays : Ends (write p thanks) l₁ fun _ l' => ∀ f, Stays [t] f l₁ l' :=
      fun j f => (stays_write thanks).keeps ⟨j, l₁⟩
    refine .bind ((hstays.and (says_write (n := n) hlink ?_)).mono fun y l₂ h₂ => ?_)
    · exact hasFrame_notification (.table nofun)
    obtain ⟨hs₂, rfl, hsaid₂⟩ := h₂
    have hstill₂ := hs₂ 0 h₁.fit
    have hclient₂ : l₂.client = l₁.client := hstill₂.client
    refine .change_bind (.bind (.read (.change_bind ?_)))
    let l₃ : Link := { l₂ with client := { l₂.client with initialized := true, queued := [] } }
    have hp₃ : Proceeds l₂ l₃ := proceeds_alike rfl rfl rfl (fun _ _ => id) fun _ => id
    have h₃ : l₃.Undisturbed [t] [x] l.promised := (h₁.mono fun f _ => hs₂ f).alike hp₃ rfl
    have hsparing : Sparing l l₃ := trans_of Sparing hp₁.toSparing
      (trans_of Sparing (.of_stays h₁.fit hs₂) hp₃.toSparing)
    have hqueue : l₂.client.queued = l.client.queued := by rw [hclient₂]
    have hwanted : l₂.client.queued.filter l₃.Wanted = qs := by
      rw [hqueue, List.filter_congr fun q hq => (hsparing.apart (hw.apart q hq)).2]
      exact hw.wanted
    have hlink₂ : l₂.Linked n p := Linked.mono (l := l₁) hlink hstill₂.wiring
    have hpeer₃ : l₃.client.peer = some p := (congrArg Client.peer hclient₂).trans hf.peer
    have hflush := says_sendAll (show l₃.Linked n p from hlink₂) hpeer₃ (hqueue ▸ hw.writes) h₃.fit
      (hqueue ▸ hw.nodup) (hqueue ▸ fun q hq => (hsparing.apart (hw.apart q hq)).1)
    refine .bind (hflush.mono fun y l₄ h₄ => ?_)
    obtain ⟨rfl, hsaid₄, hstays₄⟩ := h₄
    rw [hwanted] at hsaid₄
    have hstays (f : FutureId) (hf : f ∈ [x] ∨ l₃.loop.futures.size ≤ f) : Stays [t] f l₃ l₄ := by
      refine hstays₄ f fun q hq hqf => ?_
      obtain ⟨hlt, hX, -⟩ := h₃.given f (List.mem_filterMap.2 ⟨q, hqueue ▸ hq, hqf⟩)
      exact hf.elim hX (Nat.not_le.2 hlt)
    have hstill₄ := hstays x (.inl List.mem_cons_self) h₃.fit
    have hclient₄ : l₄.client = l₃.client := hstill₄.client
    have hlastId : l₃.lastId p = 1 := hsaid₂.lastId.trans hf.lastId
    have hcalls : l₃.callsTo n = [hello params, thanks] :=
      hsaid₂.calls.trans (by
        rw [show l₁.callsTo n = [hello params] from hf.calls, List.filter_cons_of_pos isCall_thanks]
        rfl)
    have hwelcomes : Welcomes t x p n params qs l l₄ := {
      undisturbed := (h₃.mono hstays).subset hw.promised
      opened := by rw [hclient₄]
      ready := by rw [hclient₄, show l₃.client.ready = l₂.client.ready from rfl, hclient₂]
      facing := ⟨by rw [hclient₄, hpeer₃], by rw [hsaid₄.lastId, hlastId], by
        rw [hsaid₄.calls, hcalls, hlastId]
        rfl⟩
      linked := Linked.mono (l := l₃) hlink₂ hstill₄.wiring
      acting := (hstill₄.tasks t List.mem_cons_self).trans (hstill₂.tasks t List.mem_cons_self)
      size := Nat.le_trans hsparing.size hstill₄.loop.futures }
    refine .pure ?_
    rw [← hwelcomes.ready]
    exact (announce_tacit w).mono fun _ _ hs => hwelcomes.tacit hs

/-- **Going on** with the answer of a server that agreed leaves everything said. -/
theorem greeted_welcomes (h : l.Undisturbed [t] [x] l.promised) (hw : l.Backlog qs)
    (hf : l.Facing p n 1 [hello params]) (hlink : l.Linked n p) (reply : Reply) :
    Ends (greeted l.client.ready (.ok reply)) l fun y l' =>
      Ceases y ∧ Welcomes t x p n params qs l l' := by
  refine .bind (.outcome ((welcome_welcomes h hw hf hlink reply.asWire).mono fun y l₁ h₁ => ?_))
  cases y with
  | ok _ => exact .pure ⟨trivial, h₁⟩
  | error e =>
    dsimp only
    rw [← h₁.ready]
    exact (greetingFailed_tacit (A := [t]) e).mono fun _ _ h₂ => ⟨h₂.1, h₁.tacit h₂.2⟩

end Link

namespace Workbench

open Link (Phase)

variable {w : Workbench} {t : TaskId} {js : List Job} {p : PeerId} {n : ProcessId} {x : FutureId}
  {qs : List Queued}

/-! ### The turns of a greeting -/

/-- **The first turn of a greeting** asks the server. -/
theorem due_turn (hr : w.link.loop.ready = .step t :: js)
    (h : w.link.Undisturbed [t] [x] w.link.promised) (ht : w.link.Acts t [.greet] none 1)
    (hw : w.link.Backlog qs) (hf : w.link.Facing p n 0 [])
    (hp : p < w.link.peers.size ∧ (w.link.outlet p = none ∨ w.link.Linked n p) ∧
      w.link.pending p = []) :
    Ends (stepTask t) { w with link := w.link.taken js } fun _ w' =>
      ∃ A a, w'.link.Phase n qs a A := by
  let l := w.link.acting t js
  have hl : l.Undisturbed [t] [x] w.link.promised := h.acting hr rfl
  have hacts := ht.acting hr
  have hbacklog : l.Backlog qs := hw.mono (Link.proceeds_acting hr rfl).toSparing rfl rfl
  obtain ⟨hlt, hlink, hpending⟩ := hp
  have houtcome : (l.tasks.getD t default).outcome =
      ((w.link.taken js).tasks.getD t default).outcome := Link.getD_modify Task.outcome rfl t
  refine stepTask_goes (P := fun l' => ∃ A a, l'.Phase n qs a A) (ht.taken hr).toPoised
    fun w₁ hw₁ => ?_
  have hfacing : l.Facing p n 0 [] := ⟨hf.peer, hf.lastId, hf.calls⟩
  refine resumeAll_last (a := Link.greet) rfl ?_
  rw [show w₁.link = l from hw₁, ← houtcome]
  refine (Link.greet_greets hfacing.peer hlt hlink hl.fit).mono fun y l' h' w₂ hw₂ => ?_
  obtain ⟨hs, hy⟩ := h'
  have hl' : l'.Undisturbed [t] [x] w.link.promised := hl.mono fun f _ => hs f
  have hacts' : l'.Acts t [.greet] none 0 := hacts.mono (hs _ hl.fit)
  have hbacklog' : l'.Backlog qs := hbacklog.stays hl.fit hs
  have hclient : l'.client = l.client := (hs 0 hl.fit).client
  have htask : l'.tasks.getD t default = l.tasks.getD t default :=
    (hs 0 hl.fit).tasks t List.mem_cons_self
  have hgiven : l'.promised = w.link.promised := by rw [Link.promised, hclient]; rfl
  rw [hw₂]
  rcases hy with ⟨hy, hcalls, hsilent⟩ |
    ⟨rfl, hlinked, hlastId, ⟨params, hcalls⟩, ⟨r, hr, hpend⟩, hmade⟩
  · have hend : (l.tasks.getD t default).outcome < l'.loop.futures.size ∧
        ∀ l'', Link.Closes (l.tasks.getD t default).outcome l' l'' → ∃ A a, l''.Phase n qs a A := by
      rw [← htask]
      refine ⟨hacts'.made, fun l'' hc => ⟨[], none, .of_closes hc hl' hbacklog'.closed ?_
        (.inl (hcalls.trans hf.calls)) (fun _ => ?_) (fun q hq r hr => ?_) fun g hg => ?_⟩⟩
      · exact hgiven ▸ hbacklog'.promised
      · rw [hclient, hfacing.peer]
        exact Option.some_ne_none p
      · cases (hclient ▸ hq).symm.trans hfacing.peer
        have hmem := hsilent r hr
        rw [show l.pending p = [] from hpending] at hmem
        cases hmem
      · cases hg
    rcases y with f | ⟨reply | ⟨f, more⟩ | more⟩
    · exact hend
    · exact hend
    · exact hy.elim
    · exact hy.elim
  · have hX : l.loop.futures.size ∉ [x] := fun hmem =>
      Nat.ne_of_gt (hl.lasting x List.mem_cons_self).1 (List.mem_singleton.1 hmem)
    have hready : l'.client.ready = l.client.ready := congrArg Client.ready hclient
    have hsaid : l'.callsTo n = [Link.hello params] := by
      rw [hcalls, hfacing.calls, hfacing.lastId]
      exact List.filter_cons_of_pos (Link.isCall_hello params)
    rw [hfacing.lastId, Nat.zero_add] at hlastId
    -- The answer is a future of this turn, so whoever falls asleep on it disturbs nobody.
    let l₂ := l'.sleeping t l.loop.futures.size [.greeted l.client.ready]
    have hpromised : l₂.promised = w.link.promised := hgiven
    have hl₂ : l₂.Undisturbed [t] [x] l₂.promised :=
      hpromised ▸ hl'.sleeping List.mem_cons_self hmade hX
    have hacts₂ : l₂.Acts t [.greeted l₂.client.ready] (some l.loop.futures.size) 0 :=
      hready ▸ hacts'.sleeping hmade _
    have hsparing : Link.Sparing l l₂ :=
      (Link.Sparing.of_stays hl.fit hs).sleeping (Nat.le_refl _) hmade
    have hbacklog₂ : l₂.Backlog qs :=
      hbacklog.mono hsparing (congrArg Client.queued hclient) (congrArg Client.initialized hclient)
    have hfacing₂ : l₂.Facing p n 1 [Link.hello params] :=
      ⟨(congrArg Client.peer hclient).trans hfacing.peer, hlastId, hsaid⟩
    refine ⟨hacts'.steady, [t], _, .greeting hl₂ hacts₂ hbacklog₂ hfacing₂
      (hlinked.mono (hs 0 hl.fit).wiring) (fun q hq => ?_) rfl⟩
    have hq : q ∈ l'.pending p := hq
    rw [hpend, show l.pending p = [] from hpending] at hq
    rw [List.mem_singleton.1 hq, hr]

/-- **The second turn of a greeting** goes on with the answer: everything that had to wait is said,
or the greeting failed. -/
theorem greeting_turn {g : FutureId} {params : Value}
    (hr : w.link.loop.ready = .call (.wake t) g :: js)
    (h : w.link.Undisturbed [t] [x] w.link.promised)
    (ht : w.link.Acts t [.greeted w.link.client.ready] (some g) 0) (hw : w.link.Backlog qs)
    (hf : w.link.Facing p n 1 [Link.hello params]) (hlink : w.link.Linked n p)
    (hp : ∀ q ∈ w.link.pending p, q.future = g) :
    Ends (stepTask t) { w with link := w.link.taken js } fun _ w' =>
      w'.link.Phase n qs (some g) [] := by
  let l := w.link.acting t js
  have hl : l.Undisturbed [t] [x] w.link.promised := h.acting hr rfl
  have hbacklog : l.Backlog qs := hw.mono (Link.proceeds_acting hr rfl).toSparing rfl rfl
  have hfacing : l.Facing p n 1 [Link.hello params] := ⟨hf.peer, hf.lastId, hf.calls⟩
  have hpoised := ht.toPoised.acting hr
  have houtcome : (l.tasks.getD t default).outcome =
      ((w.link.taken js).tasks.getD t default).outcome := Link.getD_modify Task.outcome rfl t
  obtain ⟨e, he⟩ := Option.isSome_iff_exists.1
    (h.fit.sane.jobs g (.wake t) (hr ▸ List.mem_cons_self)).1
  refine stepTask_goes (P := fun l' => l'.Phase n qs (some g) []) (ht.toPoised.taken hr)
    fun w₁ hw₁ => ?_
  have hheard : (w.link.taken js).heardFrom (some g) = e.toExcept := by
    show ((w.link.loop.ending? g).getD .cancelled).toExcept = _
    rw [he]
    rfl
  rw [show ({ w with link := w.link.taken js } : Workbench).link = w.link.taken js from rfl, hheard]
  refine resumeAll_last (a := Link.greeted l.client.ready e.toExcept) rfl ?_
  rw [show w₁.link = l from hw₁, ← houtcome]
  have hceases {l' : Link} {y : Except Failure Step} (hy : Ceases y)
      (htask : l'.tasks.getD t default = l.tasks.getD t default)
      (hle : l.loop.futures.size ≤ l'.loop.futures.size)
      (hP : ∀ l'', Link.Closes (l'.tasks.getD t default).outcome l' l'' →
        l''.Phase n qs (some g) []) (w₂ : Workbench) (hw₂ : w₂.link = l') :
      w₂.link.Comes t (l.tasks.getD t default).outcome (fun l' => l'.Phase n qs (some g) []) y := by
    have hend : (l.tasks.getD t default).outcome < l'.loop.futures.size ∧
        ∀ l'', Link.Closes (l.tasks.getD t default).outcome l' l'' → l''.Phase n qs (some g) [] :=
      ⟨Nat.lt_of_lt_of_le hpoised.made hle, htask ▸ hP⟩
    rw [hw₂]
    rcases y with f | ⟨reply | ⟨f, more⟩ | more⟩
    · exact hend
    · exact hend
    · exact hy.elim
    · exact hy.elim
  -- Whoever failed says nothing more.
  have hfails (c : Failure) (hne : ∀ y, e ≠ .result y) :
      Ends (Link.greeted l.client.ready (.error c)) l fun y l' => ∀ w₂ : Workbench, w₂.link = l' →
        w₂.link.Comes t (l.tasks.getD t default).outcome (fun l' => l'.Phase n qs (some g) [])
          y := by
    refine (Link.greetingFailed_tacit (A := [t]) c).mono fun y l' h' => ?_
    obtain ⟨hy, hs⟩ := h'
    obtain ⟨hstill, hh⟩ := hs 0 hl.fit
    have hl' : l'.Undisturbed [t] [x] w.link.promised := hl.mono fun f _ => (hs f).stays
    have hcalls : l'.callsTo n = [Link.hello params] := (hh.calls n).trans hfacing.calls
    refine hceases hy (hstill.tasks t List.mem_cons_self) hstill.loop.futures fun l'' hc => ?_
    refine .of_closes hc hl' (hstill.client ▸ hbacklog.closed) hbacklog.promised
      (.inr ⟨params, hcalls⟩) (fun _ => ?_) (fun q hq r hr => ?_) fun g' hg => ?_
    · rw [hstill.client, hfacing.peer]
      exact nofun
    · cases (hstill.client ▸ hq).symm.trans hfacing.peer
      rw [hp r (hh.pending p r hr)]
    · obtain rfl := Option.some.inj hg
      exact ⟨e, hstill.ended g e he, hne⟩
  cases e with
  | result reply =>
    refine (Link.greeted_welcomes hl hbacklog hfacing hlink reply).mono fun y l' h' => ?_
    obtain ⟨hy, h'⟩ := h'
    refine hceases hy h'.acting h'.size fun l'' hc => ?_
    have hundisturbed := hc.leave h'.undisturbed
    obtain ⟨lo, rfl, -⟩ := hc
    exact .welcomed hundisturbed h'.opened ⟨h'.facing.peer, h'.facing.lastId, h'.facing.calls⟩
      h'.linked
  | failed c => exact hfails c nofun
  | cancelled => exact hfails .cancelled nofun

end Workbench

end EditorBridge
