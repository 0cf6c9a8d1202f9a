/-
Calls are made at any time.

While the server is being greeted a call is kept in the queue, and later it is said at once.  In
either case the calls that were made so far are one more, and the greeting stays in its
phase (`notifyServer_phase`, `requestServer_phase`).  A call is refused only as long as the client
has no end.  The caller of a request may give it up; in time that is as if the call
had not been made (`drop_phase`).

The future that is given for a request is new, so it is nobody else's and has no part in the
greeting.  That is what `Fresh` says, and all that is needed to remember it.
-/
import EditorBridge.Proofs.Handshake.Welcoming

namespace EditorBridge

open Act (Ends Keeps Reads)
open Json (Writable)
open Resumption (All)

namespace Link

variable {l l₁ l' : Link} {A : List TaskId} {X F F' : List FutureId} {f : FutureId} {t : TaskId}
  {ks : List Resumption} {o a : Option FutureId} {c i : Nat} {p : PeerId} {n : ProcessId}
  {qs : List Queued} {q : Queued} {ms : List Value} {method : String} {params : Value}
  {target : Wire.Target} {token : Option TokenId}

/-! ### Bystanders that begin -/

/-- Somebody may begin to wait for readiness at any time. -/
theorem tacit_begun {k : Resumption} (hk : k.isMild = true) : Tacit A f l (l.begun k) := by
  intro hl
  have hnew : l.tasks.size ∉ A := fun hmem => Nat.lt_irrefl _ (hl.there _ hmem)
  have hloop := abides_begun k hnew
  have hsize : l.tasks.size ≤ (l.begun k).tasks.size := by simp [begun]
  refine ⟨{
    fit := {
      scripts := hl.scripts
      lenient := hl.lenient
      sane := hloop.sane hl.sane
      there := fun u hu => Nat.lt_of_lt_of_le (hl.there u hu) hsize
      turned := fun j hj u hju => (hloop.owed j hj).elim
        (fun ho => Nat.lt_of_lt_of_le (hl.turned j ho u hju) hsize) fun ho => ho.2 u hju
      mild := fun u hu => ?_ }
    wiring := rfl
    client := rfl
    loop := hloop.toGrows
    ended := hloop.ended
    size := hsize
    there := hl.there
    tasks := fun u hu => ?_
    owes := fun j hj => hloop.iff hj
    turns := hloop.turns
    spared := spared_begun }, fun _ => rfl, fun _ => rfl, fun _ _ => id⟩
  · rw [Over, rest, task_begun]
    split
    · exact .inr (List.forall_mem_singleton.2 hk)
    · exact (hl.mild u hu).imp (hloop.done _) id
  · exact (task_begun k u).trans (if_neg fun heq : u = l.tasks.size => hnew (heq ▸ hu))

/-! ### A call that has to wait -/

/-- The link once a call has to wait. -/
def kept (q : Queued) (l : Link) : Link :=
  { l with client := { l.client with queued := l.client.queued ++ [q] } }

/-- A call is new: its future, if it has one, was made for it without a word. -/
structure Fresh (q : Queued) (l l₁ : Link) : Prop where
  tacit : ∀ A f, Tacit A f l l₁
  made : ∀ f, q.result? = some f → l.loop.futures.size ≤ f ∧ f < l₁.loop.futures.size
  apart : ∀ f, q.result? = some f → (∀ g, l.loop.futures.size ≤ g → l.Spared [] g) →
    l₁.Spared [] f ∧ l₁.loop.done f = false

theorem fresh_notification (method : String) (params : Value) (l : Link) :
    Fresh (.notification method params) l l :=
  ⟨fun A f => refl_of (Tacit A f) l, nofun, nofun⟩

theorem fresh_request (method : String) (params : Value) (target : Wire.Target)
    (token : Option TokenId) (l : Link) :
    Fresh (.request method params target token l.loop.futures.size) l
      { l with loop := l.loop.create.2 } where
  tacit _ _ := tacit_created
  made f hf := by
    cases hf
    exact ⟨Nat.le_refl _, by simp [Loop.create]⟩
  apart f hf hs := by
    cases hf
    have hs := hs _ (Nat.le_refl _)
    refine ⟨{ hs with loop := hs.loop.of_owes fun _ => Loop.owes_create.1 }, ?_⟩
    simp [Loop.create, Loop.done, Loop.ending?]

/-- More futures may be given for calls. -/
theorem Undisturbed.give (h : l.Undisturbed A X F) (hF : ∀ f ∈ F', f < l.loop.futures.size ∧ f ∉ X ∧
    ∀ t ∈ A, (l.tasks.getD t default).outcome ≠ f) : l.Undisturbed A X (F ++ F') :=
  { h with given := List.forall_mem_append.2 ⟨h.given, hF⟩ }

theorem proceeds_kept (q : Queued) (l : Link) : Proceeds l (l.kept q) :=
  proceeds_alike rfl rfl rfl (fun _ _ => id) fun _ => id

theorem promised_kept (q : Queued) (l : Link) :
    (l.kept q).promised = l.promised ++ q.result?.toList := by
  cases hq : q.result? <;> simp [promised, kept, hq]

/-- Nobody is disturbed by a call that is new. -/
theorem Undisturbed.kept (h : l.Undisturbed A X F) (hq : Fresh q l l₁)
    (ht : ∀ t ∈ A, (l.tasks.getD t default).outcome < l.loop.futures.size) :
    (l₁.kept q).Undisturbed A X (F ++ q.result?.toList) := by
  have hstill := (hq.tacit A 0 h.fit).1
  have hnew : l₁.Undisturbed A X (F ++ q.result?.toList) :=
    (h.mono fun f _ => (hq.tacit A f).stays).give fun f hf => by
      obtain ⟨hle, hlt⟩ := hq.made f (Option.mem_toList.1 hf)
      refine ⟨hlt, fun hX => Nat.not_le.2 (h.lasting f hX).1 hle, fun t hmem heq => ?_⟩
      rw [hstill.tasks t hmem] at heq
      exact Nat.not_le.2 (ht t hmem) (heq ▸ hle)
  exact hnew.alike (proceeds_kept q l₁) rfl

theorem Backlog.kept (h : l.Backlog qs) (hd : l.Undisturbed A X l.promised) (hq : Fresh q l l₁)
    (hw : q.Writes) : (l₁.kept q).Backlog (qs ++ [q]) := by
  have hsame : l₁.client = l.client := (hq.tacit A 0 hd.fit).1.client
  have hold : l₁.Backlog qs := h.stays hd.fit fun f => (hq.tacit A f).stays
  have hsparing : Sparing l₁ (l₁.kept q) := (proceeds_kept q l₁).toSparing
  have hnew : l₁.Apart q ∧ l₁.Wanted q = true := by
    refine ⟨fun f hf => ⟨(hq.made f hf).2, .inr (hq.apart f hf hd.unknown).1⟩, ?_⟩
    unfold Wanted
    cases hr : q.result? with
    | none => rfl
    | some f => simp [(hq.apart f hr hd.unknown).2]
  have hall : ∀ q' ∈ (l₁.kept q).client.queued, l₁.Apart q' := fun q' hq' =>
    (List.mem_append.1 hq').elim (hold.apart q') fun hlast => List.mem_singleton.1 hlast ▸ hnew.1
  refine ⟨hold.closed, ?_, fun q' hq' => ?_, fun q' hq' => (hsparing.apart (hall q' hq')).1, ?_⟩
  · rw [List.filter_congr fun q' hq' => (hsparing.apart (hall q' hq')).2]
    show (l₁.client.queued ++ [q]).filter l₁.Wanted = qs ++ [q]
    rw [List.filter_append, hold.wanted, List.filter_cons_of_pos hnew.2, List.filter_nil]
  · rcases List.mem_append.1 hq' with hq' | hq'
    · exact hold.writes q' hq'
    · exact List.mem_singleton.1 hq' ▸ hw
  · rw [promised_kept]
    refine List.nodup_append'.2 ⟨hold.nodup, by cases q.result? <;> simp, fun f hf hf' => ?_⟩
    have hmem : f ∈ l.promised := by rwa [Link.promised, ← hsame]
    exact Nat.not_le.2 (hd.given f hmem).1 (hq.made f (Option.mem_toList.1 hf')).1

theorem Acts.kept (h : l₁.Acts t ks o c) : (l₁.kept q).Acts t ks o c :=
  ⟨h.toPoised.mono rfl (Nat.le_refl _) (Nat.le_refl _) ⟨{ h.alone with }, rfl⟩, h.wakes, h.turns⟩

theorem Facing.kept (h : l₁.Facing p n i ms) : (l₁.kept q).Facing p n i ms :=
  ⟨h.peer, h.lastId, h.calls⟩

/-- **A call that has to wait** is one more call in any phase. -/
theorem Phase.kept (h : l.Phase n qs a A) (hq : Fresh q l l₁) (hw : q.Writes)
    (hclosed : l.client.initialized = false) (hpeer : l.client.peer ≠ none) :
    (l₁.kept q).Phase n (qs ++ [q]) a A := by
  have hpromised (hs : l₁.client = l.client) :
      (l₁.kept q).promised = l.promised ++ q.result?.toList := by
    rw [promised_kept, promised, hs, promised]
  have hkeeps {α : Type} (c : Client → α) (hc : ∀ d : Client, ∀ qs, c { d with queued := qs } = c d)
      (hs : l₁.client = l.client) : c (l₁.kept q).client = c l.client :=
    (hc _ _).trans (congrArg c hs)
  have hmade {t : TaskId} (h : (l.tasks.getD t default).outcome < l.loop.futures.size) :
      ∀ u ∈ [t], (l.tasks.getD u default).outcome < l.loop.futures.size :=
    List.forall_mem_singleton.2 h
  cases h with
  | asked h ht hqs hclosed hnone => exact absurd hnone hpeer
  | @launching t p x ks h ht hks hb hf hp hx hn ha =>
    obtain ⟨hstill, hh⟩ := hq.tacit _ (l.tasks.getD t default).outcome h.fit
    obtain ⟨hlt, hout, hpending⟩ := hp
    exact .launching (hpromised hstill.client ▸ h.kept hq (hmade ht.made)) (ht.mono hstill).kept hks
      (hb.kept h hq hw) (hf.mono hstill hh).kept
      ⟨hstill.ends.symm ▸ hlt, (hstill.outlet p).trans hout, hh.empty hpending⟩
      ((hkeeps Client.exited (fun _ _ => rfl) hstill.client).trans hx)
      (hstill.processes.trans hn) ha
  | @due t p x h ht hb hf hp ha =>
    obtain ⟨hstill, hh⟩ := hq.tacit _ (l.tasks.getD t default).outcome h.fit
    obtain ⟨hlt, hout, hpending⟩ := hp
    exact .due (hpromised hstill.client ▸ h.kept hq (hmade ht.made)) (ht.mono hstill).kept
      (hb.kept h hq hw) (hf.mono hstill hh).kept
      ⟨hstill.ends.symm ▸ hlt, hout.imp (hstill.outlet p).trans (·.mono hstill.wiring),
        hh.empty hpending⟩ ha
  | @greeting t p x g params h ht hb hf hlink hp ha =>
    obtain ⟨hstill, hh⟩ := hq.tacit _ (l.tasks.getD t default).outcome h.fit
    have hready := hkeeps Client.ready (fun _ _ => rfl) hstill.client
    exact .greeting (hpromised hstill.client ▸ h.kept hq (hmade ht.made))
      (hready ▸ (ht.mono hstill).kept) (hb.kept h hq hw) (hf.mono hstill hh).kept
      (hlink.mono hstill.wiring) (fun r hr => hp r (hh.pending p r hr)) ha
  | welcomed h hopen => cases hclosed.symm.trans hopen
  | lost h _ hF hcalls _ hp ha =>
    obtain ⟨hstill, hh⟩ := hq.tacit _ 0 h.fit
    have hsame := hkeeps Client.peer (fun _ _ => rfl) hstill.client
    refine .lost (h.kept hq (List.forall_mem_nil _))
      ((hkeeps Client.initialized (fun _ _ => rfl) hstill.client).trans hclosed) (fun f hf => ?_) ?_
      (fun _ => hsame ▸ hpeer) (fun p hpeer r hr => hp p (hsame ▸ hpeer) r (hh.pending p r hr))
      fun g hg => ?_
    · rw [List.filterMap_append] at hf
      refine List.mem_append.2 ((List.mem_append.1 hf).imp (hF f) fun hlast => ?_)
      obtain ⟨q', hq', hf⟩ := List.mem_filterMap.1 hlast
      exact Option.mem_toList.2 (List.mem_singleton.1 hq' ▸ hf)
    · rw [show (l₁.kept q).callsTo n = l.callsTo n from hh.calls n]
      exact hcalls
    · obtain ⟨e, he, hne⟩ := ha g hg
      exact ⟨e, hstill.ended g e he, hne⟩

/-! ### A call that is said at once -/

/-- **A client that is welcome** has said everything. -/
theorem Phase.welcome (h : l.Phase n qs a A) (hopen : l.client.initialized = true) :
    A = [] ∧ ∃ p x params, l.Undisturbed [] [x] (qs.filterMap Queued.result?) ∧
      l.Facing p n (1 + Queued.total qs)
        (hello params :: thanks :: (Queued.numbered 2 qs).filter isCall) ∧ l.Linked n p := by
  cases h with
  | welcomed h _ hf hlink => exact ⟨rfl, _, _, _, h, hf, hlink⟩
  | asked _ _ _ hclosed | lost _ hclosed => cases hclosed.symm.trans hopen
  | launching _ _ _ hw | due _ _ hw | greeting _ _ hw => cases hw.closed.symm.trans hopen

/-- A call that is said at once is the last one that was said. -/
theorem Phase.said {p : PeerId} {x : FutureId}
    (h : l.Undisturbed [] [x] (qs.filterMap Queued.result?))
    (hopen : l.client.initialized = true) (hf : l.Facing p n (1 + Queued.total qs)
      (hello params :: thanks :: (Queued.numbered 2 qs).filter isCall)) (hlink : l.Linked n p)
    (hs : ∀ f, Stays [] f l l') (hsaid : Says n p [q.message (l.lastId p + 1)] q.numbers l l')
    (hq : ∀ f, q.result? = some f → l.loop.futures.size ≤ f ∧ f < l'.loop.futures.size) :
    l'.Phase n (qs ++ [q]) a [] := by
  have hstill := hs 0 h.fit
  have hfutures : (qs ++ [q]).filterMap Queued.result? =
      qs.filterMap Queued.result? ++ q.result?.toList := by
    cases hr : q.result? <;> simp [hr]
  have hfacing : l'.Facing p n (1 + Queued.total (qs ++ [q]))
      (hello params :: thanks :: (Queued.numbered 2 (qs ++ [q])).filter isCall) := by
    refine ⟨hstill.client ▸ hf.peer, ?_, ?_⟩
    · rw [hsaid.lastId, hf.lastId, Queued.total_append, Nat.add_assoc]
      simp [Queued.total]
    · rw [hsaid.calls, hf.calls, hf.lastId, Queued.numbered_append, List.filter_append]
      rw [Nat.add_comm (1 + Queued.total qs) 1, ← Nat.add_assoc]
      rfl
  refine .welcomed (x := x) ?_ (hstill.client ▸ hopen) hfacing (hlink.mono hstill.wiring)
  rw [hfutures]
  refine (h.mono fun f _ => hs f).give fun f hf => ?_
  obtain ⟨hle, hlt⟩ := hq f (Option.mem_toList.1 hf)
  exact ⟨hlt, fun hX => Nat.not_le.2 (h.lasting f hX).1 hle, List.forall_mem_nil _⟩

/-! ### Calls -/

/-- The calls that were made once one more was tried. -/
def calledAlso {α : Type} (qs : List Queued) (y : Except Failure α) (call : α → Queued) :
    List Queued :=
  match y with
  | .ok r => qs ++ [call r]
  | .error _ => qs

/-- **A notification** is one more call, or is refused by a client without an end. -/
theorem notifyServer_phase (h : l.Phase n qs a A) (hp : Writable params) :
    Ends (notifyServer method params) l fun y l' => (l.client.peer ≠ none → ∃ r, y = .ok r) ∧
      l'.Phase n (calledAlso qs y fun _ => .notification method params) a A := by
  by_cases hpeer : l.client.peer = none
  · refine (notifyServer_none hpeer).mono fun y l' h' => ?_
    obtain ⟨rfl, rfl⟩ := h'
    exact ⟨fun hne => absurd hpeer hne, h⟩
  unfold notifyServer
  refine .read ?_
  cases hopen : l.client.initialized with
  | false =>
    rw [if_neg (by simp [sendsNow, hopen, hpeer])]
    exact .change ⟨fun _ => ⟨_, rfl⟩, h.kept (fresh_notification method params l) hp hopen hpeer⟩
  | true =>
    rw [if_pos (by simp [sendsNow, hopen])]
    obtain ⟨rfl, p, x, params', hd, hf, hlink⟩ := h.welcome hopen
    refine .bind (clientPeer_ends.mono fun y l₁ hy => ?_)
    obtain ⟨rfl, hy⟩ := hy
    cases y with
    | error e => cases hf.peer.symm.trans hy
    | ok p' =>
      cases hf.peer.symm.trans hy
      have hstays : Ends (notify p method params) l₁ fun _ l' => ∀ f, Stays [] f l₁ l' :=
        fun j f => (stays_write (notification method params)).keeps ⟨j, l₁⟩
      refine (hstays.and (says_write hlink (hasFrame_notification hp))).mono fun y l' h' => ?_
      obtain ⟨hs, rfl, hsaid⟩ := h'
      exact ⟨fun _ => ⟨_, rfl⟩,
        .said hd hopen hf hlink hs (q := .notification method params) hsaid fun _ h => by cases h⟩

/-- **A request** is one more call, or is refused by a client without an end. -/
theorem requestServer_phase (h : l.Phase n qs a A) (hp : Writable params) :
    Ends (requestServer method params target token) l fun y l' =>
      (l.client.peer ≠ none → ∃ f, y = .ok f) ∧
      l'.Phase n (calledAlso qs y (.request method params target token)) a A := by
  by_cases hpeer : l.client.peer = none
  · refine (requestServer_none hpeer).mono fun y l' h' => ?_
    obtain ⟨rfl, rfl⟩ := h'
    exact ⟨fun hne => absurd hpeer hne, h⟩
  unfold requestServer
  refine .read ?_
  cases hopen : l.client.initialized with
  | false =>
    rw [if_neg (by simp [sendsNow, hopen, hpeer])]
    refine .bind (newFuture_ends.mono fun y l₁ h₁ => ?_)
    obtain ⟨rfl, rfl⟩ := h₁
    refine .change_bind (.pure ⟨fun _ => ⟨_, rfl⟩, ?_⟩)
    exact h.kept (fresh_request method params target token l) hp hopen hpeer
  | true =>
    rw [if_pos (by simp [sendsNow, hopen])]
    obtain ⟨rfl, p, x, params', hd, hf, hlink⟩ := h.welcome hopen
    refine .bind (clientPeer_ends.mono fun y l₁ hy => ?_)
    obtain ⟨rfl, hy⟩ := hy
    cases y with
    | error e => cases hf.peer.symm.trans hy
    | ok p' =>
      cases hf.peer.symm.trans hy
      have hstays : Ends (sendRequest p method params target token) l₁ fun _ l' =>
          ∀ f, Stays [] f l₁ l' := fun j f => stays_sendRequest.keeps ⟨j, l₁⟩
      refine ((hstays.and (says_sendRequest hlink hp hd.fit)).and
        (sendRequest_issues (size_of_outlet hlink.1))).mono fun y l' h' => ?_
      obtain ⟨⟨hs, rfl, hsaid⟩, hissued⟩ := h'
      refine ⟨fun _ => ⟨_, rfl⟩, .said hd hopen hf hlink hs
        (q := .request method params target token l₁.loop.futures.size) hsaid fun f hf => ?_⟩
      cases hf
      exact ⟨Nat.le_refl _, hissued.made⟩

/-- The calls once one of them was given up, if that was in time. -/
def callsWithout (qs : List Queued) (f : FutureId) (l : Link) : List Queued :=
  if l.client.initialized then qs else qs.filter (·.result? ≠ some f)

/-- **A request that is given up** in time is no call any more. -/
theorem drop_phase (h : l.Phase n qs a A) (hf : f ∈ qs.filterMap Queued.result?) :
    Ends (settleOpen f .cancelled) l fun _ l' => l'.Phase n (l.callsWithout qs f) a A := by
  obtain ⟨X, F, hd, hF⟩ := h.undisturbed
  have htacit : Ends (settleOpen f .cancelled) l fun _ l' => ∀ g, g ≠ f → Tacit A g l l' :=
    fun j g hg => (tacit_settleOpen hg .cancelled).keeps ⟨j, l⟩
  refine (htacit.and (settleOpen_closes (hd.given f (hF f hf)).1 .cancelled)).mono fun y l' h' => ?_
  obtain ⟨hs, -, lo, hlo, hdone, -⟩ := h'
  have hdone : l'.loop.done f = true := hlo ▸ hdone
  have hother (q : Queued) (hq : l.Apart q) (hqf : q.result? ≠ some f) :
      l'.Apart q ∧ l'.Wanted q = l.Wanted q :=
    hq.mono fun g hg => (hs g (fun heq => hqf (heq ▸ hg)) hd.fit).1
  refine h.carry (fun g hg => hs g fun heq => hg (heq ▸ hf)) (fun hw => ?_) (fun q hq => ?_)
    fun hopen => if_pos hopen
  · have hsame : l'.client = l.client := by rw [hlo]
    have hgiven : l.callsWithout qs f = qs.filter (·.result? ≠ some f) :=
      if_neg (by rw [hw.closed]; exact Bool.false_ne_true)
    refine ⟨hsame ▸ hw.closed, ?_, hsame ▸ hw.writes, fun q hq => ?_, ?_⟩
    · rw [hsame, hgiven, ← hw.wanted, List.filter_filter]
      refine List.filter_congr fun q hq => ?_
      by_cases hqf : q.result? = some f
      · simp [Wanted, hqf, hdone]
      · rw [(hother q (hw.apart q hq) hqf).2]
        simp [hqf]
    · rw [hsame] at hq
      by_cases hqf : q.result? = some f
      · intro g hg
        cases hqf.symm.trans hg
        refine ⟨?_, .inl hdone⟩
        have hgrows := (hs _ (Nat.succ_ne_self f) hd.fit).1.loop.futures
        exact Nat.lt_of_lt_of_le (hw.apart q hq f hqf).1 hgrows
      · exact (hother q (hw.apart q hq) hqf).1
    · rw [Link.promised, hsame]
      exact hw.nodup
  · unfold callsWithout at hq
    split at hq
    · exact hq
    · exact (List.mem_filter.1 hq).1

end Link

end EditorBridge
