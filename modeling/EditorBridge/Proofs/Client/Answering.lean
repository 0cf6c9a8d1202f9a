/-
Requests, responses and lost connections serve those who wait.

A request that is sent waits in the table of its end, so its future is owed an ending.  A
response takes it out of the table and ends it, unless it tells of an error in a way that
nobody understands; that is why the messages that come in are asked to be `TellsError`.  A
connection that is lost, and a process that ends, end everything in the table.
-/
import EditorBridge.Proofs.Client.Serving
import EditorBridge.Proofs.Rpc.Intake

namespace EditorBridge

open Json (Writable)

namespace Link

open Act (Ends Keeps Reads)

variable {l l' l'' : Link} {p q : PeerId} {held : List Queued} {lost : List PendingRequest}
  {r : PendingRequest}

/-! ### One end -/

theorem peer_touched_ne (f : Peer → Peer) (h : q ≠ p) (l : Link) :
    (touched p f l).peers.getD q default = l.peers.getD q default := by
  simp [touched, Array.getElem?_modify, Ne.symm h]

theorem size_of_outlet {o : Outlet} (h : l.outlet p = some o) : p < l.peers.size := by
  refine Nat.lt_of_not_le fun hle => ?_
  rw [outlet, Array.getD_eq_getD_getElem?, Array.getElem?_eq_none hle] at h
  cases h

theorem size_of_pending (h : r ∈ l.pending p) : p < l.peers.size := by
  refine Nat.lt_of_not_le fun hle => ?_
  rw [pending, Array.getD_eq_getD_getElem?, Array.getElem?_eq_none hle] at h
  cases h

/-- What is known of the table of the end that changed is enough. -/
theorem tables_touched {f : Peer → Peer} (h : l.Orderly)
    (hs : l.loop.futures.size ≤ l'.loop.futures.size) (hpeers : l'.peers = (touched p f l).peers)
    (hp : l'.Table p) : ∀ q, l'.Table q := by
  intro q
  by_cases hq : q = p
  · exact hq ▸ hp
  · have heq : l'.peers.getD q default = l.peers.getD q default := by
      rw [hpeers, peer_touched_ne f hq]
    exact (h.tables q).mono (Nat.le_of_eq (by rw [lastId, lastId, heq]))
      (by rw [pending, pending, heq]) (by rw [outlet, outlet, heq]) hs

theorem serves_buffer (p : PeerId) (bs : Rpc.Bytes) (l : Link) :
    Serves l (touched p (fun e => { e with buffer := bs }) l) :=
  serves_touched rfl (Nat.le_refl _) rfl rfl

instance serves_onPeer_buffer (bs : Rpc.Bytes) :
    Keeps Serves (onPeer p fun e => { e with buffer := bs }) :=
  Keeps.change (serves_buffer p bs)

/-! ### Requests -/

theorem serves_numbering (p : PeerId) (l : Link) : Serves l (l.numbering p) := by
  refine trans_of Serves (serves_loop l.loop.evolves_create) ?_
  have hlast : (l.peers.getD p default).lastId ≤ l.lastId p + 1 := Nat.le_succ _
  exact serves_touched (f := fun e => { e with lastId := l.lastId p + 1 }) rfl hlast rfl rfl

/-- A request may be written into the table of an end that is connected. -/
theorem serves_enlist {o : Outlet} (ho : l.outlet p = some o) (hid : r.id ≤ l.lastId p)
    (hnew : ∀ r' ∈ l.pending p, r'.id < r.id) (hr : r.future < l.loop.futures.size) :
    Serves l (touched p (fun e => { e with pending := e.pending ++ [r] }) l) := by
  have hp := size_of_outlet ho
  have hpending := pending_touched (l := l) (fun e => { e with pending := e.pending ++ [r] }) hp
  have houtlet (q : PeerId) : (touched p (fun e => { e with pending := e.pending ++ [r] }) l).outlet q =
      l.outlet q := getD_modify Peer.outlet rfl q
  refine fun h => ⟨h.of_same (.refl _) rfl ?_ (.of_eq (size_touched _) rfl) (fun n hn => ?_) rfl rfl, ?_⟩
  · refine tables_touched h (Nat.le_refl _) rfl ⟨?_, ?_, ?_, fun hnone => ?_⟩
    · rw [hpending]
      exact List.pairwise_append.2 ⟨(h.tables p).ids, List.pairwise_singleton _ _,
        fun r' hr' r'' hr'' => List.mem_singleton.1 hr'' ▸ hnew r' hr'⟩
    · rw [hpending, lastId_touched _ hp]
      exact List.forall_mem_append.2 ⟨(h.tables p).bounded, List.forall_mem_singleton.2 hid⟩
    · rw [hpending]
      exact List.forall_mem_append.2 ⟨(h.tables p).made, List.forall_mem_singleton.2 hr⟩
    · cases (houtlet p).symm.trans hnone ▸ ho
  · exact ⟨(houtlet _).trans (h.told n hn).1, (h.told n hn).2⟩
  · refine bides_of_same (.refl _) rfl (fun q r' hr' => .inl ?_) (fun q => .inl (houtlet q))
      (.of_eq (size_touched _) rfl) rfl rfl
    by_cases hq : q = p
    · subst hq
      rw [hpending]
      exact List.mem_append_left _ hr'
    · rw [pending, peer_touched_ne _ hq]
      exact hr'

/-- **A request that is written** waits: it has the next number, and a new future. -/
theorem serves_issued {o : Outlet} (hs : Serves l l') (ho : l'.outlet p = some o)
    (hp : l'.pending p = l.pending p) (hlast : l'.lastId p = l.lastId p + 1)
    (hid : r.id = l.lastId p + 1) (hr : r.future < l'.loop.futures.size) :
    Serves l (touched p (fun e => { e with pending := e.pending ++ [r] }) l') := by
  refine fun h => trans_of Serves hs (serves_enlist ho (by omega) (fun r' hr' => ?_) hr) h
  have := (h.tables p).bounded r' (hp ▸ hr')
  omega

section Sending

variable {method : String} {params : Value} {target : Wire.Target} {token : Option TokenId}

/-- **A request that is sent** is owed an ending; one that is refused lacks a connection or cannot
be written, and ends nothing. -/
theorem sendRequest_serves (p : PeerId) (l : Link) :
    Ends (sendRequest p method params target token) l fun x l' => Serves l l' ∧ match x with
      | .ok f => l.Orderly → l'.Owed f
      | .error f => (f = .notConnected ∨ ¬Writable params) ∧ l.loop.Rests l'.loop := by
  unfold sendRequest
  refine .bind (newFuture_ends.mono fun x l₁ h₁ => ?_)
  obtain ⟨rfl, rfl⟩ := h₁
  refine .read (.change_bind ?_)
  refine .bind ((serves_write (request (l.lastId p + 1) method params)).knowing
    ((write_ends p _ (l.numbering p)).mono fun x l₂ h₂ hs => ?_))
  have hs := trans_of Serves (serves_numbering p l) hs
  cases h₂ with
  | unconnected => exact ⟨hs, .inl rfl, Loop.rests_create l.loop⟩
  | @unwritable e he =>
    refine ⟨hs, .inr fun hw => ?_, Loop.rests_create l.loop⟩
    exact (hasFrame_request (l.lastId p + 1) hw).render_ne e he
  | @frame o f lo ho _ _ hlo =>
    have hp : p < l.peers.size := size_touched (l := { l with loop := l.loop.create.2 }) _ ▸ size_of_outlet ho.1
    have hp' : p < (l.numbering p).peers.size := size_of_outlet ho.1
    let r : PendingRequest := ⟨l.lastId p + 1, method, l.loop.futures.size, target⟩
    have hs' : Serves l (l.issuing p r f lo) := by
      refine serves_issued hs ho.1 (pending_numbering hp) (numbered_numbering hp).lastId rfl ?_
      show l.loop.futures.size < lo.futures.size
      simp [hlo, numbering, touched, Loop.create]
    have howed : (l.issuing p r f lo).Owed r.future := by
      have hpending : (l.issuing p r f lo).pending p = (l.numbering p).pending p ++ [r] :=
        pending_touched (fun e => { e with pending := e.pending ++ [r] }) hp'
      exact .inr ⟨p, r, hpending ▸ List.mem_append_right _ (List.mem_singleton_self r), rfl⟩
    refine .change_bind ?_
    cases token with
    | none => exact .pure ⟨hs', fun _ => howed⟩
    | some t =>
      refine .bind (((watchUntil_ok l.loop.futures.size t (l.lastId p + 1)).and
        ((serves_watchUntil l.loop.futures.size t _).ends _)).mono fun x l₃ h₃ => ?_)
      obtain ⟨rfl, h₃⟩ := h₃
      exact .pure ⟨trans_of Serves hs' h₃, fun h => (h₃ (hs' h).1).2.owed howed⟩

instance serves_sendRequest : Keeps Serves (sendRequest p method params target token) :=
  .of_ends fun l => (sendRequest_serves p l).mono fun _ _ h => h.1

end Sending

/-! ### Responses -/

/-- A request ends with its response, whatever it is. -/
theorem conclude_evolves {message : Value} (h : TellsError message) (l : Link) :
    Ends (conclude p message r) l fun _ l' => ∃ lo, l.loop.Evolves lo ∧
      (r.future < l.loop.futures.size → lo.done r.future = true) ∧ l' = { l with loop := lo } := by
  obtain ⟨e, he⟩ := exists_endingOf h r.target
  have hsettle := settle_evolves r.future e l
  unfold conclude
  refine .read ?_
  split
  · rename_i hdone
    exact .read (.log ⟨l.loop, .refl _, fun _ => hdone, rfl⟩)
  · rw [he]
    refine .bind (.pure ?_)
    dsimp only
    split
    · exact .read (.bind (.logFailure hsettle))
    · exact hsettle

/-- A request that has ended may be taken from the table. -/
theorem serves_without {lo : Loop Reply Callback Job} (hr : r ∈ l.pending p)
    (hlo : l.loop.Evolves lo) (hd : r.future < l.loop.futures.size → lo.done r.future = true) :
    Serves l { touched p (without r) l with loop := lo } := by
  have hp := size_of_pending hr
  have hpending : (touched p (without r) l).pending p =
      (l.pending p).filter fun r' => (r'.id : Int) ≠ r.id := Goes.pending_without hp
  have houtlet (q : PeerId) : (touched p (without r) l).outlet q = l.outlet q :=
    getD_modify Peer.outlet rfl q
  intro h
  have hsub : ∀ r' ∈ (touched p (without r) l).pending p, r' ∈ l.pending p := fun r' hr' =>
    (List.mem_filter.1 (hpending ▸ hr')).1
  refine ⟨h.of_same hlo rfl ?_ (.of_eq (size_touched _) rfl) (fun n hn => ?_) rfl rfl, ?_⟩
  · refine tables_touched h hlo.futures rfl ⟨?_, fun r' hr' => ?_, fun r' hr' => ?_, fun hnone => ?_⟩
    · show (touched p (without r) l).pending p |>.Pairwise _
      rw [hpending]
      exact (h.tables p).ids.filter _
    · show r'.id ≤ (touched p (without r) l).lastId p
      rw [lastId_touched _ hp]
      exact (h.tables p).bounded r' (hsub r' hr')
    · exact Nat.lt_of_lt_of_le ((h.tables p).made r' (hsub r' hr')) hlo.futures
    · have := (h.tables p).closed ((houtlet p).symm.trans hnone)
      rw [this] at hr
      cases hr
  · exact ⟨(houtlet _).trans (h.told n hn).1, hlo.done _ (h.told n hn).2⟩
  · refine bides_of_same hlo rfl (fun q r' hr' => ?_) (fun q => .inl (houtlet q))
      (.of_eq (size_touched _) rfl) rfl rfl
    by_cases hq : q = p
    · subst hq
      by_cases hid : (r'.id : Int) = r.id
      · have heq : r' = r := eq_of_growing (h.tables q).ids hr' hr (Int.ofNat.inj hid)
        exact .inr (.inr (heq ▸ hd ((h.tables q).made r hr)))
      · refine .inl ?_
        show r' ∈ (touched q (without r) l).pending q
        rw [hpending]
        exact List.mem_filter.2 ⟨hr', by simpa using hid⟩
    · refine .inl ?_
      show r' ∈ (touched p (without r) l).pending q
      rwa [pending, peer_touched_ne _ hq]

theorem mem_of_answered? {message : Value} {e : Peer} (h : answered? message e = some r) :
    r ∈ e.pending := by
  obtain ⟨n, -, hn⟩ := Option.bind_eq_some_iff.1 h
  exact List.mem_of_find?_eq_some hn

/-- **A response** serves its request, if it can be understood. -/
theorem serves_receiveResponse {message : Value} (h : TellsError message) :
    Keeps Serves (receiveResponse p message) := by
  rw [receiveResponse_eq]
  refine .of_ends fun l => .read ?_
  split
  · exact .read (.logBuilt (refl_of Serves l) fun f hf => by cases hf)
  · rename_i r hr
    refine .change_bind ((conclude_evolves h _).mono fun x l' hc => ?_)
    obtain ⟨lo, hlo, hd, rfl⟩ := hc
    exact serves_without (mem_of_answered? hr) hlo hd

/-! ### Calls -/

instance serves_perform (r : Reaction) (params : Wire) : Keeps Serves (perform p r params) := by
  unfold perform
  split
  · rename_i cancels _
    cases cancels <;> infer_instance
  all_goals infer_instance

instance serves_handle (h : Handler) (params : Value) : Keeps Serves (handle p h params) := by
  unfold handle
  infer_instance

instance serves_unhandled (method : Value) (id : Option Value) :
    Keeps Serves (unhandled p method id) := by
  unfold unhandled
  split <;> infer_instance

instance serves_receiveCall (method message : Value) :
    Keeps Serves (receiveCall p method message) := by
  unfold receiveCall
  refine .andThen fun e => .andThen fun h => ?_
  generalize message.get? "id" = id
  split
  · infer_instance
  · refine .andThen fun r => ?_
    cases id with
    | none => split <;> dsimp only <;> infer_instance
    | some id => split <;> dsimp only <;> infer_instance

/-! ### What comes in -/

theorem serves_receiveMessage {message : Value} (h : TellsError message) :
    Keeps Serves (receiveMessage p message) := by
  unfold receiveMessage
  have := serves_receiveResponse (p := p) h
  cases message.get? "method" <;> infer_instance

/-- Everybody is served by a batch if all of it can be understood. -/
theorem serves_receiveAll {ms : List Value} (h : ∀ m ∈ ms, TellsError m) :
    Keeps Serves (ForIn.forIn ms PUnit.unit fun m (_ : PUnit) => do
      receiveMessage p m
      return ForInStep.yield PUnit.unit) := by
  induction ms with
  | nil => exact Keeps.pure _
  | cons m ms ih =>
    obtain ⟨hm, hms⟩ := List.forall_mem_cons.1 h
    have := serves_receiveMessage (p := p) hm
    rw [List.forIn_cons]
    refine .andThen fun r => ?_
    cases r with
    | done => exact Keeps.pure _
    | yield => exact ih hms

theorem serves_receiveBody {body : Rpc.Bytes} {charset : String}
    (h : ∀ m ∈ (Rpc.Decision.taken body charset).items l.machine, TellsError m) :
    Ends (receiveBody p body charset) l fun _ => Serves l := by
  refine .bind (.outcome ((readBody_ends body charset l).mono fun x l' hx => ?_))
  obtain ⟨rfl, rfl⟩ := hx
  dsimp only [Rpc.Decision.items] at h ⊢
  cases hv : bodyValue l'.machine body charset with
  | error f =>
    split
    · cases ‹Except.error f = .ok _›
    · cases ‹Except.error f = .ok _›
    · exact .throw (refl_of Serves l')
    · exact (Keeps.andThen fun _ => inferInstance : Keeps Serves (peer p >>= _)).ends l'
  | ok v =>
    rw [hv] at h
    cases v with
    | list ms =>
      have : Keeps Serves (ForIn.forIn ms PUnit.unit fun m (_ : PUnit) => do
          receiveMessage p m
          return ForInStep.yield PUnit.unit) := serves_receiveAll h
      exact (Keeps.bind _ _).ends l'
    | _ => exact (serves_receiveMessage (h _ (List.mem_singleton_self _))).ends l'

/-- Messages are taken off a buffer, one after the other. -/
theorem serves_drain {bs : Rpc.Bytes}
    (h : ∀ m ∈ (Rpc.scan bs).1.flatMap (Rpc.Decision.items l.machine), TellsError m) :
    Ends (drain p bs) l fun _ => Serves l := by
  fun_induction drain p bs generalizing l with
  | case1 => exact .pure (refl_of Serves l)
  | case2 => exact .throw (refl_of Serves l)
  | case3 bs headers rest hfront ih =>
    rw [Rpc.scan_of_unmarked hfront] at h
    refine .read (.bind (.logBuilt ?_ nofun))
    have hrest := ih (l := touched p (fun e => { e with buffer := rest }) l) h
    exact .change_bind (hrest.mono fun _ _ => trans_of Serves (serves_buffer p rest l))
  | case4 bs body charset rest hfront ih =>
    rw [Rpc.scan_of_message hfront, List.flatMap_cons] at h
    obtain ⟨hbody, hrest⟩ := List.forall_mem_append.1 h
    refine .change_bind (.bind ?_)
    refine ((serves_receiveBody (l := touched p (fun e => { e with buffer := rest }) l) hbody).and
      ((quiet_receiveBody (p := p) body charset).ends _)).mono fun x l₁ h₁ => ?_
    obtain ⟨hs, hq⟩ := h₁
    have hs := trans_of Serves (serves_buffer p rest l) hs
    have hmachine : l₁.machine = l.machine := congrArg Wiring.machine hq.wiring
    cases x with
    | error f => exact hs
    | ok _ => exact (ih (hmachine ▸ hrest)).mono fun _ _ => trans_of Serves hs

/-- What is in the buffer of an end once bytes have come in can be understood. -/
def Understood (l : Link) (p : PeerId) (bytes : Rpc.Bytes) : Prop :=
  ∀ m ∈ (Rpc.scan (l.buffer p ++ bytes)).1.flatMap (Rpc.Decision.items l.machine), TellsError m

/-- **Whatever comes in** serves those who wait. -/
theorem receive_serves {bytes : Rpc.Bytes} (h : l.Understood p bytes) :
    Ends (receive p bytes) l fun _ => Serves l := by
  refine .read (.change_bind ?_)
  exact (serves_drain (l := touched p (fun e => { e with buffer := l.buffer p ++ bytes }) l) h).mono
    fun _ _ => trans_of Serves (serves_buffer p _ l)

/-! ### Losing the connection -/

/-- One future after the other is ended. -/
theorem settleAll_evolves (rs : List PendingRequest) (e : Ending Reply) (l : Link) :
    Ends (ForIn.forIn rs PUnit.unit fun r (_ : PUnit) => do
      let _ ← settleOpen r.future e
      return ForInStep.yield PUnit.unit) l fun x l' => (∃ b, x = .ok b) ∧
        ∃ lo, l.loop.Evolves lo ∧
          (∀ r ∈ rs, r.future < l.loop.futures.size → lo.done r.future = true) ∧
          l' = { l with loop := lo } := by
  induction rs generalizing l with
  | nil => exact .pure ⟨⟨_, rfl⟩, l.loop, .refl _, nofun, rfl⟩
  | cons r rs ih =>
    rw [List.forIn_cons]
    refine .bind (.bind ((settleOpen_evolves r.future e l).mono fun x l' h => ?_))
    obtain ⟨⟨b, rfl⟩, lo, hlo, hd, rfl⟩ := h
    refine .pure ((ih _).mono fun x l'' h' => ?_)
    obtain ⟨hx, lo', hlo', hd', rfl⟩ := h'
    refine ⟨hx, lo', hlo.trans hlo', List.forall_mem_cons.2 ⟨fun hr => hlo'.done _ (hd hr), ?_⟩, rfl⟩
    exact fun r' hr' hlt => hd' r' hr' (Nat.lt_of_lt_of_le hlt hlo.futures)

theorem connectionLost_evolves (reason : Option String) (l : Link) :
    Ends (connectionLost p reason) l fun x l' => x = .ok () ∧ ∃ lo, l.loop.Evolves lo ∧
      (∀ r ∈ l.pending p, r.future < l.loop.futures.size → lo.done r.future = true) ∧
      l' = { touched p cutOff l with loop := lo } := by
  unfold connectionLost
  refine .read (.change_bind ?_)
  refine .bind ((settleAll_evolves _ _ _).mono fun x l' h => ?_)
  obtain ⟨⟨b, rfl⟩, lo, hlo, hd, rfl⟩ := h
  exact .pure ⟨rfl, lo, hlo, hd, rfl⟩

/-- An end that has lost its connection has no requests that wait. -/
theorem pending_cut (p : PeerId) (l : Link) : (touched p cutOff l).pending p = [] := by
  by_cases hp : p < l.peers.size
  · exact pending_touched cutOff hp
  · simp [pending, touched, hp]
    rfl

theorem outlet_cut (p q : PeerId) (l : Link) :
    (touched p cutOff l).outlet q = if q = p then none else l.outlet q := by
  split
  · rename_i hq
    subst hq
    by_cases hp : q < l.peers.size
    · exact congrArg Peer.outlet (peer_touched cutOff hp)
    · simp [outlet, touched, hp]
      rfl
  · rename_i hq
    rw [outlet, peer_touched_ne _ hq, outlet]

theorem sameParts_modify {n : ProcessId} {f : Process → Process} (hp : ∀ p, (f p).peer = p.peer)
    (hx : ∀ p, (f p).exited = p.exited) :
    l.SameParts { l with processes := l.processes.modify n f } where
  peers := rfl
  size := Array.size_modify ..
  same m := ⟨getD_modify (f := f) Process.peer (hp _) m, getD_modify (f := f) Process.exited (hx _) m⟩

/-- **A connection is lost** along with a process, and everybody who waits is told. -/
theorem serves_cutOff {lo : Loop Reply Callback Job} (hlo : l.loop.Evolves lo)
    (hd : ∀ r ∈ l.pending p, r.future < l.loop.futures.size → lo.done r.future = true)
    (hl : l'.loop = lo) (ht : l'.tasks = l.tasks) (hpeers : l'.peers = (touched p cutOff l).peers)
    (hpr : l.SameParts l') (hc : l'.client = l.client)
    (hrest : (l'.scripts, l'.stops) = (l.scripts, l.stops))
    (hended : l.Orderly → ∀ n, l'.Dead n → l.Dead n ∨ l.owner n = p ∧ lo.done (l.exit n) = true) :
    Serves l l' := by
  obtain ⟨hscripts, hstops⟩ := Prod.mk.inj hrest
  subst hl
  have hpending (q : PeerId) : l'.pending q = (touched p cutOff l).pending q := by
    rw [pending, hpeers, pending]
  have houtlet (q : PeerId) : l'.outlet q = if q = p then none else l.outlet q := by
    rw [outlet, hpeers, ← outlet_cut, outlet]
  intro h
  refine ⟨h.of_same hlo ht ?_ hpr (fun n hn => ?_) (by rw [hc]) hscripts, ?_⟩
  · have hnone : l'.pending p = [] := (hpending p).trans (pending_cut p l)
    refine tables_touched h hlo.futures hpeers ⟨?_, ?_, ?_, fun _ => hnone⟩ <;> rw [hnone]
    · exact .nil
    · exact fun r hr => absurd hr List.not_mem_nil
    · exact fun r hr => absurd hr List.not_mem_nil
  · rw [(hpr.same n).1, (hpr.same n).2, houtlet]
    rcases hended h n hn with hn | ⟨hp, hdone⟩
    · exact ⟨by rw [(h.told n hn).1, ite_self], hlo.done _ (h.told n hn).2⟩
    · exact ⟨if_pos hp, hdone⟩
  · refine bides_of_same hlo ht (fun q r hr => ?_) (fun q => ?_) hpr (by rw [hc])
      hstops
    · by_cases hq : q = p
      · subst hq
        exact .inr (.inr (hd r hr ((h.tables q).made r hr)))
      · refine .inl ?_
        rwa [hpending, pending, peer_touched_ne _ hq]
    · rw [houtlet]
      split
      · exact .inr rfl
      · exact .inl rfl

/-! ### Processes -/

theorem serves_onProcess {n : ProcessId} {f : Process → Process} (hp : ∀ p, (f p).peer = p.peer)
    (hx : ∀ p, (f p).exited = p.exited) (hcode : ∀ p, (f p).code = p.code) :
    Keeps Serves (onProcess n f) := by
  refine Keeps.change fun l h => ?_
  have hpr := sameParts_modify (l := l) (n := n) hp hx
  have hended (m : ProcessId) : Dead { l with processes := l.processes.modify n f } m ↔ l.Dead m := by
    have := getD_modify (a := l.processes) (i := n) (f := f) Process.code (hcode _) m
    rw [Dead, Dead, this]
  refine ⟨h.of_same (.refl _) rfl (fun p => ?_) hpr (fun m hm => ?_) rfl rfl, ?_⟩
  · exact (h.tables p).mono (Nat.le_refl _) rfl rfl (Nat.le_refl _)
  · rw [(hpr.same m).1, (hpr.same m).2]
    exact h.told m ((hended m).1 hm)
  · exact bides_of_same (.refl _) rfl (fun _ _ => .inl) (fun _ => .inl rfl) hpr rfl rfl

instance serves_onProcess_stderr (n : ProcessId) (bs : Rpc.Bytes) :
    Keeps Serves (onProcess n fun p => { p with stderr := bs }) :=
  serves_onProcess (fun _ => rfl) (fun _ => rfl) fun _ => rfl

instance serves_receiveStderr (n : ProcessId) (bytes : Rpc.Bytes) :
    Keeps Serves (receiveStderr n bytes) := by
  unfold receiveStderr
  infer_instance

/-- Bytes of the error stream mean nothing, those of the output have to be understood. -/
theorem receiveOutput_serves {n : ProcessId} {output : Int} {bytes : Rpc.Bytes}
    (h : output = 1 → l.Understood (l.owner n) bytes) :
    Ends (receiveOutput n output bytes) l fun _ => Serves l := by
  unfold receiveOutput
  split
  · rename_i hout
    exact .read (receive_serves (h hout))
  · exact (Keeps.ite _ _ _ : Keeps Serves _).ends l

/-- **The end of a process** is told to those who wait for a response and to those who wait for the
process, once it is noted. -/
theorem serves_exited {n : ProcessId} {e : Ending Reply} {ps : Array Process}
    (hpr : l.SameParts { l with processes := ps })
    (hended : ∀ m, Dead { l with processes := ps } m → l.Dead m ∨ m = n ∧ n < l.processes.size) :
    Ends (do
      connectionLost (l.owner n) none
      let _ ← settleOpen (l.exit n) e) { l with processes := ps } fun _ => Serves l := by
  refine .bind ((connectionLost_evolves none _).mono fun x l₁ h₁ => ?_)
  obtain ⟨rfl, lo, hlo, hd, rfl⟩ := h₁
  refine .ignore ((settleOpen_evolves (l.exit n) e _).mono fun x l₂ h₂ => ?_)
  obtain ⟨-, lo', hlo', hd', rfl⟩ := h₂
  refine serves_cutOff (hlo.trans hlo') (fun r hr hlt => hlo'.done _ (hd r hr hlt)) rfl rfl rfl
    ⟨size_touched _, hpr.size, hpr.same⟩ rfl rfl fun ho m hm => ?_
  refine (hended m hm).imp id ?_
  rintro ⟨rfl, hm⟩
  exact ⟨rfl, hd' (Nat.lt_of_lt_of_le (ho.exits m hm) hlo.futures)⟩

theorem dead_modify {n m : ProcessId} {f : Process → Process}
    (h : Dead { l with processes := l.processes.modify n f } m) :
    l.Dead m ∨ m = n ∧ n < l.processes.size := by
  by_cases hmn : m = n
  · subst hmn
    by_cases hlt : m < l.processes.size
    · exact .inr ⟨rfl, hlt⟩
    · simp [Dead, hlt] at h
      exact absurd h (by decide)
  · simp [Dead, Array.getElem?_modify, Ne.symm hmn] at h
    exact .inl (by simpa [Dead] using h)

instance serves_die (n : ProcessId) (code : Int) : Keeps Serves (die n code) := by
  refine .of_ends fun l => .read ?_
  split
  · refine .change_bind (.read ?_)
    dsimp only
    have hcode := sameParts_modify (l := l) (n := n) (f := fun p => { p with code := some code })
      (fun _ => rfl) fun _ => rfl
    obtain ⟨hpeer, hexited⟩ := hcode.same n
    unfold owner at hpeer
    unfold exit at hexited
    dsimp only at hpeer hexited
    rw [hpeer, hexited]
    split
    · -- What the process wrote last is logged first.
      have hrest := sameParts_modify (n := n) (f := fun p => { p with stderr := [] })
        (l := { l with processes := l.processes.modify n fun p => { p with code := some code } })
        (fun _ => rfl) fun _ => rfl
      refine .change_bind (.bind (.log (serves_exited (hcode.trans hrest) fun m hm => ?_)))
      rcases dead_modify (l := { l with
        processes := l.processes.modify n fun p => { p with code := some code } }) hm with hm | ⟨rfl, hm⟩
      · exact dead_modify hm
      · exact .inr ⟨rfl, hcode.size ▸ hm⟩
    · exact serves_exited hcode fun m hm => dead_modify hm
  · exact .pure (refl_of Serves l)

instance serves_order (n : ProcessId) (text : String) : Keeps Serves (order n text) :=
  serves_change (fun _ => rfl) (fun _ => rfl) (fun _ => rfl) (fun _ => rfl) (fun _ => rfl) fun _ => rfl

instance serves_terminate (n : ProcessId) : Keeps Serves (terminate n) := by
  unfold terminate
  infer_instance

end Link

end EditorBridge
