/-
What serves those who wait.

A future that somebody waits for is either ended, or will be: it belongs to a request that
waits for its response, to one that waits in the queue of the client, or it is passed on from
another one that will be ended.  Nothing that is done about a connection takes that away,
and `Bides` says so: between two states requests leave the queue or the table only if
their futures are provided for, and the tasks, the client and its processes are what they
were.  What it relies on is that the link is in order (`Orderly`): an end without a
connection waits for nothing, a process that has ended has told so, and whatever waits in
the queue can be sent.

`Serves` puts the two together, and it is a preorder, so it comes with the rules of
`Act.Keeps`.  This file shows it of whatever is done with futures, tokens and messages.
-/
import EditorBridge.Proofs.Client.Asking

namespace EditorBridge

open Json (Writable)

/-- The future of a message that waits, if it is a request. -/
def Queued.result? : Queued → Option FutureId
  | .notification .. => none
  | .request _ _ _ _ result => some result

/-- Whether it is something that a client has left to do once its server runs. -/
@[reducible] def Resumption.ofClient : Resumption → Bool
  | .traced .. | .inTime .. | .givenUp .. | .reply => true
  | .greet | .greeted _ | .await => true
  | .stop .. | .shutDown .. | .leaving .. | .left => true
  | _ => false

/-- Whatever of a client those who wait depend on. -/
def Client.standing (c : Client) := (c.peer, c.process, c.ready, c.exited, c.queued)

namespace Link

open Act (Ends Keeps Reads)

variable {l l' l'' : Link} {p : PeerId} {held : List Queued} {lost : List PendingRequest}

/-! ### Those who wait -/

/-- A future has ended, or an end waits for the response that ends it. -/
def Owed (l : Link) (f : FutureId) : Prop :=
  l.loop.done f = true ∨ ∃ p, ∃ r ∈ l.pending p, r.future = f

/-- A future is provided for: by a response of its own, or by that of a future it stands for. -/
def Provided (l : Link) (f : FutureId) : Prop :=
  l.Owed f ∨ ∃ g, l.loop.Asks g (.pass f) ∧ l.Owed g

/-- A message that waits can be sent later on. -/
def Keepable (l : Link) : Queued → Prop
  | .notification _ params => Writable params
  | .request _ params _ _ result => Writable params ∧ result < l.loop.futures.size

/-- The future that tells of the end of a process. -/
def exit (l : Link) (n : ProcessId) : FutureId := (l.processes.getD n default).exited

/-- A process has ended. -/
def Dead (l : Link) (n : ProcessId) : Prop := (l.processes.getD n default).code.isSome = true

/-- The same ends and processes are there, and processes differ in nothing but what they wrote and
whether they have ended. -/
structure SameParts (l l' : Link) : Prop where
  peers : l'.peers.size = l.peers.size
  size : l'.processes.size = l.processes.size
  same : ∀ n, l'.owner n = l.owner n ∧ l'.exit n = l.exit n

namespace SameParts

theorem of_eq (hp : l'.peers.size = l.peers.size) (h : l'.processes = l.processes) :
    l.SameParts l' where
  peers := hp
  size := by rw [h]
  same n := by rw [owner, owner, exit, exit, h]; exact ⟨rfl, rfl⟩

theorem refl (l : Link) : l.SameParts l := .of_eq rfl rfl

theorem trans (h : l.SameParts l') (h' : l'.SameParts l'') : l.SameParts l'' where
  peers := h'.peers.trans h.peers
  size := h'.size.trans h.size
  same n := ⟨(h'.same n).1.trans (h.same n).1, (h'.same n).2.trans (h.same n).2⟩

end SameParts

/-- The requests of an end that wait are told apart by their numbers and have futures, and without
a connection there are none. -/
structure Table (l : Link) (p : PeerId) : Prop where
  ids : (l.pending p).Pairwise (·.id < ·.id)
  bounded : ∀ r ∈ l.pending p, r.id ≤ l.lastId p
  made : ∀ r ∈ l.pending p, r.future < l.loop.futures.size
  closed : l.outlet p = none → l.pending p = []

/-- A link is in order. -/
structure Orderly (l : Link) : Prop where
  sane : l.loop.Sane
  scripts : l.scripts = []
  tables : ∀ p, l.Table p
  outcomes : ∀ t < l.tasks.size, (l.tasks.getD t default).outcome < l.loop.futures.size
  owners : ∀ n < l.processes.size, l.owner n < l.peers.size
  exits : ∀ n < l.processes.size, l.exit n < l.loop.futures.size
  /-- The end of a process was told. -/
  told : ∀ n, l.Dead n → l.outlet (l.owner n) = none ∧ l.loop.done (l.exit n) = true
  keepable : ∀ q ∈ l.client.queued, l.Keepable q

/-- Those who wait for a future or a response go on waiting, but for requests that are lost, and
activities keep what they have left to do. -/
structure Carries (lost : List PendingRequest) (l l' : Link) : Prop where
  loop : l.loop.Remembers l'.loop
  tasks : l.tasks.size ≤ l'.tasks.size
  kept : ∀ t < l.tasks.size, (l'.tasks.getD t default).rest = (l.tasks.getD t default).rest ∧
    (l'.tasks.getD t default).outcome = (l.tasks.getD t default).outcome
  begun : ∀ t, l.tasks.size ≤ t →
    Resumption.All Resumption.ofClient (l'.tasks.getD t default).rest
  pending : ∀ p, ∀ r ∈ l.pending p, r ∈ l'.pending p ∨ r ∈ lost ∨ l'.loop.done r.future = true

/-- **Nobody is left behind**: those who wait go on waiting or are provided for, but for messages
that are held back and requests that are lost. -/
structure Bides (held : List Queued) (lost : List PendingRequest) (l l' : Link) : Prop extends
    Carries lost l l' where
  gones : l'.loop.gones = l.loop.gones
  client : l'.client.peer = l.client.peer ∧ l'.client.process = l.client.process ∧
    l'.client.ready = l.client.ready ∧ l'.client.exited = l.client.exited
  queue : ∀ q ∈ l.client.queued, q ∈ l'.client.queued ∨ q ∈ held ∨ ∀ f ∈ q.result?, l'.Provided f
  /-- Without an end nothing is queued. -/
  shut : l.client.peer = none → l.client.queued = [] → l'.client.queued = []
  outlets : ∀ p, l'.outlet p = l.outlet p ∨ l'.outlet p = none
  parts : l.SameParts l'
  stops : l'.stops = l.stops

/-- There is nothing to do for a task that does not exist. -/
theorem getD_beyond {t : TaskId} (h : l.tasks.size ≤ t) : (l.tasks.getD t default).rest = [] := by
  simp only [Array.getD_eq_getD_getElem?, Array.getElem?_eq_none h]
  rfl

theorem Keepable.mono {q : Queued} (h : l.Keepable q)
    (hs : l.loop.futures.size ≤ l'.loop.futures.size) : l'.Keepable q := by
  cases q with
  | notification => exact h
  | request => exact ⟨h.1, Nat.lt_of_lt_of_le h.2 hs⟩

namespace Carries

theorem of_tasks (hlo : l.loop.Remembers l'.loop) (ht : l'.tasks = l.tasks)
    (hp : ∀ p, ∀ r ∈ l.pending p, r ∈ l'.pending p ∨ r ∈ lost ∨ l'.loop.done r.future = true) :
    Carries lost l l' where
  loop := hlo
  tasks := Nat.le_of_eq (by rw [ht])
  kept t _ := by rw [ht]; exact ⟨rfl, rfl⟩
  begun t htask := by
    rw [ht, getD_beyond htask]
    exact .nil
  pending := hp

theorem refl (l : Link) : Carries lost l l := .of_tasks (.refl _) rfl fun _ _ => .inl

theorem trans (h : Carries lost l l') (h' : Carries [] l' l'') : Carries lost l l'' where
  loop := h.loop.trans h'.loop
  tasks := Nat.le_trans h.tasks h'.tasks
  kept t ht := by
    obtain ⟨h₁, h₂⟩ := h.kept t ht
    obtain ⟨h₃, h₄⟩ := h'.kept t (Nat.lt_of_lt_of_le ht h.tasks)
    exact ⟨h₃.trans h₁, h₄.trans h₂⟩
  begun t ht := by
    by_cases hlt : t < l'.tasks.size
    · rw [(h'.kept t hlt).1]
      exact h.begun t ht
    · exact h'.begun t (Nat.le_of_not_lt hlt)
  pending p r hr := by
    rcases h.pending p r hr with hr | hr | hr
    · rcases h'.pending p r hr with hr | hr | hr
      · exact .inl hr
      · cases hr
      · exact .inr (.inr hr)
    · exact .inr (.inl hr)
    · exact .inr (.inr (h'.loop.done _ hr))

theorem owed (h : Carries [] l l') {f : FutureId} (hf : l.Owed f) : l'.Owed f := by
  rcases hf with hf | ⟨p, r, hr, rfl⟩
  · exact .inl (h.loop.done f hf)
  · rcases h.pending p r hr with hr | hr | hr
    · exact .inr ⟨p, r, hr, rfl⟩
    · cases hr
    · exact .inl hr

theorem provided (h : Carries [] l l') {f : FutureId} (hf : l.Provided f) : l'.Provided f := by
  rcases hf with hf | ⟨g, hg, ho⟩
  · exact .inl (h.owed hf)
  · exact .inr ⟨g, (h.loop.asks g _ hg).resolve_right id, h.owed ho⟩

end Carries

namespace Bides

theorem refl (l : Link) : Bides held lost l l where
  toCarries := .refl l
  gones := rfl
  client := ⟨rfl, rfl, rfl, rfl⟩
  queue _ := .inl
  shut _ := id
  outlets _ := .inl rfl
  parts := .refl l
  stops := rfl

theorem trans (h : Bides held lost l l') (h' : Bides [] [] l' l'') : Bides held lost l l'' where
  toCarries := h.toCarries.trans h'.toCarries
  gones := h'.gones.trans h.gones
  client := by
    obtain ⟨h₁, h₂, h₃, h₄⟩ := h.client
    obtain ⟨h₅, h₆, h₇, h₈⟩ := h'.client
    exact ⟨h₅.trans h₁, h₆.trans h₂, h₇.trans h₃, h₈.trans h₄⟩
  queue q hq := by
    rcases h.queue q hq with hq | hq | hq
    · rcases h'.queue q hq with hq | hq | hq
      · exact .inl hq
      · cases hq
      · exact .inr (.inr hq)
    · exact .inr (.inl hq)
    · exact .inr (.inr fun f hf => h'.provided (hq f hf))
  shut hp hq := h'.shut (h.client.1.trans hp) (h.shut hp hq)
  outlets p := by
    rcases h'.outlets p with hp | hp
    · exact (h.outlets p).imp hp.trans hp.trans
    · exact .inr hp
  parts := h.parts.trans h'.parts
  stops := h'.stops.trans h.stops

/-- Messages that were held back may be provided for. -/
theorem sent (h : Bides held lost l l') (hq : ∀ q ∈ held, ∀ f ∈ q.result?, l'.Provided f) :
    Bides [] lost l l' := by
  refine { h with queue := fun q hq' => ?_ }
  rcases h.queue q hq' with hq' | hq' | hq'
  · exact .inl hq'
  · exact .inr (.inr (hq q hq'))
  · exact .inr (.inr hq')

end Bides

/-- A link that is in order stays so, and nobody is left behind. -/
def Serves (l l' : Link) : Prop := l.Orderly → l'.Orderly ∧ Bides [] [] l l'

instance : IsPreorder Link Serves where
  refl l h := ⟨h, .refl l⟩
  trans _ _ _ h h' ho := ⟨(h' (h ho).1).1, (h ho).2.trans (h' (h ho).1).2⟩

/-! ### Changes -/

/-- Tables only depend on their ends, and on the number of futures. -/
theorem Table.mono (h : l.Table p) (hid : l.lastId p ≤ l'.lastId p)
    (hp : l'.pending p = l.pending p) (ho : l'.outlet p = l.outlet p)
    (hs : l.loop.futures.size ≤ l'.loop.futures.size) : l'.Table p where
  ids := hp ▸ h.ids
  bounded r hr := Nat.le_trans (h.bounded r (hp ▸ hr)) hid
  made r hr := Nat.lt_of_lt_of_le (h.made r (hp ▸ hr)) hs
  closed hn := hp.trans (h.closed (ho.symm.trans hn))

/-- Nobody is left behind if only the loop evolves and ends change. -/
theorem bides_of_same (hlo : l.loop.Evolves l'.loop) (ht : l'.tasks = l.tasks)
    (hp : ∀ p, ∀ r ∈ l.pending p, r ∈ l'.pending p ∨ r ∈ lost ∨ l'.loop.done r.future = true)
    (ho : ∀ p, l'.outlet p = l.outlet p ∨ l'.outlet p = none)
    (hpr : l.SameParts l')
    (hc : l'.client.standing = l.client.standing) (hstops : l'.stops = l.stops) :
    Bides [] lost l l' := by
  obtain ⟨hpeer, hprocess, hready, hexited, hqueued⟩ : _ ∧ _ ∧ _ ∧ _ ∧ _ := by
    simpa only [Client.standing, Prod.mk.injEq] using hc
  exact ⟨.of_tasks hlo.toRemembers ht hp, hlo.gones, ⟨hpeer, hprocess, hready, hexited⟩,
    fun q hq => .inl (hqueued ▸ hq), fun _ hnil => hqueued.trans hnil, ho, hpr, hstops⟩

/-- A link stays in order if its tables do, and processes that have ended have told so. -/
theorem Orderly.of_same (h : l.Orderly) (hlo : l.loop.Evolves l'.loop) (ht : l'.tasks = l.tasks)
    (htables : ∀ p, l'.Table p)
    (hpr : l.SameParts l')
    (htold : ∀ n, l'.Dead n → l'.outlet (l'.owner n) = none ∧ l'.loop.done (l'.exit n) = true)
    (hqueued : l'.client.queued = l.client.queued) (hscripts : l'.scripts = l.scripts) :
    l'.Orderly where
  sane := hlo.sane h.sane
  scripts := hscripts.trans h.scripts
  tables := htables
  outcomes t htask := by
    rw [ht] at htask ⊢
    exact Nat.lt_of_lt_of_le (h.outcomes t htask) hlo.futures
  owners n hn := by
    rw [(hpr.same n).1, hpr.peers]
    exact h.owners n (hpr.size ▸ hn)
  exits n hn := by
    rw [(hpr.same n).2]
    exact Nat.lt_of_lt_of_le (h.exits n (hpr.size ▸ hn)) hlo.futures
  told := htold
  keepable q hq := (h.keepable q (hqueued ▸ hq)).mono hlo.futures

/-- The loop may evolve, and ends may change as long as their connections and those who wait for
responses stay. -/
theorem serves_of_same (hlo : l.loop.Evolves l'.loop) (ht : l'.tasks = l.tasks)
    (hid : ∀ p, l.lastId p ≤ l'.lastId p) (hp : ∀ p, l'.pending p = l.pending p)
    (ho : ∀ p, l'.outlet p = l.outlet p) (hpeers : l'.peers.size = l.peers.size)
    (hpr : l'.processes = l.processes)
    (hc : l'.client.standing = l.client.standing)
    (hrest : (l'.scripts, l'.stops) = (l.scripts, l.stops)) : Serves l l' := by
  obtain ⟨hscripts, hstops⟩ := Prod.mk.inj hrest
  have hended (n : ProcessId) : l'.Dead n ↔ l.Dead n := by rw [Dead, Dead, hpr]
  have hprocesses : l.SameParts l' := .of_eq hpeers hpr
  have hqueued : l'.client.queued = l.client.queued := congrArg (·.2.2.2.2) hc
  refine fun h => ⟨h.of_same hlo ht (fun p => ?_) hprocesses (fun n hn => ?_) hqueued hscripts, ?_⟩
  · exact (h.tables p).mono (hid p) (hp p) (ho p) hlo.futures
  · obtain ⟨hout, hdone⟩ := h.told n ((hended n).1 hn)
    rw [(hprocesses.same n).1, (hprocesses.same n).2, ho]
    exact ⟨hout, hlo.done _ hdone⟩
  · exact bides_of_same hlo ht (fun q r hr => .inl ((hp q).symm ▸ hr)) (fun q => .inl (ho q))
      hprocesses hc hstops

/-- Only the loop is changed, and it evolves. -/
theorem serves_loop {lo : Loop Reply Callback Job} (h : l.loop.Evolves lo) :
    Serves l { l with loop := lo } :=
  serves_of_same h rfl (fun _ => Nat.le_refl _) (fun _ => rfl) (fun _ => rfl) rfl rfl rfl rfl

/-- Whatever nobody waits for may be changed. -/
theorem serves_change {f : Link → Link} (hl : ∀ l, (f l).loop = l.loop) (ht : ∀ l, (f l).tasks = l.tasks)
    (hp : ∀ l, (f l).peers = l.peers) (hpr : ∀ l, (f l).processes = l.processes)
    (hc : ∀ l, (f l).client.standing = l.client.standing)
    (hrest : ∀ l, ((f l).scripts, (f l).stops) = (l.scripts, l.stops)) : Keeps Serves (Act.change f) :=
  Keeps.change fun l => serves_of_same (hl l ▸ .refl _) (ht l)
    (fun p => Nat.le_of_eq (by rw [lastId, lastId, hp])) (fun p => by rw [pending, pending, hp])
    (fun p => by rw [outlet, outlet, hp]) (by rw [hp]) (hpr l) (hc l) (hrest l)

/-- An end may be changed, but neither its connection nor who waits. -/
theorem serves_touched {f : Peer → Peer} {e : Peer} (he : l.peers.getD p default = e)
    (hi : e.lastId ≤ (f e).lastId) (ho : (f e).outlet = e.outlet)
    (hp : (f e).pending = e.pending) : Serves l (touched p f l) := by
  subst he
  refine serves_of_same (.refl _) rfl (fun q => ?_) (fun q => getD_modify Peer.pending hp q)
    (fun q => getD_modify Peer.outlet ho q) (size_touched f) rfl rfl rfl
  by_cases hq : q = p
  · subst hq
    by_cases hlt : q < l.peers.size
    · rw [lastId_touched f hlt]
      exact hi
    · simp [lastId, touched, hlt]
  · refine Nat.le_of_eq ?_
    simp [lastId, touched, Array.getElem?_modify, Ne.symm hq]

/-- Tasks may be changed, but neither what they have left to do nor the futures of their outcomes. -/
theorem serves_tasks {ts : Array Task} (hsize : ts.size = l.tasks.size)
    (hsame : ∀ u, (ts.getD u default).rest = (l.tasks.getD u default).rest ∧
      (ts.getD u default).outcome = (l.tasks.getD u default).outcome) :
    Serves l { l with tasks := ts } := by
  refine fun h => ⟨⟨h.sane, h.scripts, fun p => ?_, fun u hu => ?_, h.owners, h.exits, h.told, h.keepable⟩, ?_⟩
  · exact (h.tables p).mono (Nat.le_refl _) rfl rfl (Nat.le_refl _)
  · rw [(hsame u).2]
    exact h.outcomes u (hsize ▸ hu)
  · refine ⟨⟨.refl _, Nat.le_of_eq hsize.symm, fun u _ => hsame u, fun u hu => ?_, fun _ _ => .inl⟩, rfl,
      ⟨rfl, rfl, rfl, rfl⟩, fun _ => .inl, fun _ => id, fun _ => .inl rfl, .of_eq rfl rfl, rfl⟩
    rw [(hsame u).1, getD_beyond hu]
    exact .nil

theorem serves_task {t : TaskId} {task : Task} (hr : task.rest = (l.tasks.getD t default).rest)
    (ho : task.outcome = (l.tasks.getD t default).outcome) :
    Serves l { l with tasks := l.tasks.setIfInBounds t task } := by
  refine serves_tasks (by simp) fun u => ?_
  by_cases htu : t = u
  · subst htu
    by_cases hlt : t < l.tasks.size
    · simp [hlt, hr, ho]
    · simp [hlt]
  · simp [Array.getElem?_setIfInBounds_ne htu]

/-- A task of a kind that a client has may be begun. -/
theorem serves_push {task : Task} (h : Resumption.All Resumption.ofClient task.rest)
    (hout : task.outcome < l.loop.futures.size) : Serves l { l with tasks := l.tasks.push task } := by
  refine fun ho => ⟨⟨ho.sane, ho.scripts, fun p => ?_, fun u hu => ?_, ho.owners, ho.exits,
    ho.told, ho.keepable⟩, ?_⟩
  · exact (ho.tables p).mono (Nat.le_refl _) rfl rfl (Nat.le_refl _)
  · by_cases heq : u = l.tasks.size
    · subst heq
      simpa using hout
    · have hlt : u < l.tasks.size := by simp at hu; omega
      simpa [Array.getElem?_push, heq] using ho.outcomes u hlt
  · refine ⟨⟨.refl _, by simp, fun u hu => ?_, fun u hu => ?_, fun _ _ => .inl⟩, rfl,
      ⟨rfl, rfl, rfl, rfl⟩, fun _ => .inl, fun _ => id, fun _ => .inl rfl, .of_eq rfl rfl, rfl⟩
    · simp [Array.getElem?_push, Nat.ne_of_lt hu]
    · by_cases heq : u = l.tasks.size
      · subst heq
        simpa using h
      · rw [getD_beyond (l := { l with tasks := l.tasks.push task }) (by simp; omega)]
        exact .nil

/-! ### Futures, tasks and tokens -/

theorem serves_onLoop {f : Loop Reply Callback Job → Loop Reply Callback Job}
    (h : ∀ lo : Loop Reply Callback Job, lo.Evolves (f lo)) : Keeps Serves (onLoop f) :=
  Keeps.change fun l => serves_loop (h l.loop)

theorem whenDone_ends (f : FutureId) (k : Callback) (l : Link) :
    Ends (whenDone f k) l fun r l' =>
      r = .ok () ∧ l' = { l with loop := l.loop.whenDone .call f k } := fun _ => ⟨rfl, rfl⟩

instance serves_whenDone (f : FutureId) (k : Callback) [h : Holds k.common] :
    Keeps Serves (whenDone f k) := serves_onLoop fun _ => Loop.evolves_whenDone h.eq_true

instance serves_forget (f waiter : FutureId) : Keeps Serves (forget f (.release waiter)) :=
  serves_onLoop fun _ => Loop.evolves_forget rfl trivial

instance serves_dropTimer (n : Nat) : Keeps Serves (onLoop (·.dropTimer n)) :=
  serves_onLoop (Loop.evolves_dropTimer n)

instance serves_newFuture : Keeps Serves newFuture :=
  .of_ends fun l => .read (.change_bind (.pure (serves_loop l.loop.evolves_create)))

instance serves_later (delay : Nat) (f : FutureId) : Keeps Serves (later delay (.release f)) :=
  .of_ends fun l => .read (.change_bind (.pure (serves_loop (Loop.evolves_later delay f l.loop))))

theorem settleOpen_evolves (f : FutureId) (e : Ending Reply) (l : Link) :
    Ends (settleOpen f e) l fun r l' => (∃ b, r = .ok b) ∧
      ∃ lo, l.loop.Evolves lo ∧ (f < l.loop.futures.size → lo.done f = true) ∧
        l' = { l with loop := lo } := by
  refine .read ?_
  cases h : l.loop.settle? .call f e with
  | some lo =>
    exact .change_bind (.pure ⟨⟨_, rfl⟩, lo, Loop.evolves_settle? h, fun _ => Loop.done_settle? h, rfl⟩)
  | none =>
    refine .pure ⟨⟨_, rfl⟩, l.loop, .refl _, fun hf => ?_, rfl⟩
    cases hd : l.loop.done f with
    | true => rfl
    | false =>
      obtain ⟨lo, hlo⟩ := exists_settle? (e := e) hf hd
      cases h.symm.trans hlo

instance serves_settleOpen (f : FutureId) (e : Ending Reply) : Keeps Serves (settleOpen f e) := by
  refine .of_ends fun l => (settleOpen_evolves f e l).mono fun r l' h => ?_
  obtain ⟨-, lo, hlo, -, rfl⟩ := h
  exact serves_loop hlo

/-- A future that is ended has ended, even if it had before. -/
theorem settle_evolves (f : FutureId) (e : Ending Reply) (l : Link) :
    Ends (settle f e) l fun _ l' => ∃ lo, l.loop.Evolves lo ∧
      (f < l.loop.futures.size → lo.done f = true) ∧ l' = { l with loop := lo } := by
  refine .bind ((settleOpen_evolves f e l).mono fun r l' h => ?_)
  obtain ⟨⟨b, rfl⟩, h⟩ := h
  show Ends (if _ then _ else _) l' _
  split
  · exact .throw h
  · exact .pure h

instance serves_soon_die (n : ProcessId) (code : Int) : Keeps Serves (soon (.die n code)) :=
  serves_onLoop (Loop.evolves_soon (fun _ _ h => by cases h) fun _ _ _ h => by cases h)

/-- An activity of the client may be begun. -/
theorem startTask_serves (k : Resumption) (hk : k.ofClient = true) (l : Link) :
    Ends (startTask k) l fun r l' => r = .ok l.tasks.size ∧ Serves l l' ∧
      l'.tasks = l.tasks.push { rest := [k], outcome := l.loop.futures.size } ∧
      Job.step l.tasks.size ∈ l'.loop.ready ∧ l.loop.futures.size < l'.loop.futures.size := by
  refine .bind (newFuture_ends.mono fun r l₁ h₁ => ?_)
  obtain ⟨rfl, rfl⟩ := h₁
  refine .read (.change_bind (.bind (ends_soon (.pure ⟨rfl, ?_, rfl, ?_, ?_⟩))))
  · have hlo : l.loop.Evolves (l.loop.create.2.soon (.step l.tasks.size)) :=
      l.loop.evolves_create.trans
        (Loop.evolves_soon (fun _ _ h => by cases h) (fun _ _ _ h => by cases h) _)
    let task : Task := { rest := [k], outcome := l.loop.futures.size }
    have hrest : Resumption.All Resumption.ofClient task.rest := List.forall_mem_singleton.2 hk
    exact trans_of Serves (serves_loop hlo) (serves_push hrest (by simp [task, Loop.soon, Loop.create]))
  · simp [Loop.soon]
  · simp [Loop.soon, Loop.create]

instance serves_cancelTask (t : TaskId) : Keeps Serves (cancelTask t) := by
  refine .of_ends fun l => .read ?_
  split
  · exact .pure (refl_of Serves l)
  · rename_i task htask
    have hget : l.tasks.getD t default = task := by simp [htask]
    have hmust (lo : Loop Reply Callback Job) (h : l.loop.Evolves lo) :
        Ends (Act.change fun l : Link => { l with
          tasks := l.tasks.setIfInBounds t { task with mustCancel := true } })
          { l with loop := lo } fun _ l' => Serves l l' :=
      .change (trans_of Serves (serves_loop h) (serves_task (by rw [hget]) (by rw [hget])))
    refine .read ?_
    split
    · exact .pure (refl_of Serves l)
    · split
      · refine .bind ((settleOpen_evolves _ _ _).mono fun r l' h => ?_)
        obtain ⟨⟨b, rfl⟩, lo, hlo, -, rfl⟩ := h
        show Ends (if _ then _ else _) _ _
        split
        · exact hmust lo hlo
        · exact .pure (serves_loop hlo)
      · exact .bind (.pure (hmust l.loop (.refl _)))

instance serves_setToken (t : TokenId) (token : Token Notice) : Keeps Serves (setToken t token) :=
  serves_change (fun _ => rfl) (fun _ => rfl) (fun _ => rfl) (fun _ => rfl) (fun _ => rfl) fun _ => rfl

instance serves_shield (f : FutureId) : Keeps Serves (shield f) := by
  unfold shield
  infer_instance

section Waiting

variable (f waiter : FutureId) (timer : Option Nat) (late : Bool) (r : Except Failure Reply)

instance serves_awaiting (rest : Resumption) (go : Except Failure Reply → Act Link Step)
    [∀ r, Keeps Serves (go r)] : Keeps Serves (awaiting f rest go) := by
  unfold awaiting
  refine .andThen fun e => ?_
  split <;> infer_instance

instance serves_afterGivingUp : Keeps Serves (afterGivingUp f late) := by
  unfold afterGivingUp
  refine .andThen fun e => ?_
  split <;> infer_instance

instance serves_givenUp : Keeps Serves (givenUp f waiter timer late r) := by
  unfold givenUp
  refine .andThen fun _ => ?_
  cases timer <;> cases r <;> infer_instance

instance serves_giveUp : Keeps Serves (giveUp f timer late) := by
  unfold giveUp
  infer_instance

instance serves_inTime (timer : Nat) : Keeps Serves (inTime f waiter timer r) := by
  unfold inTime
  refine .andThen fun e => ?_
  split <;> infer_instance

instance serves_waitFor (timeout : Option Int) : Keeps Serves (waitFor f timeout) := by
  unfold waitFor
  split
  · infer_instance
  · split
    · refine .andThen fun e => ?_
      split <;> infer_instance
    · infer_instance

end Waiting

/-! ### Messages -/

section Messages

variable {q : PeerId}

/-- What was written, and what was noted, does not matter. -/
instance serves_written (f : Frame) :
    Keeps Serves (Act.change fun l : Link => { l with written := l.written ++ [f] }) :=
  serves_change (fun _ => rfl) (fun _ => rfl) (fun _ => rfl) (fun _ => rfl) (fun _ => rfl) fun _ => rfl

instance serves_called (c : String × Value) :
    Keeps Serves (Act.change fun l : Link => { l with calls := l.calls ++ [c] }) :=
  serves_change (fun _ => rfl) (fun _ => rfl) (fun _ => rfl) (fun _ => rfl) (fun _ => rfl) fun _ => rfl

/-- No process has anything to say by itself. -/
instance serves_noticed (n : ProcessId) (message : Value) : Keeps Serves (noticed n message) := by
  refine .of_ends fun l => ?_
  unfold noticed
  split
  · rename_i method _
    refine .read ?_
    split
    · rename_i script hscript
      refine ends_soon fun h => ?_
      rw [h.scripts] at hscript
      cases hscript
    · exact .pure (refl_of Serves l)
  · exact .pure (refl_of Serves l)

instance serves_write (message : Value) : Keeps Serves (write q message) := by
  have (o : Outlet) : Keeps Serves (do
      let frame ← Act.ofExcept ((Frame.of o.process message).mapError .unwritable)
      Act.logBuilt Peer.dataLogger .trace fun _ => .ok ("JSON send: " ++ Text.quote frame.body)
      Act.change fun l => { l with written := l.written ++ [frame] }
      if let some n := o.process then noticed n message) := by
    refine .andThen fun f => .andThen fun _ => .andThen fun _ => ?_
    split <;> infer_instance
  unfold write
  refine .andThen fun e => ?_
  split
  · exact .andThen fun l => Keeps.ite _ _ _
  · infer_instance

instance serves_notify (method : String) (params : Value) : Keeps Serves (notify q method params) := by
  unfold notify
  infer_instance

instance serves_orWarn (a : Act Link Unit) (what : String) [Keeps Serves a] :
    Keeps Serves (orWarn q a what) := by
  unfold orWarn
  refine .andThen fun r => ?_
  split <;> infer_instance

instance serves_sendError (id code message data : Value) :
    Keeps Serves (sendError q id code message data) := by
  unfold sendError
  infer_instance

instance serves_takeBack (id : Nat) : Keeps Serves (takeBack q id) := by
  unfold takeBack
  infer_instance

instance serves_heed (n : Notice) : Keeps Serves (heed n) := by
  have (n : Note) : Keeps Serves (Act.change fun l : Link =>
      { l with recorder := { l.recorder with notes := l.recorder.notes ++ [n] } }) :=
    serves_change (fun _ => rfl) (fun _ => rfl) (fun _ => rfl) (fun _ => rfl) (fun _ => rfl)
      fun _ => rfl
  cases n with
  | request p id => exact serves_takeBack id
  | note method f =>
    show Keeps Serves (noteCancelled method f)
    unfold noteCancelled
    refine .andThen fun _ => .andThen fun l => ?_
    split <;> infer_instance

instance serves_call (a : Act Link Unit) [Keeps Serves a] : Keeps Serves (Token.call a) := by
  unfold Token.call
  refine .andThen fun r => ?_
  split <;> infer_instance

instance serves_cancelToken (t : TokenId) : Keeps Serves (cancelToken t) := by
  unfold cancelToken
  infer_instance

instance serves_watch (t : TokenId) (n : Notice) : Keeps Serves (watch t n) := by
  unfold watch
  refine .andThen fun l => ?_
  infer_instance

instance serves_watchUntil (f : FutureId) (t : TokenId) (n : Notice) :
    Keeps Serves (watchUntil f t n) := by
  unfold watchUntil
  infer_instance

end Messages

end Link

end EditorBridge
