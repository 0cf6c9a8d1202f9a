/-
A tracker that knows what a server process was told.

A message goes to the queue of the client before the server is ready, and to the process
behind the client's end afterwards.  `Link.Sound` is what holds in between the acts of the
client, whatever their order: the rule of the protocol was kept towards each of them, and
whoever hears what is sent now was told what the tracker knows.  The rest of the invariant
is there to carry these two over the points where the wiring changes.  An end has one
process (`outlets`), a process that is not greeted yet has heard nothing (`silent`), nor
has one that is still to come (`fresh`), and nothing waits once the server is ready
(`flushed`).

`Link.Settled` adds what a tracker has to know when there is nobody to hear: nothing,
unless the last attempt to run a server process has failed.  That is left out of `Sound`
because it does not hold between the end of a process and its announcement.
-/
import EditorBridge.Proofs.Link.Sending
import EditorBridge.Proofs.Server.Turns

namespace EditorBridge.Link

open Act (Keeps Ends Reads)

variable {c : Option Turn} {u : Turn} {t t' : Tracker} {l l' : Link} {news : List Told}
  {p : PeerId}

/-- Who hears what is sent, if there is no recorder. -/
theorem ear_eq (h : l.recording = false) : l.ear = match l.client.peer with
    | none => .nobody
    | some p =>
      if l.client.initialized then (l.outlet p).elim .nobody fun o => .frames o.process
      else .queue := by
  unfold ear Wiring.ear
  rw [if_neg (by simp [wiring, h])]
  cases hp : l.client.peer with
  | none => simp [wiring, hp]
  | some p =>
    cases hi : l.client.initialized with
    | false => simp [wiring, hp, hi]
    | true => cases ho : l.outlet p <;> simp [wiring, hp, hi, ho]

/-- Nothing was told as long as nothing of what is heard was touched. -/
theorem heard_congr (hn : l'.recorder.notes = l.recorder.notes)
    (hq : l'.client.queued = l.client.queued) (hw : l'.written = l.written) :
    l'.heard = l.heard := by
  funext e
  cases e <;> simp [heard, hn, hq, hw]

/-- **The invariant of the client**, with a tracker. -/
structure Sound (c : Option Turn) (t : Tracker) (l : Link) : Prop where
  recording : l.recording = false
  /-- No process refuses what is written to it. -/
  listening : ∀ n, (l.processes.getD n default).closing = false
  obeyed : ∀ e, OpenBeforeUse (l.heard e)
  covers : l.ear ≠ .nobody → t.Covers (l.heard l.ear)
  sendable : ∀ q ∈ l.client.queued, l.Sendable q
  flushed : l.client.initialized = true → l.client.queued = []
  silent : l.client.initialized = false → ∀ p ∈ l.client.peer, ∀ o ∈ l.outlet p,
    l.heard (.frames o.process) = []
  fresh : ∀ n, l.processes.size ≤ n → l.heard (.frames (some n)) = []
  outlets : ∀ p, ∀ o ∈ l.outlet p, ∃ n < l.processes.size, o.process = some n ∧ l.owner n = p
  owners : ∀ n < l.processes.size, l.owner n < l.peers.size
  /-- A server that is ready runs. -/
  served : l.client.initialized = true → ∀ p ∈ l.client.peer,
    ∃ n < l.processes.size, l.owner n = p
  tasked : Tasked c l
  /-- No script is being played. -/
  unscripted : ∀ t < l.tasks.size, ∀ k ∈ (l.tasks.getD t default).rest, k.scripted = false

/-- Without an end nothing is known, unless the last start has failed. -/
structure Settled (c : Option Turn) (t : Tracker) (l : Link) : Prop extends Sound c t l where
  forgotten : l.client.peer = none → (l.client.ready = none → l.peers.size = 0) → t.known = []

/-! ### What keeps the invariant -/

namespace Tells

variable (h : Tells news l l')
include h

theorem peer : l'.client.peer = l.client.peer := congrArg Wiring.peer h.wiring

theorem ready : l'.client.ready = l.client.ready := congrArg Wiring.ready h.wiring

theorem initialized : l'.client.initialized = l.client.initialized :=
  congrArg Wiring.initialized h.wiring

theorem spawned : l'.spawned.length = l.spawned.length := congrArg Wiring.starts h.wiring

theorem ends : l'.peers.size = l.peers.size := congrArg Wiring.ends h.wiring

theorem outlet (p : PeerId) : l'.outlet p = l.outlet p :=
  congrFun (congrArg Wiring.outlet h.wiring) p

theorem processes : l'.processes.size = l.processes.size := congrArg Wiring.processes h.wiring

theorem owner (n : ProcessId) : l'.owner n = l.owner n :=
  congrFun (congrArg Wiring.owner h.wiring) n

theorem closing (n : ProcessId) :
    (l'.processes.getD n default).closing = (l.processes.getD n default).closing :=
  congrFun (congrArg Wiring.closing h.wiring) n

/-- Those who do not hear are told nothing. -/
theorem heard_of_ne {e : Ear} (he : e ≠ l.ear) : l'.heard e = l.heard e := by
  rw [h.heard, if_neg he, List.append_nil]

theorem news_of_nobody (he : l.ear = .nobody) : news = [] :=
  Classical.byContradiction fun hne => h.audible hne he

end Tells

/-- A process hears something only if it is there. -/
theorem Sound.process_of_ear (h : Sound c t l) {n : Option ProcessId} (he : l.ear = .frames n) :
    l.client.initialized = true ∧ ∃ p ∈ l.client.peer, ∃ o ∈ l.outlet p, o.process = n := by
  rw [ear_eq h.recording] at he
  cases hp : l.client.peer with
  | none => simp [hp] at he
  | some p =>
    cases hi : l.client.initialized with
    | false => simp [hp, hi] at he
    | true =>
      cases ho : l.outlet p with
      | none => simp [hp, hi, ho] at he
      | some o =>
        simp only [hp, hi, ho, Option.elim_some, if_true, Ear.frames.injEq] at he
        exact ⟨rfl, p, rfl, o, ho, he⟩

/-- **A tracker that follows what is told** keeps the invariant. -/
theorem Sound.told (h : Sound c t l) (ht : Tells news l l') (hf : t.Follows news t') :
    Sound c t' l' := by
  have hear : l.ear ≠ .nobody → t'.Covers (l'.heard l.ear) ∧ OpenBeforeUse (l'.heard l.ear) := by
    intro he
    rw [ht.heard, if_pos rfl]
    exact hf _ (h.covers he) (h.obeyed _)
  constructor
  case recording => exact ht.recording.trans h.recording
  case listening => exact fun n => (ht.closing n).trans (h.listening n)
  case obeyed =>
    intro e
    by_cases he : e = l.ear
    · subst he
      by_cases hn : l.ear = .nobody
      · rw [hn]
        exact openBeforeUse_nil
      · exact (hear hn).2
    · rw [ht.heard_of_ne he]
      exact h.obeyed e
  case covers =>
    rw [ht.ear]
    exact fun he => (hear he).1
  case sendable =>
    obtain ⟨qs, hqs, hs⟩ := ht.queued
    rw [hqs]
    intro q hq
    rcases List.mem_append.1 hq with hq | hq
    · exact (h.sendable q hq).mono ht.grows
    · exact (hs q hq).1
  case flushed =>
    rw [ht.initialized]
    intro hi
    obtain ⟨qs, hqs, hs⟩ := ht.queued
    have hnil : qs = [] := List.eq_nil_iff_forall_not_mem.2 fun q hq => by
      have he := (hs q hq).2
      rw [ear_eq h.recording, hi] at he
      cases hp : l.client.peer with
      | none => simp [hp] at he
      | some p => cases ho : l.outlet p <;> simp [hp, ho] at he
    rw [hqs, h.flushed hi, hnil]
    rfl
  case silent =>
    rw [ht.initialized, ht.peer]
    intro hi p hp o ho
    rw [ht.outlet] at ho
    rw [ht.heard_of_ne fun he => ?_]
    · exact h.silent hi p hp o ho
    · rw [(h.process_of_ear he.symm).1] at hi
      cases hi
  case fresh =>
    rw [ht.processes]
    intro n hn
    rw [ht.heard_of_ne fun he => ?_]
    · exact h.fresh n hn
    · obtain ⟨-, p, -, o, ho, hon⟩ := h.process_of_ear he.symm
      obtain ⟨m, hm, hom, -⟩ := h.outlets p o ho
      rw [hon] at hom
      cases hom
      omega
  case outlets =>
    intro p o ho
    rw [ht.outlet] at ho
    obtain ⟨n, hn, hon, howner⟩ := h.outlets p o ho
    exact ⟨n, ht.processes ▸ hn, hon, (ht.owner n).trans howner⟩
  case owners =>
    rw [ht.processes, ht.ends]
    exact fun n hn => ht.owner n ▸ h.owners n hn
  case served =>
    rw [ht.initialized, ht.peer, ht.processes]
    intro hi p hp
    obtain ⟨n, hn, howner⟩ := h.served hi p hp
    exact ⟨n, hn, (ht.owner n).trans howner⟩
  case tasked =>
    exact h.tasked.grows ht.grows (Nat.le_of_eq ht.ends.symm) ht.processes fun n _ => ht.owner n
  case unscripted =>
    intro t hlt k hk
    by_cases hold : t < l.tasks.size
    · rw [(ht.grows.kept t hold).1] at hk
      exact h.unscripted t hold k hk
    · exact Resumption.scripted_of_plain ((ht.grows.begun t (Nat.le_of_not_lt hold) hlt).1 k hk)

theorem Settled.told (h : Settled c t l) (ht : Tells news l l') (hf : t.Follows news t') :
    Settled c t' l' := by
  refine ⟨h.toSound.told ht hf, ?_⟩
  rw [ht.peer, ht.ready, ht.ends]
  intro hp hr
  have hnobody : l.ear = .nobody := by rw [ear_eq h.recording, hp]
  rw [ht.news_of_nobody hnobody] at hf
  exact hf.known_eq_nil (h.forgotten hp hr)

/-- Everything stays as it has to be, for whatever tracker there is, and no start is begun. -/
def Steady (c c' : Option Turn) (l l' : Link) : Prop :=
  ∀ t, Settled c t l → Settled c' t l' ∧ l'.spawned.length = l.spawned.length ∧
    (l.client.peer = none → l'.client.peer = none)

namespace Steady

variable {c' c'' : Option Turn}

theorem refl (l : Link) : Steady c c l l := fun _ ht => ⟨ht, rfl, id⟩

theorem trans {l'' : Link} (h : Steady c c' l l') (h' : Steady c' c'' l' l'') :
    Steady c c'' l l'' := by
  intro t ht
  obtain ⟨ht, hs, hp⟩ := h t ht
  obtain ⟨ht, hs', hp'⟩ := h' t ht
  exact ⟨ht, hs'.trans hs, hp' ∘ hp⟩

instance : IsPreorder Link (Steady c c) where
  refl := refl
  trans _ _ _ := trans

theorem of_quiet (h : Quiet l l') : Steady c c l l' :=
  fun t ht => ⟨ht.told h (.refl t), h.spawned, h.peer.trans⟩

instance keeps_quiet {α : Type} (a : Act Link α) [h : Keeps Quiet a] : Keeps (Steady c c) a :=
  h.mono fun _ _ => of_quiet

/-- What an act does has to be known only where everything is as it has to be. -/
theorem ends {α : Type} {a : Act Link α} (h : ∀ t, Settled c t l → Ends a l fun _ l' =>
      Settled c' t l' ∧ l'.spawned.length = l.spawned.length ∧
        (l.client.peer = none → l'.client.peer = none)) :
    Ends a l fun _ => Steady c c' l := fun j t ht => h t ht j

end Steady

end EditorBridge.Link
