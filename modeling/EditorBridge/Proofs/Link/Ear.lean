/-
Who hears what is sent.

What the editor has to tell goes one of three ways: to the recorder, to the queue of a
client whose server is not ready, or in frames to whatever process is behind the client's
end of the connection.  `Link.ear` says which, and it depends on a small part of the link
only, its wiring.  `Tells news l l'` is the relation that the rest of the theory is about:
between the two states exactly `news` was told, to the ear of the link and to nobody else,
and the wiring stayed as it was.  An act that is not about documents tells nothing, and
so is `Quiet`.

The relation also says how the loop grows meanwhile: futures that ended stay so, and
tasks keep what they still have to do.
-/
import EditorBridge.Link.Recorder
import EditorBridge.Proofs.Act
import EditorBridge.Proofs.Params

namespace EditorBridge

open Json (Writable)

/-! ### The loop grows -/

namespace Loop

variable {α κ ω : Type}

/-- No future is lost, and none that ended goes on. -/
structure Grows (l l' : Loop α κ ω) : Prop where
  futures : l.futures.size ≤ l'.futures.size
  done : ∀ f, l.done f = true → l'.done f = true

theorem Grows.refl (l : Loop α κ ω) : l.Grows l := ⟨Nat.le_refl _, fun _ => id⟩

theorem Grows.trans {a b c : Loop α κ ω} (h : a.Grows b) (h' : b.Grows c) : a.Grows c :=
  ⟨Nat.le_trans h.futures h'.futures, fun f hf => h'.done f (h.done f hf)⟩

/-- Only the futures matter. -/
theorem Grows.of_futures {l l' : Loop α κ ω} (h : l'.futures = l.futures) : l.Grows l' :=
  ⟨Nat.le_of_eq (congrArg Array.size h.symm), fun f hf => by simpa [Loop.done, ending?, h] using hf⟩

theorem done_iff {l : Loop α κ ω} {f : FutureId} :
    l.done f = true ↔ ∃ fut, l.futures[f]? = some fut ∧ fut.ending.isSome = true := by
  unfold done ending?
  cases l.futures[f]? <;> simp

/-- A future may be replaced by one that has ended if it has. -/
theorem grows_set (l : Loop α κ ω) (f : FutureId) (fut : Future α κ) (jobs : List ω)
    (h : ∀ old, l.futures[f]? = some old → old.ending.isSome = true → fut.ending.isSome = true) :
    l.Grows { l with futures := l.futures.setIfInBounds f fut, ready := jobs } := by
  refine ⟨by simp, fun g hg => ?_⟩
  obtain ⟨old, hold, hend⟩ := done_iff.1 hg
  rw [done_iff]
  by_cases hfg : f = g
  · subst hfg
    have hlt : f < l.futures.size := (Array.getElem?_eq_some_iff.1 hold).1
    exact ⟨fut, by simp [hlt], h old hold hend⟩
  · exact ⟨old, by simpa [Array.getElem?_setIfInBounds_ne hfg] using hold, hend⟩

theorem grows_create (l : Loop α κ ω) : l.Grows l.create.2 := by
  refine ⟨by simp [create], fun f hf => ?_⟩
  obtain ⟨old, hold, hend⟩ := done_iff.1 hf
  have hlt : f < l.futures.size := (Array.getElem?_eq_some_iff.1 hold).1
  exact done_iff.2 ⟨old, by simpa [create, Array.getElem?_push, Nat.ne_of_lt hlt] using hold, hend⟩

theorem grows_settle? {toJob : κ → FutureId → ω} {f : FutureId} {e : Ending α}
    {l l' : Loop α κ ω} (h : l.settle? toJob f e = some l') : l.Grows l' := by
  unfold settle? at h
  split at h
  · cases h
  · split at h
    · cases h
    · cases h
      exact grows_set _ _ _ _ fun _ _ _ => rfl

theorem grows_whenDone (toJob : κ → FutureId → ω) (f : FutureId) (k : κ) (l : Loop α κ ω) :
    l.Grows (l.whenDone toJob f k) := by
  unfold whenDone
  split
  · exact .refl l
  · rename_i fut hfut
    split
    · exact .of_futures rfl
    · refine grows_set l f _ l.ready fun old hold hend => ?_
      rw [hfut] at hold
      cases hold
      exact hend

theorem grows_forget [DecidableEq κ] (f : FutureId) (k : κ) (l : Loop α κ ω) :
    l.Grows (l.forget f k) := by
  unfold forget
  split
  · exact .refl l
  · rename_i fut hfut
    refine grows_set l f _ l.ready fun old hold hend => ?_
    rw [hfut] at hold
    cases hold
    exact hend

end Loop

/-! ### Server processes that are about to run -/

namespace Resumption

/-- The end that a server process is being run for. -/
@[reducible] def spawns? : Resumption → Option PeerId
  | .spawned p _ => some p
  | _ => none

/-- Whether it belongs to a script that is played. -/
def scripted : Resumption → Bool
  | .play _ | .waited .. | .interrupting .. | .queried .. => true
  | .session _ | .sessionActive _ | .sessionPlayed | .sessionOver _ => true
  | _ => false

/-- Whether it is something that goes on below the editor, other than the middle of a start. -/
@[reducible] def plain : Resumption → Bool
  | .spawned .. => false
  | .play _ | .waited .. | .interrupting .. | .queried .. => false
  | .session _ | .sessionActive _ | .sessionPlayed | .sessionOver _ => false
  | _ => true

theorem spawns?_of_plain {k : Resumption} (h : k.plain = true) : k.spawns? = none := by
  cases k <;> first | rfl | cases h

theorem scripted_of_plain {k : Resumption} (h : k.plain = true) : k.scripted = false := by
  cases k <;> first | rfl | cases h

/-- The ends that an activity is about to run server processes for. -/
def starts (rest : List Resumption) : List PeerId := rest.filterMap spawns?

/-- Everything that an activity has left to do is plain. -/
def AllPlain (rest : List Resumption) : Prop := ∀ k ∈ rest, k.plain = true

theorem AllPlain.starts {rest : List Resumption} (h : AllPlain rest) : starts rest = [] :=
  List.filterMap_eq_nil_iff.2 fun k hk => spawns?_of_plain (h k hk)

end Resumption

/-! ### Ears -/

/-- What a message that was noted tells. -/
def Note.told? (n : Note) : Option Told :=
  if n.kind = "notification" ∨ n.kind = "request" then n.method.bind (Told.of? · n.params) else none

/-- What a message that waits will tell. -/
def Queued.told? : Queued → Option Told
  | .notification method params => Told.of? method params
  | .request method params _ _ _ => Told.of? method params

/-- What a frame tells. -/
def Frame.told? (f : Frame) : Option Told := Told.ofMessage? f.message

/-- Where what is sent goes. -/
inductive Ear where
  | recorder
  | queue
  /-- Frames, to the process behind an end. -/
  | frames (process : Option ProcessId)
  | nobody
  deriving DecidableEq, Repr

/-- What decides where messages go, and what of it is there. -/
structure Wiring where
  machine : Machine
  recording : Bool
  refusals : List (String × Failure)
  peer : Option PeerId
  ready : Option FutureId
  initialized : Bool
  starts : Nat
  ends : Nat
  outlet : PeerId → Option Outlet
  processes : Nat
  owner : ProcessId → PeerId
  closing : ProcessId → Bool

namespace Wiring

/-- The ear at the other end of a wiring. -/
def ear (w : Wiring) : Ear :=
  if w.recording then .recorder
  else if w.initialized || w.peer.isNone then
    match w.peer.bind w.outlet with
    | some o => .frames o.process
    | none => .nobody
  else .queue

end Wiring

namespace Link

/-- What an end writes to. -/
def outlet (l : Link) (p : PeerId) : Option Outlet := (l.peers.getD p default).outlet

/-- The wiring of a link. -/
def wiring (l : Link) : Wiring where
  machine := l.machine
  recording := l.recording
  refusals := l.recorder.sendFails
  peer := l.client.peer
  ready := l.client.ready
  initialized := l.client.initialized
  starts := l.spawned.length
  ends := l.peers.size
  outlet := l.outlet
  processes := l.processes.size
  owner n := (l.processes.getD n default).peer
  closing n := (l.processes.getD n default).closing

/-- Who hears what is sent. -/
def ear (l : Link) : Ear := l.wiring.ear

/-- What has been told to an ear. -/
def heard (l : Link) : Ear → List Told
  | .recorder => l.recorder.notes.filterMap Note.told?
  | .queue => l.client.queued.filterMap Queued.told?
  | .frames n => (l.written.filter (·.process = n)).filterMap Frame.told?
  | .nobody => []

/-- The activities and futures of a link only grow in number. -/
structure Grows (l l' : Link) : Prop where
  loop : l.loop.Grows l'.loop
  tasks : l.tasks.size ≤ l'.tasks.size
  /-- Nobody but the loop itself changes what a task still has to do. -/
  kept : ∀ t < l.tasks.size, (l'.tasks.getD t default).rest = (l.tasks.getD t default).rest ∧
    (l'.tasks.getD t default).outcome = (l.tasks.getD t default).outcome
  /-- Activities that are begun on the way have nothing but plain things to do. -/
  begun : ∀ t, l.tasks.size ≤ t → t < l'.tasks.size →
    Resumption.AllPlain (l'.tasks.getD t default).rest ∧
      (l'.tasks.getD t default).outcome < l'.loop.futures.size

namespace Grows

theorem refl (l : Link) : l.Grows l where
  loop := .refl _
  tasks := Nat.le_refl _
  kept _ _ := ⟨rfl, rfl⟩
  begun t h h' := by omega

theorem trans {a b c : Link} (h : a.Grows b) (h' : b.Grows c) : a.Grows c where
  loop := h.loop.trans h'.loop
  tasks := Nat.le_trans h.tasks h'.tasks
  kept t ht := by
    obtain ⟨h₁, h₂⟩ := h.kept t ht
    obtain ⟨h₃, h₄⟩ := h'.kept t (Nat.lt_of_lt_of_le ht h.tasks)
    exact ⟨h₃.trans h₁, h₄.trans h₂⟩
  begun t ht ht' := by
    by_cases hb : t < b.tasks.size
    · obtain ⟨h₁, h₂⟩ := h.begun t ht hb
      obtain ⟨h₃, h₄⟩ := h'.kept t hb
      exact ⟨h₃.symm ▸ h₁, h₄ ▸ Nat.lt_of_lt_of_le h₂ h'.loop.futures⟩
    · exact h'.begun t (Nat.le_of_not_lt hb) ht'

/-- Without a change of the tasks only the loop counts. -/
theorem of_loop {l l' : Link} (hl : l.loop.Grows l'.loop) (ht : l'.tasks = l.tasks) :
    l.Grows l' where
  loop := hl
  tasks := Nat.le_of_eq (congrArg Array.size ht.symm)
  kept t _ := by rw [ht]; exact ⟨rfl, rfl⟩
  begun t h h' := by rw [ht] at h'; omega

end Grows

/-- A message that waits can be sent later on: it can be written, and if it is a request, its
future exists, and it does no more than mention a document. -/
def Sendable (l : Link) : Queued → Prop
  | .notification _ params => Writable params
  | .request method params _ _ result => Writable params ∧ result < l.loop.futures.size ∧
    method ∈ Told.mentioning

theorem Sendable.mono {l l' : Link} {q : Queued} (h : l.Sendable q) (hg : l.Grows l') :
    l'.Sendable q := by
  cases q with
  | notification => exact h
  | request => exact ⟨h.1, Nat.lt_of_lt_of_le h.2.1 hg.loop.futures, h.2.2⟩

/-- **Exactly so much was told**: to the ear of a link, and to nobody else. -/
structure Tells (news : List Told) (l l' : Link) : Prop where
  wiring : l'.wiring = l.wiring
  heard : ∀ e, l'.heard e = l.heard e ++ if e = l.ear then news else []
  /-- Nothing is told if nobody hears it. -/
  audible : news ≠ [] → l.ear ≠ .nobody
  /-- Messages wait only if that is where they go. -/
  queued : ∃ qs, l'.client.queued = l.client.queued ++ qs ∧
    ∀ q ∈ qs, l'.Sendable q ∧ l.ear = .queue
  grows : l.Grows l'

/-- Nothing was told. -/
abbrev Quiet : Link → Link → Prop := Tells []

namespace Tells

variable {l l' l'' : Link} {news more : List Told}

theorem ear (h : Tells news l l') : l'.ear = l.ear := congrArg Wiring.ear h.wiring

theorem recording (h : Tells news l l') : l'.recording = l.recording :=
  congrArg Wiring.recording h.wiring

theorem refusals (h : Tells news l l') : l'.recorder.sendFails = l.recorder.sendFails :=
  congrArg Wiring.refusals h.wiring

theorem trans (h : Tells news l l') (h' : Tells more l' l'') : Tells (news ++ more) l l'' where
  wiring := h'.wiring.trans h.wiring
  heard e := by
    rw [h'.heard, h.heard, h.ear, List.append_assoc]
    split <;> simp
  audible hne := by
    cases news with
    | nil => exact h.ear ▸ h'.audible hne
    | cons => exact h.audible (by simp)
  queued := by
    obtain ⟨qs, hqs, hs⟩ := h.queued
    obtain ⟨qs', hqs', hs'⟩ := h'.queued
    refine ⟨qs ++ qs', by rw [hqs', hqs, List.append_assoc], fun q hq => ?_⟩
    rcases List.mem_append.1 hq with hq | hq
    · exact ⟨(hs q hq).1.mono h'.grows, (hs q hq).2⟩
    · exact h.ear ▸ hs' q hq
  grows := h.grows.trans h'.grows

/-- Nothing is told by a change of anything else. -/
theorem of_same (hw : l'.wiring = l.wiring) (hq : l'.client.queued = l.client.queued)
    (hn : l'.recorder.notes.filterMap Note.told? = l.recorder.notes.filterMap Note.told?)
    (hf : l'.written = l.written) (hg : l.Grows l') : Quiet l l' where
  wiring := hw
  heard e := by cases e <;> simp [Link.heard, hq, hn, hf]
  audible hne := absurd rfl hne
  queued := ⟨[], by simpa using hq, by simp⟩
  grows := hg

theorem refl (l : Link) : Quiet l l := of_same rfl rfl rfl rfl (.refl l)

end Tells

instance : IsPreorder Link Quiet where
  refl := Tells.refl
  trans _ _ _ h h' := h.trans h'

end Link

end EditorBridge
