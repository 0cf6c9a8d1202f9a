/-
Runs of the bridge with server processes.

A run begins before the extension is activated and before any server process was run.  In
it the editor works on documents, activities are begun, the loop does its jobs, time
passes, and server processes write and end, in any order.  It lasts as long as the first
activation does, every document has a version that the protocol knows, and no start is
begun while something is known of the server that was there before.  A start from rest is
never one of those (`Run.happens_from_rest`), but one that is begun during another start,
or after one that has failed, may be.

Everything that happens keeps the invariant, so no process hears of a document that was not
opened at it.
-/
import EditorBridge.Proofs.Server.Jobs

namespace EditorBridge.Workbench

open Act (Keeps Ends)

variable {c : Option Turn} {w w' : Workbench}

/-! ### Editing -/

/-- Documents were changed, and everybody has heard of it. -/
def Edited (w w' : Workbench) : Prop := ∃ w₁, Rewritten w w₁ ∧ Moves none none w₁ w'

theorem Sound.rewritten (h : w.Sound c) (hr : Rewritten w w') (hf : w'.Fit) : w'.Sound c := by
  obtain ⟨documents, shelf, rfl⟩ := hr
  obtain ⟨hrelays, hproxies, hnodup, hheeds, hunset⟩ := h.wired
  exact ⟨h.link, ⟨hrelays, hproxies, hnodup, hheeds, hunset⟩, hf⟩

theorem Edited.sound (h : Edited w w') (hl : w'.Lasting) (hf : w'.Fit) (hw : w.Sound none) :
    w'.Sound none ∧ w'.startCount = w.startCount := by
  obtain ⟨w₁, hr, h⟩ := h
  have hfit : w₁.Fit := by
    intro d
    rw [doc, ← h.documents]
    exact hf d
  obtain ⟨hw', hs, -⟩ := h.sound hl (hw.rewritten hr hfit)
  obtain ⟨documents, shelf, rfl⟩ := hr
  exact ⟨hw', hs⟩

/-- However it ends, documents were changed first and everybody has heard of it then. -/
def Edits {α : Type} (a : Act Workbench α) : Prop := ∀ w, Ends a w fun _ => Edited w

namespace Edits

variable {α β : Type}

theorem of_moves (a : Act Workbench α) [h : Keeps (Moves none none) a] : Edits a :=
  fun w => (h.ends w).mono fun _ _ h => ⟨w, refl_of Rewritten w, h⟩

theorem bind {a : Act Workbench α} {f : α → Act Workbench β} [ha : Keeps Rewritten a]
    (hf : ∀ x, Edits (f x)) : Edits (a >>= f) := by
  refine fun w => .bind ((ha.ends w).mono fun r w₁ h₁ => ?_)
  cases r with
  | error f => exact ⟨w₁, h₁, .refl w₁⟩
  | ok x =>
    refine (hf x w₁).mono fun _ w' h => ?_
    obtain ⟨w₂, h₂, h⟩ := h
    exact ⟨w₂, trans_of Rewritten h₁ h₂, h⟩

/-- Recording a call changes nothing about it. -/
theorem call {name : String} {arguments : Workbench → List String} {a : Act Workbench α}
    (h : Edits a) : Edits (call name arguments a) :=
  fun w => .read (.traced (h w))

end Edits

theorem edits_openDocument (o : Opening) : Edits (openDocument o) := by
  have hrest (u : Uri) : Edits (openAt o u) := by
    unfold openAt
    refine .bind fun found => ?_
    cases found with
    | some d => exact .of_moves _
    | none =>
      have (d : DocumentId) (x : Document) : Keeps Rewritten (Act.change fun w : Workbench =>
          { w with documents := w.documents.push x, shelf := w.shelf ++ [(u, d)] }) :=
        Keeps.change fun _ => ⟨_, _, rfl⟩
      exact .bind fun _ => .bind fun _ => .of_moves _
  refine .call ?_
  cases o.name with
  | text s => exact .bind hrest
  | uri u => exact hrest u
  | document d => exact .bind fun x => hrest x.uri

theorem edits_edit (n : Name) (edits : List (Range × List Char)) : Edits (edit n edits) :=
  .call (.bind fun _ => .bind fun _ => .bind fun _ => .of_moves _)

theorem edits_replaceAll (n : Name) (text : List Char) : Edits (replaceAll n text) :=
  .bind fun _ => .bind fun _ => edits_edit _ _

theorem edits_save (n : Name) : Edits (save n) := .call (.bind fun _ => .bind fun _ => .of_moves _)

theorem edits_close (n : Name) : Edits (close n) :=
  .call (.bind fun _ => .bind fun _ => .bind fun _ => .bind fun _ => .of_moves _)

/-! ### What happens -/

/-- Something that happens to the bridge. -/
inductive Occurrence where
  | opens (o : Opening)
  | edits (n : Name) (edits : List (Range × List Char))
  | replaces (n : Name) (text : List Char)
  | saves (n : Name)
  | closes (n : Name)
  /-- An activity is begun: an activation, a query, a start, a stop, a restart, and so on. -/
  | begins (k : Resumption) (h : k.plain = true)
  /-- The loop does the next job. -/
  | works
  /-- The clock goes on, up to a time. -/
  | passes (time : Nat)
  /-- A server process writes to one of its outputs. -/
  | writes (n : ProcessId) (output : Int) (bytes : Rpc.Bytes)
  /-- A server process ends. -/
  | exits (n : ProcessId) (code : Int)
  /-- A query is cancelled. -/
  | cancels (t : TokenId)
  /-- An activity is cancelled. -/
  | interrupts (t : TaskId)
  /-- It is decided anew how attempts to run a server process end. -/
  | decides (s : Spawning)

namespace Occurrence

/-- What is done when something happens. -/
def act : Occurrence → Act Workbench Unit
  | opens o => do let _ ← openDocument o
  | edits n es => do let _ ← edit n es
  | replaces n text => do let _ ← replaceAll n text
  | saves n => do let _ ← save n
  | closes n => do let _ ← close n
  | begins k _ => do let _ ← onLink (Link.startTask k)
  | works => settle 1
  | passes time => onLink (Link.onLoop (·.advanceTo time))
  | writes n output bytes => onLink (Link.receiveOutput n output bytes)
  | exits n code => onLink (Link.die n code)
  | cancels t => onLink (Link.cancelToken t)
  | interrupts t => onLink (Link.cancelTask t)
  | decides s => onLink (Act.change fun l => { l with spawning := s })

end Occurrence

/-- The bridge after something has happened: documents were changed, or not. -/
inductive Continues (w w' : Workbench) : Prop
  | edited (h : Edited w w')
  | proceeds (h : Proceeds none none w w')

theorem Edits.continues {α : Type} {a : Act Workbench α} (h : Edits a) (w : Workbench) :
    Ends (do let _ ← a) w (Unless (Continues w)) :=
  (Ends.ignore ((h w).mono fun _ _ h => Continues.edited h)).mono fun _ _ h _ => h

theorem Continues.of_moves (a : Act Workbench Unit) [h : Keeps (Moves none none) a]
    (w : Workbench) : Ends a w (Unless (Continues w)) :=
  (h.ends w).mono fun _ _ h _ => .proceeds (.moved h)

/-- **Whatever happens**, documents are changed and heard of, or a start is begun, or neither. -/
theorem Occurrence.act_ends (x : Occurrence) (hw : w.Sound none) :
    Ends x.act w (Unless (Continues w)) := by
  cases x with
  | opens o => exact (edits_openDocument o).continues w
  | edits n es => exact (edits_edit n es).continues w
  | replaces n text => exact (edits_replaceAll n text).continues w
  | saves n => exact (edits_save n).continues w
  | closes n => exact (edits_close n).continues w
  | begins k hk =>
    have := Link.quiet_startTask hk
    exact .of_moves (do let _ ← onLink (Link.startTask k)) w
  | works => exact (settle_one_ends hw).mono fun _ _ h hr => .proceeds (h hr)
  | passes time =>
    have : Keeps Link.Quiet (Link.onLoop (·.advanceTo time)) :=
      Link.quiet_onLoop fun _ => .of_futures rfl
    exact .of_moves (onLink (Link.onLoop (·.advanceTo time))) w
  | decides s =>
    have : Keeps Link.Quiet (Act.change fun l : Link => { l with spawning := s }) :=
      Link.quiet_change fun _ => Link.quiet_rest rfl rfl rfl ⟨rfl, rfl, rfl⟩
    exact .of_moves (onLink (Act.change fun l => { l with spawning := s })) w
  | writes n output bytes => exact .of_moves (onLink (Link.receiveOutput n output bytes)) w
  | exits n code => exact .of_moves (onLink (Link.die n code)) w
  | cancels t => exact .of_moves (onLink (Link.cancelToken t)) w
  | interrupts t => exact .of_moves (onLink (Link.cancelTask t)) w

/-- No server process runs or is about to, and the last attempt to run one, if there was any, did
not fail. -/
def AtRest (w : Workbench) : Prop :=
  w.link.client.peer = none ∧ (w.link.client.ready = none → w.link.peers.size = 0)

namespace Continues

/-- The invariant is kept, unless a start was begun while something was known. -/
theorem sound (h : Continues w w') (hl : w'.Lasting) (hf : w'.Fit)
    (hk : w.startCount < w'.startCount → w'.tracker.known = []) (hw : w.Sound none) :
    w'.Sound none := by
  cases h with
  | edited h => exact (h.sound hl hf hw).1
  | proceeds h =>
    cases h with
    | moved h => exact (h.sound hl hw).1
    | began h =>
      obtain ⟨hlt, -, hw'⟩ := h.sound hl hw
      exact hw' (hk hlt)

/-- A start from rest finds that nothing is known. -/
theorem known_of_rest (h : Continues w w') (hl : w'.Lasting) (hf : w'.Fit) (hw : w.Sound none)
    (hrest : w.AtRest) (hlt : w.startCount < w'.startCount) : w'.tracker.known = [] := by
  have hidle : w.Idle := ⟨hrest.1, hw.link.forgotten hrest.1 hrest.2⟩
  cases h with
  | edited h => exact absurd (h.sound hl hf hw).2 (Nat.ne_of_gt hlt)
  | proceeds h =>
    cases h with
    | moved h => exact absurd (h.sound hl hw).2.1 (Nat.ne_of_gt hlt)
    | began h => exact (h.sound hl hw).2.1 hidle

end Continues

/-! ### Runs -/

/-- Nothing was begun yet: no activity, no activation, and no server process. -/
structure Fresh (w : Workbench) : Prop where
  recording : w.link.recording = false
  notes : w.link.recorder.notes = []
  peer : w.link.client.peer = none
  initialized : w.link.client.initialized = false
  queued : w.link.client.queued = []
  written : w.link.written = []
  tasks : w.link.tasks = #[]
  peers : w.link.peers = #[]
  processes : w.link.processes = #[]
  trackers : w.trackers = #[]
  relays : w.relays = #[]
  proxies : w.proxies = #[]
  extension : w.extension.relay = none
  nodup : w.onStop.listeners.Nodup
  fit : w.Fit

theorem Fresh.sound (h : w.Fresh) : w.Sound none := by
  have hheard (e : Ear) : w.link.heard e = [] := by
    cases e <;> simp [Link.heard, h.notes, h.queued, h.written]
  have houtlet (p : PeerId) : w.link.outlet p = none := by
    simp [Link.outlet, h.peers]
    rfl
  have htask (t : TaskId) (ht : t < w.link.tasks.size) : False := by simp [h.tasks] at ht
  have hprocess (n : ProcessId) (hn : n < w.link.processes.size) : False := by
    simp [h.processes] at hn
  have hknown : w.tracker.known = [] := by
    simp [tracker, h.trackers]
    rfl
  refine ⟨⟨?_, fun _ _ => hknown⟩, ?_, h.fit⟩
  · exact {
      recording := h.recording
      listening := fun n => by simp [h.processes]; rfl
      obeyed := fun e => by rw [hheard]; exact openBeforeUse_nil
      covers := fun _ u hu => by rw [hknown] at hu; cases hu
      sendable := fun q hq => by rw [h.queued] at hq; cases hq
      flushed := fun _ => h.queued
      silent := fun _ _ _ _ _ => hheard _
      fresh := fun _ _ => hheard _
      outlets := fun p o ho => by rw [houtlet] at ho; cases ho
      owners := fun n hn => (hprocess n hn).elim
      served := fun hi => by rw [h.initialized] at hi; cases hi
      tasked := ⟨fun t ht => (htask t ht).elim, fun _ ht => absurd ht (Option.not_mem_none _),
        fun t ht => (htask t ht.1).elim,
        fun t ht => (htask t ht.1).elim, fun t _ ht => (htask t ht.1).elim⟩
      unscripted := fun t ht => (htask t ht).elim }
  · refine ⟨fun n => ?_, fun n => ?_, h.nodup, fun ha => ?_, fun _ => h.extension⟩
    · have hrelay : w.relays.getD n default = default := by simp [h.relays]
      rw [hrelay]
      exact ⟨rfl, .null⟩
    · have hproxy : w.proxies.getD n default = default := by simp [h.proxies]
      rw [hproxy]
      rfl
    · simp [Active, h.extension] at ha

/-- A run, and the bridge after it. -/
inductive Run : Workbench → Prop
  | start {w : Workbench} (h : w.Fresh) : Run w
  | happens {w w' : Workbench} {r : Except Failure Unit} (h : Run w) (x : Occurrence)
    (hx : x.act.Gives w r w') (hr : ∀ f, r = .error f → f.isExit = false) (hl : w'.Lasting)
    (hf : w'.Fit) (hk : w.startCount < w'.startCount → w'.tracker.known = []) : Run w'

namespace Run

/-- In a run everything is as it has to be. -/
theorem sound (h : Run w) : w.Sound none := by
  induction h with
  | start h => exact h.sound
  | happens h x hx hr hl hf hk ih => exact (hx.elim (x.act_ends ih) hr).sound hl hf hk ih

/-- **A start from rest** may be begun in any run. -/
theorem happens_from_rest {r : Except Failure Unit} (h : Run w) (x : Occurrence)
    (hx : x.act.Gives w r w') (hr : ∀ f, r = .error f → f.isExit = false) (hl : w'.Lasting)
    (hf : w'.Fit) (hrest : w.startCount < w'.startCount → w.AtRest) : Run w' :=
  h.happens x hx hr hl hf fun hlt =>
    (hx.elim (x.act_ends h.sound) hr).known_of_rest hl hf h.sound (hrest hlt) hlt

/-- **Open before use**, at every server process: in a run it was never told of a document that
was not opened at it, or was closed since. -/
theorem openBeforeUse_process (h : Run w) (n : ProcessId) :
    OpenBeforeUse (w.link.heard (.frames (some n))) :=
  h.sound.link.obeyed _

end Run

/-! ### Runs that can be followed -/

instance : Decidable w.Lasting := inferInstanceAs (Decidable (_ ∨ _ ∧ _))

theorem fit_iff : w.Fit ↔ ∀ i : Fin w.documents.size, (w.doc i).VersionFits := by
  refine ⟨fun h i => h i, fun h d => ?_⟩
  by_cases hd : d < w.documents.size
  · exact h ⟨d, hd⟩
  · have hdoc : w.doc d = default := by simp [doc, hd]
    rw [hdoc]
    exact ⟨by decide, by decide⟩

instance : Decidable w.Fit :=
  have (d : Document) : Decidable d.VersionFits := inferInstanceAs (Decidable (_ ∧ _))
  decidable_of_iff _ fit_iff.symm

/-- Lets one thing happen after the other, as long as this makes a run. -/
def follow : List Occurrence → Workbench → Option Workbench
  | [], w => some w
  | x :: xs, w =>
    let p := x.act ⟨{}, w⟩
    if p.1.isOk ∧ p.2.state.Lasting ∧ p.2.state.Fit ∧
        (w.startCount < p.2.state.startCount → p.2.state.tracker.known = []) then
      follow xs p.2.state
    else none

theorem Run.follow {xs : List Occurrence} (h : Run w) (hw : follow xs w = some w') : Run w' := by
  induction xs generalizing w with
  | nil =>
    cases hw
    exact h
  | cons x xs ih =>
    simp only [Workbench.follow, Option.ite_none_right_eq_some] at hw
    obtain ⟨⟨hok, hl, hf, hk⟩, hw⟩ := hw
    refine ih (h.happens x ⟨{}, rfl, rfl⟩ (fun f hr => ?_) hl hf hk) hw
    rw [hr] at hok
    cases hok

theorem fresh_empty : Fresh {} where
  recording := rfl
  notes := rfl
  peer := rfl
  initialized := rfl
  queued := rfl
  written := rfl
  tasks := rfl
  peers := rfl
  processes := rfl
  trackers := rfl
  relays := rfl
  proxies := rfl
  extension := rfl
  nodup := .nil
  fit := fit_iff.2 fun i => i.elim0

/-- What a server writes that agrees to whatever it is asked first. -/
def agreement : Rpc.Bytes :=
  let body := "\x7b\"jsonrpc\":\"2.0\",\"id\":1,\"result\":\x7b\"capabilities\":\x7b\x7d\x7d\x7d"
  (Rpc.framed body).toUTF8.toList

/-- A file is opened while the server process is greeted, the server agrees, and the file is
saved. -/
def openedEarly : List Occurrence := [
  .begins .activate rfl, .works, .works, .works,
  .opens { name := .uri { scheme := "file", path := "/x" }, text := ['x'] },
  .writes 0 1 agreement, .works, .saves (.document 0)]

/-- It is opened at the process as soon as the server agrees, before it is formatted and saved. -/
theorem openBeforeUse_process_openedEarly : ∃ w, Run w ∧
    w.link.heard (.frames (some 0)) =
      [.opened "file:///x" ['x'] 1, .mentioned "file:///x", .mentioned "file:///x"] ∧
    OpenBeforeUse (w.link.heard (.frames (some 0))) := by
  have h : (follow openedEarly {}).map (·.link.heard (.frames (some 0))) = some
      [.opened "file:///x" ['x'] 1, .mentioned "file:///x", .mentioned "file:///x"] := by
    decide +kernel
  obtain ⟨w, hw, hheard⟩ := Option.map_eq_some_iff.1 h
  have hrun := (Run.start fresh_empty).follow hw
  exact ⟨w, hrun, hheard, hrun.openBeforeUse_process 0⟩

end EditorBridge.Workbench
