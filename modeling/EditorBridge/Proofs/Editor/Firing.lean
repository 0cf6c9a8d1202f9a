/-
Who hears of what happens to a document.

A dispatch calls every listener once, unless one of them asks for the end of the program.
What comes of it is told by one listener that matters, the relay: as long as it was not
called one thing holds, and another one once it was (`Event.callEach_ends`).  What
observers do changes nothing but what they noted.
-/
import EditorBridge.Editor.Extension
import EditorBridge.Proofs.Event.Roster
import EditorBridge.Proofs.Handlers

namespace EditorBridge

open Act (Ends Keeps Reads)

/-! ### Dispatching -/

namespace Event

variable {κ σ α : Type} {call : κ → Act σ α} {ks : List κ} {k₀ : κ} {I J : σ → Prop} {s : σ}

/-- Whoever is called, nothing but the end of the program keeps the others from being called. -/
private theorem callEach_cons_ends {k : κ} {Q : σ → Prop} (hk : Ends (call k) s fun _ => I)
    (hks : ∀ s, I s → Ends (callEach (fun _ => return true) call ks) s fun r s' =>
      (∀ f, r = .error f → f.isExit = true) ∧ ∀ xs, r = .ok xs → Q s') :
    Ends (callEach (fun _ => return true) call (k :: ks)) s fun r s' =>
      (∀ f, r = .error f → f.isExit = true) ∧ ∀ xs, r = .ok xs → Q s' := by
  have hrest (r : Except Failure α) (s' : σ) (hs' : I s') : Ends (do
      return r :: (← callEach (fun _ => return true) call ks)) s' fun r s' =>
      (∀ f, r = .error f → f.isExit = true) ∧ ∀ xs, r = .ok xs → Q s' := by
    refine .bind ((hks s' hs').mono fun x s'' h => ?_)
    cases x with
    | error f => exact ⟨h.1, nofun⟩
    | ok xs => exact .pure ⟨nofun, fun _ _ => h.2 xs rfl⟩
  unfold callEach
  refine .bind (.pure ?_)
  dsimp only
  rw [if_pos rfl]
  refine .bind (.outcome (hk.mono fun r s' hs' => ?_))
  cases r with
  | ok x => exact hrest _ s' hs'
  | error f =>
    dsimp only
    split
    · rename_i hf
      exact .bind (.throw ⟨fun f' h => by cases h; exact hf, nofun⟩)
    · exact hrest _ s' hs'

/-- Listeners that keep something keep it together. -/
theorem callEach_keeps (h : ∀ k ∈ ks, ∀ s, I s → Ends (call k) s fun _ => I) (hs : I s) :
    Ends (callEach (fun _ => return true) call ks) s fun r s' =>
      (∀ f, r = .error f → f.isExit = true) ∧ ∀ xs, r = .ok xs → I s' := by
  induction ks generalizing s with
  | nil => exact .pure ⟨nofun, fun _ _ => hs⟩
  | cons k ks ih =>
    obtain ⟨hk, hks⟩ := List.forall_mem_cons.1 h
    exact callEach_cons_ends (hk s hs) fun s hs => ih hks hs

/-- They keep it even if one of them asks for the end of the program. -/
theorem callEach_stays (h : ∀ k ∈ ks, ∀ s, I s → Ends (call k) s fun _ => I) (hs : I s) :
    Ends (callEach (fun _ => return true) call ks) s fun _ => I := by
  induction ks generalizing s with
  | nil => exact .pure hs
  | cons k ks ih =>
    obtain ⟨hk, hks⟩ := List.forall_mem_cons.1 h
    have hrest (r : Except Failure α) {s' : σ} (hs' : I s') : Ends (do
        return r :: (← callEach (fun _ => return true) call ks)) s' fun _ => I := by
      refine .bind ((ih hks hs').mono fun x _ h => ?_)
      cases x with
      | error _ => exact h
      | ok _ => exact .pure h
    unfold callEach
    refine .bind (.pure ?_)
    dsimp only
    rw [if_pos rfl]
    refine .bind (.outcome ((hk s hs).mono fun r s' hs' => ?_))
    cases r with
    | ok x => exact hrest _ hs'
    | error f =>
      dsimp only
      split
      · exact .bind (.throw hs')
      · exact hrest _ hs'

/-- **A dispatch with one listener that matters**: what comes of it holds exactly if that one is
there. -/
theorem callEach_ends [DecidableEq κ] (hn : ks.Nodup)
    (hI : ∀ k ∈ ks, k ≠ k₀ → ∀ s, I s → Ends (call k) s fun _ => I)
    (hJ : ∀ k ∈ ks, k ≠ k₀ → ∀ s, J s → Ends (call k) s fun _ => J)
    (h₀ : ∀ s, I s → Ends (call k₀) s fun _ => J) (hs : I s) :
    Ends (callEach (fun _ => return true) call ks) s fun r s' =>
      (∀ f, r = .error f → f.isExit = true) ∧
        ∀ xs, r = .ok xs → if k₀ ∈ ks then J s' else I s' := by
  induction ks generalizing s with
  | nil => exact .pure ⟨nofun, fun _ _ => by simpa using hs⟩
  | cons k ks ih =>
    obtain ⟨hk, hks⟩ := List.nodup_cons.1 hn
    obtain ⟨hIk, hI⟩ := List.forall_mem_cons.1 hI
    by_cases hkk : k = k₀
    · subst hkk
      simp only [List.mem_cons_self, if_true]
      refine callEach_cons_ends (h₀ s hs) fun s hs => callEach_keeps (fun k' hk' => ?_) hs
      exact hJ k' (by simp [hk']) fun h => hk (h ▸ hk')
    · have hmem : k₀ ∈ k :: ks ↔ k₀ ∈ ks := by simp [Ne.symm hkk]
      simp only [hmem]
      exact callEach_cons_ends (hIk hkk s hs) fun s hs =>
        ih hks hI (fun k' hk' => hJ k' (by simp [hk'])) hs

end Event

namespace Workbench

variable {w : Workbench} {d : DocumentId}

instance reads_document (d : DocumentId) : Reads (document d) fun w => w.documents.getD d default :=
  ⟨fun _ => rfl⟩

instance reads_onLink {α : Type} (a : Act Link α) (f : Link → α) [h : Reads a f] :
    Reads (onLink a) fun w => f w.link := by
  refine ⟨fun ⟨j, w⟩ => ?_⟩
  show ((a ⟨j, w.link⟩).1, (⟨(a ⟨j, w.link⟩).2.journal,
    { w with link := (a ⟨j, w.link⟩).2.state }⟩ : Env Workbench)) = _
  rw [h.reads]

/-- Recording who failed changes nothing. -/
theorem logFailures_ends (l : Logger) (rs : List (Except Failure Unit)) (w : Workbench) :
    Ends (do for r in rs do if let .error f := r then Act.logFailure l f) w fun r w' =>
      r = .ok () ∧ w' = w := by
  refine .bind ((Ends.forIn (I := fun w' => w' = w) (fun x _ _ w' hw => ?_) rfl).mono
    fun r w' h => ?_)
  · cases x with
    | ok _ => exact .pure ⟨⟨_, rfl⟩, hw⟩
    | error f => exact .bind (.logFailure (.pure ⟨⟨_, rfl⟩, hw⟩))
  · obtain ⟨⟨_, rfl⟩, rfl⟩ := h
    exact .pure ⟨rfl, rfl⟩

/-- **Everybody hears.**  One thing holds if the listener that matters is there, and another one
if it is not; if the program is to end, neither has to. -/
theorem fire_ends {e : Event Listener} {hear : Listener → Act Workbench Unit}
    (k₀ : Listener) {I J : Workbench → Prop} (hn : e.listeners.Nodup)
    (hI : ∀ k ∈ e.listeners, k ≠ k₀ → ∀ w, I w → Ends (hear k) w fun _ => I)
    (hJ : ∀ k ∈ e.listeners, k ≠ k₀ → ∀ w, J w → Ends (hear k) w fun _ => J)
    (h₀ : ∀ w, I w → Ends (hear k₀) w fun _ => J) (hw : I w) :
    Ends (fire e hear) w fun r w' => match r with
      | .ok _ => if k₀ ∈ e.listeners then J w' else I w'
      | .error f => f.isExit = true := by
  refine .bind ((Event.callEach_ends hn hI hJ h₀ hw).mono fun r w' h => ?_)
  cases r with
  | error f => exact h.1 f rfl
  | ok rs =>
    refine (logFailures_ends logger rs w').mono fun r w'' hl => ?_
    obtain ⟨rfl, rfl⟩ := hl
    exact h.2 rs rfl

/-- An observer only notes what it hears. -/
theorem observe_ends (n : Nat) (o : Occasion) (d : DocumentId) (w : Workbench) :
    Ends (observe n o d) w fun _ w' => ∃ noted, w' = { w with sightings := noted } := by
  refine .read (.read (.change_bind ?_))
  split
  · exact .throw ⟨_, rfl⟩
  · exact .pure ⟨_, rfl⟩

/-- What a relay does, it does to its tracker and the link. -/
theorem relay_ends {n : Nat} {name : String} {argument : Value}
    {a : Relay → Act (Tracker × Link) Unit} {H : Tracker × Link → Prop}
    (h : Ends (a (w.relays.getD n default).relay)
      (w.trackers.getD (w.relays.getD n default).tracker default, w.link) fun _ => H) :
    Ends (relay n name argument a) w fun _ w' => ∃ s, H s ∧ w' = { w with
      trackers := w.trackers.setIfInBounds (w.relays.getD n default).tracker s.1
      link := s.2 } := by
  refine .read (.traced (.on (h.mono fun r s hs => ?_)))
  exact ⟨s, hs, rfl⟩

theorem clearTracker_ends (n : Nat) (w : Workbench) : Ends (clearTracker n) w fun r w' =>
    r = .ok () ∧ w' = { w with trackers := w.trackers.setIfInBounds n {} } := by
  unfold clearTracker onTracker Tracker.on
  refine .on (.on ((Tracker.clear_ends _).mono fun r t h => ?_))
  exact ⟨h.1, by rw [h.2]⟩

end Workbench

end EditorBridge
