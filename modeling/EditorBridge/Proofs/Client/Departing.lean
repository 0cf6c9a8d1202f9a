/-
A client hears of the end of its process.

The client ends the future of readiness, gives up its end and works off its queue, which
without an end means to drop it (`Departs`).  None of this fails, so the end is announced,
and exactly once: those who listen are called once each, and only the one who takes note of
it can make the announcement fail, after it has taken note.
-/
import EditorBridge.Proofs.Client.Spawning
import EditorBridge.Proofs.Editor.Firing

namespace EditorBridge

open Act (Ends Keeps Reads)

namespace Link

variable {l l' : Link} {hand : List Job} {p : PeerId} {n : ProcessId} {r x : FutureId} {s : Nat}

/-- The link once the client has given up its end. -/
def abandoned (l : Link) : Link :=
  { l with client := { l.client with process := none, peer := none, initialized := false } }

/-- The end of a process was announced. -/
def announced (l : Link) : Link := { l with stops := l.stops + 1 }

theorem orderly_announced (h : l.Orderly) : l.announced.Orderly where
  sane := h.sane
  scripts := h.scripts
  tables p := (h.tables p).mono (Nat.le_refl _) rfl rfl (Nat.le_refl _)
  outcomes := h.outcomes
  owners := h.owners
  exits := h.exits
  told := h.told
  keepable q hq := (h.keepable q hq).mono (Nat.le_refl _)

/-- How a client takes the end of its process: whoever waits for readiness is told, the client gives
up its end, and what waits is dropped. -/
def Departs (l l' : Link) : Prop :=
  ∃ l₁, Serves l l₁ ∧ (∀ r, l.client.ready = some r → r < l.loop.futures.size → l₁.loop.done r = true) ∧
    l'.Orderly ∧ Bides [] [] l₁.abandoned l' ∧ l'.client.queued = []

theorem letGo_bides (h : l.Orderly) : Ends letGo l fun y l' =>
    y = .ok () ∧ l'.Orderly ∧ Bides [] [] l.abandoned l' ∧ l'.client.queued = [] := by
  have ho : l.abandoned.Orderly := h.of_client h.keepable
  exact .change_bind ((flush_serves ho).mono fun y l' ⟨hy, ho', hb, hq⟩ => ⟨hy, ho', hb, hq rfl⟩)

theorem hangUp_bides (h : l.Orderly) : Ends hangUp l fun y l' => y = .ok () ∧ ∃ l₁, Serves l l₁ ∧
    l'.Orderly ∧ Bides [] [] l₁.abandoned l' ∧ l'.client.queued = [] := by
  unfold hangUp
  refine .read ?_
  split
  · rename_i n _
    refine .change_bind ?_
    have hs : Serves l { l with orders := l.orders ++ [(n, "close")] } :=
      (serves_order n "close").keeps ⟨default, l⟩
    exact (letGo_bides (hs h).1).mono fun y l' hl => ⟨hl.1, _, hs, hl.2⟩
  · exact (letGo_bides h).mono fun y l' hl => ⟨hl.1, l, refl_of Serves l, hl.2⟩

theorem failReady_departs (code : Option Int) (h : l.Orderly) :
    Ends (failReady code) l fun y l' => y = .ok () ∧ Departs l l' := by
  unfold failReady
  refine .read ?_
  split
  · rename_i f hf
    refine .bind ((settleOpen_evolves f _ l).mono fun y l₁ h₁ => ?_)
    obtain ⟨⟨b, rfl⟩, lo, hlo, hd, rfl⟩ := h₁
    have hs := serves_loop hlo
    refine (hangUp_bides (hs h).1).mono fun y l' ⟨hy, l₂, hs₂, h'⟩ => ?_
    refine ⟨hy, l₂, trans_of Serves hs hs₂, fun r hr hlt => ?_, h'⟩
    cases hf.symm.trans hr
    exact (hs₂ (hs h).1).2.loop.done f (hd hlt)
  · rename_i hnone
    exact (hangUp_bides h).mono fun y l' ⟨hy, l₁, hs, h'⟩ =>
      ⟨hy, l₁, hs, fun r hr => absurd hr (hnone r), h'⟩

/-- **The end of the process** of a client does not fail to be taken. -/
theorem processGone_departs (exited : FutureId) (h : l.Orderly) :
    Ends (processGone exited) l fun y l' => y = .ok () ∧ Departs l l' := by
  have hall (code : Option Int) : Ends (do
      if (← theClient).stopping then
        logClient .info s!"server process exited with code {exitCodeText code}"
      else
        logClient .warning s!"server process exited unexpectedly with code {exitCodeText code}"
      failReady code) l fun y l' => y = .ok () ∧ Departs l l' := by
    refine .read ?_
    split <;> exact .bind (.log (failReady_departs code h))
  exact .read (hall _)

theorem Departs.carries (h : Departs l l') (ho : l.Orderly) :
    Carries [] l l'.announced ∧ SameReady l l'.announced ∧ ∀ f, l.Secured f → l'.announced.Secured f := by
  obtain ⟨l₁, hs, -, -, hb, -⟩ := h
  have hb₁ := (hs ho).2
  have hmiddle : Carries [] l₁ l₁.abandoned := .of_tasks (.refl _) rfl fun _ _ => .inl
  have hend : Carries [] l' l'.announced := .of_tasks (.refl _) rfl fun _ _ => .inl
  refine ⟨((hb₁.toCarries.trans hmiddle).trans hb.toCarries).trans hend, fun r hr => .inr ?_, fun f hf => ?_⟩
  · exact (hb.client.2.2.1.trans hb₁.client.2.2.1).trans hr
  · have hsecured : l₁.abandoned.Secured f := (hb₁.secured hf).imp hmiddle.provided id
    exact (hb.secured hsecured).imp hend.provided id

/-- **A client whose process ended** has nothing to do with it any more. -/
theorem Running.departs (h : l.Running n s p r x hand) (ho : l.Orderly) (hd : Departs l l')
    (hg : l.loop.gones = 0) : l'.announced.Finished n s p (some r) [] := by
  obtain ⟨l₁, hs, hdone, -, hb, hq⟩ := hd
  have hb₁ := (hs ho).2
  have hmiddle : l₁.SameParts l₁.abandoned := .of_eq rfl rfl
  have hparts := (hb₁.parts.trans hmiddle).trans hb.parts
  refine ⟨⟨?_, hb.client.1, hb.client.2.1, ?_, fun q hne => ?_, ?_, ?_⟩, ?_, fun f hf => ?_, hq⟩
  · exact hparts.size.trans h.stands.processes
  · exact (hb.client.2.2.1.trans hb₁.client.2.2.1).trans h.stands.ready
  · have hclosed : l₁.outlet q = none := by
      rcases hb₁.outlets q with hout | hout
      · exact hout.trans (h.stands.connected q hne)
      · exact hout
    rcases hb.outlets q with hout | hout
    · exact hout.trans hclosed
    · exact hout
  · have hgones : l'.loop.gones = l.loop.gones := hb.gones.trans hb₁.gones
    simpa [announced, hgones] using hg
  · exact congrArg (· + 1) ((hb.stops.trans hb₁.stops).trans h.stands.stops)
  · exact (hparts.same n).1.trans h.process.1
  · cases hf
    exact hb.loop.done r (hdone r h.stands.ready h.made)

end Link

namespace Workbench

variable {w w' : Workbench}

/-- The end of a process was announced so many times, and the same listen as before. -/
def Announces (m : Nat) (w w' : Workbench) : Prop :=
  w'.onStop = w.onStop ∧ w'.link = { w.link with stops := w.link.stops + m }

theorem Announces.trans {w'' : Workbench} {m m' : Nat} (h : Announces m w w')
    (h' : Announces m' w' w'') : Announces (m + m') w w'' := by
  refine ⟨h'.1.trans h.1, h'.2.trans ?_⟩
  rw [h.2, Nat.add_assoc]

/-- The observer takes note of the announcement, and nobody else fails. -/
theorem hearStopped_announces (k : StopListener) (w : Workbench) :
    Ends (hearStopped k) w fun y w' =>
      Announces ([k].count .observer) w w' ∧ (k = .extension → y = .ok ()) := by
  cases k with
  | observer =>
    refine .bind (.on (.change (.read ?_)))
    split
    · exact .throw ⟨⟨rfl, rfl⟩, fun hk => by cases hk⟩
    · exact .pure ⟨⟨rfl, rfl⟩, fun hk => by cases hk⟩
  | extension =>
    refine .read ?_
    split
    · refine .bind (.log ((clearTracker_ends _ w).mono fun y w' h => ?_))
      rw [h.2]
      exact ⟨⟨rfl, rfl⟩, fun _ => h.1⟩
    · exact .pure ⟨⟨rfl, rfl⟩, fun _ => rfl⟩

/-- Whoever listens is called, unless the observer has asked for the end of the program. -/
theorem callEach_announces {ks : List StopListener} (hks : ks.count .observer ≤ 1) (w : Workbench) :
    Ends (Event.callEach (fun _ => return true) hearStopped ks) w
      fun _ => Announces (ks.count .observer) w := by
  induction ks generalizing w with
  | nil => exact .pure ⟨rfl, rfl⟩
  | cons k ks ih =>
    have hcount : (k :: ks).count .observer = [k].count .observer + ks.count .observer := by
      rw [← List.count_append, List.singleton_append]
    rw [hcount] at hks ⊢
    have hrest (y : Except Failure Unit) (w₁ : Workbench) (h₁ : Announces ([k].count .observer) w w₁) :
        Ends (do return y :: (← Event.callEach (fun _ => return true) hearStopped ks)) w₁
          fun _ => Announces ([k].count .observer + ks.count .observer) w := by
      refine .bind ((ih (by omega) w₁).mono fun ys w₂ h₂ => ?_)
      cases ys with
      | ok _ => exact .pure (h₁.trans h₂)
      | error _ => exact h₁.trans h₂
    unfold Event.callEach
    refine .bind (.pure (.bind (.outcome ((hearStopped_announces k w).mono fun y w₁ h₁ => ?_))))
    obtain ⟨h₁, hy⟩ := h₁
    cases y with
    | ok _ => exact hrest _ w₁ h₁
    | error f =>
      show Ends (if _ then _ else _) w₁ _
      split
      · -- Only the observer fails, and it listens once.
        cases k with
        | extension => cases hy rfl
        | observer =>
          have hzero : ks.count .observer = 0 := by
            rw [List.count_singleton_self] at hks
            omega
          rw [hzero]
          exact .bind (.throw h₁)
      · exact hrest _ w₁ h₁

/-- **The end of the process** is announced once to those who listen. -/
theorem serverGone_departs (ho : w.link.Orderly) (hl : w.onStop.listeners.count .observer = 1)
    (f : FutureId) :
    Ends (serverGone f) w fun _ w' => w'.onStop = w.onStop ∧ ∃ l', Link.Departs w.link l' ∧
      w'.link = l'.announced := by
  refine .bind (.on ((Link.processGone_departs f ho).mono fun y l' h' => ?_))
  obtain ⟨rfl, hdeparts⟩ := h'
  have hfire : Ends fireStopped { w with link := l' } fun _ => Announces 1 { w with link := l' } := by
    unfold fireStopped Event.dispatch
    refine .read ?_
    exact hl ▸ callEach_announces (Nat.le_of_eq hl) _
  refine .bind (hfire.mono fun y w₁ h₁ => ?_)
  have hfired : w₁.onStop = w.onStop ∧ ∃ l', Link.Departs w.link l' ∧ w₁.link = l'.announced :=
    ⟨h₁.1, l', hdeparts, h₁.2⟩
  cases y with
  | error g => exact hfired
  | ok ys =>
    refine (logFailures_ends Client.logger ys w₁).mono fun y w₂ h₂ => ?_
    obtain ⟨rfl, rfl⟩ := h₂
    exact hfired

end Workbench

end EditorBridge
