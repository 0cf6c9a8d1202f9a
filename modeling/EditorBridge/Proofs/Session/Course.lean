/-
Sessions.

A session switches the extension on, plays a script and switches the extension off again,
whatever became of the script.  Each of the three may wait, and `Scene` is what holds in the
meantime, by what is left to do: the last thing of it says which of them it is.  A session goes
on with whatever comes of what it waits for, and others go on with their own things in between
(`Replay`).  So it holds of every session that the outcomes of its first steps were
delivered and nothing else, and when it has come to an end, that the extension is inactive.

A session may end with any failure, not only with those that the program reports.
-/
import EditorBridge.Proofs.Client.Stepping
import EditorBridge.Proofs.Handshake.Owing
import EditorBridge.Proofs.Server.Jobs
import EditorBridge.Proofs.Session.Playing

namespace EditorBridge

open Act (Ends Gives Keeps)
open Resumption (Framed)

theorem Resumption.Framed.unscripted {fs ks : List Resumption} (h : Framed fs ks) :
    ∀ k ∈ ks, k.scripted = false := by
  induction ks with
  | nil => exact List.forall_mem_nil _
  | cons k ks ih =>
    refine List.forall_mem_cons.2 ⟨?_, ih h.2⟩
    cases h.1 with
    | own hk => cases k <;> first | rfl | cases hk
    | traced => rfl
    | below hk => cases k <;> first | rfl | cases hk

namespace Workbench

variable {config v : Value} {steps rest : List ScriptStep} {w₀ w w' : Workbench} {since : Nat}
  {ks : List Resumption} {x : Except Failure Step} {outcome : Except Failure Reply}

/-! ### Going on -/

/-- What has nothing to do with a script delivers nothing. -/
theorem resumeAll_delivers (h : ∀ k ∈ ks, k.scripted = false) (r : Except Failure Reply) :
    Keeps (Delivers []) (resumeAll ks r) := by
  induction ks generalizing r with
  | nil =>
    unfold resumeAll
    infer_instance
  | cons k ks ih =>
    obtain ⟨hk, hks⟩ := List.forall_mem_cons.1 h
    have := resume_delivers hk r
    have (r : Except Failure Reply) := ih hks r
    unfold resumeAll
    refine .andThen fun x => ?_
    split <;> infer_instance

/-! ### Switching in a session -/

/-- A call to switch the extension on or off was made from a state on, and came to this so far. -/
structure Switching (config : Value) (w₀ : Workbench) (s : Switch) (since : Nat)
    (x : Except Failure Step) (w : Workbench) : Prop where
  holds : (Standing.after s since x).Holds config w
  present : Present w
  delivers : Delivers [] w₀ w

/-- A call is made. -/
theorem act_switches
    (hv : Relay.formattingOptions (Config.tabSize config) (Config.insertSpaces config) = .ok v)
    (hp : Present w) (h : w.Inactive config ∨ ∃ n, w.Engaged config n) (s : Switch) :
    Ends s.act w (Switching config w s w.trackers.size) := by
  have hkeeps : Keeps (Delivers []) s.act := by cases s <;> unfold Switch.act <;> infer_instance
  refine ((act_lands hv hp h s).and (hkeeps.ends w)).mono fun x w' hx => ?_
  exact ⟨.of_lands hx.1, hx.1.elim.2.1, hx.2⟩

/-- A call goes on. -/
theorem resumeAll_switches
    (hv : Relay.formattingOptions (Config.tabSize config) (Config.insertSpaces config) = .ok v)
    {s : Switch} (hp : Present w) (h : (Standing.underway s since ks).Holds config w)
    (r : Except Failure Reply) : Ends (resumeAll ks r) w (Switching config w s since) := by
  obtain ⟨hsince, hks, hpending⟩ := h
  have hlands := resumeAll_lands (fun k ks r w hk h => resume_lands hv hk h) hks
    ⟨refl_of Discreet w, hp, hsince, hpending r⟩
  refine (hlands.and ((resumeAll_delivers hks.unscripted r).ends w)).mono fun x w' hx => ?_
  exact ⟨.of_lands hx.1, hx.1.elim.2.1, hx.2⟩

/-! ### Scenes -/

/-- What holds while a session waits, by what it has left to do. -/
inductive Scene (config : Value) (steps : List ScriptStep) (w₀ w : Workbench) :
    List Resumption → Prop
  | entering {since : Nat} {ks : List Resumption} (hp : Present w) (hd : Delivers [] w₀ w)
    (h : (Standing.underway .on since ks).Holds config w) :
    Scene config steps w₀ w (ks ++ [.sessionActive (some steps)])
  | playing {rest : List ScriptStep} {ks : List Resumption} (hk : Pause rest ks)
    (h : Midway config steps w₀ rest w) : Scene config steps w₀ w (ks ++ [.sessionPlayed])
  | leaving {rest : List ScriptStep} {outcome : Except Failure Reply} {since : Nat}
    {ks : List Resumption} (hp : Present w) (hplayed : Played steps w₀ rest w)
    (hall : outcome.isOk = true → rest = [])
    (h : (Standing.underway .off since ks).Holds config w) :
    Scene config steps w₀ w (ks ++ [.sessionOver outcome])

/-- A session is over: the extension is inactive, and if nothing has failed all steps were
played. -/
structure Over (config : Value) (steps : List ScriptStep) (w₀ : Workbench)
    (r : Except Failure Reply) (w : Workbench) : Prop where
  inactive : w.Inactive config
  played : ∃ rest, Played steps w₀ rest w ∧ (r.isOk = true → rest = [])

/-- How a session stands. -/
def Stands (config : Value) (steps : List ScriptStep) (w₀ : Workbench) :
    Except Failure Step → Workbench → Prop
  | .error f, w => Over config steps w₀ (.error f) w
  | .ok (.done y), w => Over config steps w₀ (.ok y) w
  | .ok (.wait _ ks), w | .ok (.turn ks), w => Scene config steps w₀ w ks

/-- A session is over once the extension is switched off, whatever came of that. -/
theorem left_stands {a : Act Workbench Step} (hplayed : Played steps w₀ rest w)
    (hall : outcome.isOk = true → rest = [])
    (ha : Ends a w (Switching config w .off since)) :
    Ends (Step.calling a (.sessionOver outcome) (sessionOver outcome)) w
      (Stands config steps w₀) := by
  have hover (r : Except Failure Reply) {w' : Workbench} (hi : w'.Inactive config)
      (hd : Delivers [] w w') : Ends (sessionOver outcome r) w' (Stands config steps w₀) := by
    have hplayed' := hplayed.offstage hd
    unfold sessionOver
    refine .bind (.ofExcept ?_)
    cases r with
    | error f => exact ⟨hi, rest, hplayed', fun h => by cases h⟩
    | ok y =>
      refine .bind (.ofExcept ?_)
      cases outcome with
      | error f => exact ⟨hi, rest, hplayed', fun h => by cases h⟩
      | ok y => exact .pure ⟨hi, rest, hplayed', hall⟩
  refine .called (ha.mono fun x w' h => ?_)
  obtain ⟨hholds, hp, hd⟩ := h
  rcases x with f | y | ⟨f, ks⟩ | ks
  · exact hover (.error f) hholds hd
  · exact hover (.ok y) hholds hd
  · exact .leaving hp (hplayed.offstage hd) hall hholds
  · exact .leaving hp (hplayed.offstage hd) hall hholds

section Stands

variable
  (hv : Relay.formattingOptions (Config.tabSize config) (Config.insertSpaces config) = .ok v)
include hv

/-- **The extension is switched off** whatever became of the script. -/
theorem played_stands {a : Act Workbench Step} (ha : Ends a w (Reaches config steps w₀)) :
    Ends (Step.calling a .sessionPlayed sessionPlayed) w (Stands config steps w₀) := by
  have hplayed (outcome : Except Failure Reply) {rest : List ScriptStep} {w' : Workbench}
      (h : Midway config steps w₀ rest w') (hall : outcome.isOk = true → rest = []) :
      Ends (sessionPlayed outcome) w' (Stands config steps w₀) :=
    left_stands h.played hall (act_switches hv h.present (.inr h.engaged) .off)
  refine .called (ha.mono fun x w' h => ?_)
  rcases x with f | y | ⟨f, ks⟩ | ks
  · obtain ⟨rest, h⟩ := h
    exact hplayed (.error f) h fun h => by cases h
  · exact hplayed (.ok y) h fun _ => rfl
  · obtain ⟨rest, hk, h⟩ := h
    exact .playing hk h
  · obtain ⟨rest, hk, h⟩ := h
    exact .playing hk h

/-- **The script is played** if the extension could be switched on. -/
theorem entered_stands {a : Act Workbench Step} (hd : Delivers [] w₀ w)
    (ha : Ends a w (Switching config w .on since)) :
    Ends (Step.calling a (.sessionActive (some steps)) (sessionActive (some steps))) w
      (Stands config steps w₀) := by
  refine .called (ha.mono fun x w' h => ?_)
  obtain ⟨hholds, hp, hd'⟩ := h
  have hplayed : Played steps w₀ steps w' := .begin (hd.trans hd')
  rcases x with f | y | ⟨f, ks⟩ | ks
  · exact .bind (.throw ⟨hholds, steps, hplayed, fun h => by cases h⟩)
  · exact .bind (.pure (played_stands hv (play_reaches ⟨⟨since, hholds⟩, hp, hplayed⟩)))
  · exact .entering hp (hd.trans hd') hholds
  · exact .entering hp (hd.trans hd') hholds

theorem session_stands (hi : w.Inactive config) (hp : Present w) :
    Ends (session (some steps)) w (Stands config steps w) :=
  entered_stands hv (refl_of (Delivers []) w) (act_switches hv hp (.inl hi) .on)

/-- **A session goes on** with whatever comes of what it waits for. -/
theorem Scene.goesOn (h : Scene config steps w₀ w ks) (r : Except Failure Reply) :
    Ends (resumeAll ks r) w (Stands config steps w₀) := by
  cases h with
  | entering hp hd h =>
    rw [resumeAll_concat]
    exact entered_stands hv hd (resumeAll_switches hv hp h r)
  | playing hk h =>
    rw [resumeAll_concat]
    exact played_stands hv (resumed_reaches hk h r)
  | leaving hp hplayed hall h =>
    rw [resumeAll_concat]
    exact left_stands hplayed hall (resumeAll_switches hv hp h r)

end Stands

/-! ### What others do in the meantime -/

theorem Scene.meanwhile (h : Scene config steps w₀ w ks) (ha : Aside w w') (hd : Delivers [] w w') :
    Scene config steps w₀ w' ks := by
  cases h with
  | entering hp hd₀ h => exact .entering (ha.present hp) (hd₀.trans hd) (h.aside ha)
  | playing hk h => exact .playing hk (h.offstage ha hd)
  | leaving hp hplayed hall h =>
    exact .leaving (ha.present hp) (hplayed.offstage hd) hall (h.aside ha)

theorem Stands.meanwhile (h : Stands config steps w₀ x w) (ha : Aside w w')
    (hd : Delivers [] w w') : Stands config steps w₀ x w' := by
  have hover {r : Except Failure Reply} (h : Over config steps w₀ r w) :
      Over config steps w₀ r w' := by
    obtain ⟨hi, rest, hplayed, hall⟩ := h
    exact ⟨ha.inactive hi, rest, hplayed.offstage hd, hall⟩
  rcases x with f | y | ⟨f, ks⟩ | ks
  · exact hover h
  · exact hover h
  · exact Scene.meanwhile h ha hd
  · exact Scene.meanwhile h ha hd

/-- Going on as far as possible stays offstage if everything that is left to do does. -/
theorem resumeAll_offstage (h : Resumption.All Resumption.offstage ks) (r : Except Failure Reply) :
    Keeps Offstage (resumeAll ks r) := by
  induction ks generalizing r with
  | nil =>
    unfold resumeAll
    infer_instance
  | cons k ks ih =>
    obtain ⟨hk, hks⟩ := List.forall_mem_cons.1 h
    have := resume_offstage hk r
    have (r : Except Failure Reply) := ih hks r
    unfold resumeAll
    refine .andThen fun x => ?_
    split <;> infer_instance

instance offstage_onTask (t : TaskId) (f : Task → Task) : Keeps Offstage (onTask t f) := by
  unfold onTask
  infer_instance

instance offstage_endTask (outcome : FutureId) (r : Except Failure Reply) :
    Keeps Offstage (endTask outcome r) := by
  unfold endTask
  refine .andThen fun _ => ?_
  cases r with
  | ok y => exact Keeps.pure _
  | error f => infer_instance

instance offstage_suspend (t : TaskId) (f : FutureId) (rest : List Resumption) :
    Keeps Offstage (suspend t f rest) := by
  unfold suspend
  refine .andThen fun _ => .andThen fun _ => .andThen fun w => ?_
  infer_instance

instance offstage_formatted (uri : String) (e : Ending Reply) :
    Keeps Offstage (Relay.formatted uri e : Act Workbench Unit) := by
  unfold Relay.formatted
  split <;> infer_instance

/-- A turn of an activity stays offstage if everything that it has left to do does. -/
theorem stepTask_offstage {t : TaskId}
    (h : Resumption.All Resumption.offstage (w.link.tasks.getD t default).rest) :
    Ends (stepTask t) w fun _ => Offstage w := by
  have := resumeAll_offstage h
  refine .read (.read ?_)
  split
  · exact .pure (refl_of Offstage w)
  · refine Keeps.ends (.andThen fun r => .andThen fun _ => .andThen fun x => ?_) w
    split <;> infer_instance

/-- **Whatever the loop does for others** stays offstage. -/
theorem doJob_offstage {j : Job} (h : ∀ t, j.turn? = some t →
      Resumption.All Resumption.offstage (w.link.tasks.getD t default).rest) :
    Ends (doJob j) w fun _ => Offstage w := by
  cases j with
  | step t => exact stepTask_offstage (h t rfl)
  | call k f =>
    cases k with
    | wake t => exact stepTask_offstage (h t rfl)
    | formatted uri =>
      refine Keeps.ends (.andThen fun e => ?_) w
      split <;> infer_instance
    | gone => exact (offstage_serverGone f).ends w
    | release | copy | forgetCopy | unregister | pass => exact (offstage_onLink _).ends w
  | release | react | die => exact (offstage_onLink _).ends w

/-! ### Courses of sessions -/

/-- **A session that plays a script**, begun in a state: what came of its last steps, and the state
they left.  It goes on with whatever comes of what it waits for. -/
inductive Replay (steps : List ScriptStep) (w₀ : Workbench) :
    Except Failure Step → Workbench → Prop
  | begins {x : Except Failure Step} {w : Workbench} (h : Gives (session (some steps)) w₀ x w) :
    Replay steps w₀ x w
  | goesOn {step : Step} {x : Except Failure Step} {w w' : Workbench} {r : Except Failure Reply}
    (h : Replay steps w₀ (.ok step) w) (hs : step.rest ≠ [])
    (hg : Gives (resumeAll step.rest r) w x w') : Replay steps w₀ x w'
  | meanwhile {x : Except Failure Step} {w w' : Workbench} (h : Replay steps w₀ x w)
    (ha : Aside w w') (hd : Delivers [] w w') : Replay steps w₀ x w'

/-- A session that waits goes on with a reply. -/
theorem Replay.replied (h : Replay steps w₀ x w) (hx : x.toOption.elim [] Step.rest ≠ [])
    (y : Reply) : Replay steps w₀ (resumeAll (x.toOption.elim [] Step.rest) (.ok y) ⟨{}, w⟩).1
      (resumeAll (x.toOption.elim [] Step.rest) (.ok y) ⟨{}, w⟩).2.state := by
  cases x with
  | error f => exact absurd rfl hx
  | ok step => exact .goesOn h hx ⟨{}, rfl, rfl⟩

theorem Replay.stands
    (hv : Relay.formattingOptions (Config.tabSize config) (Config.insertSpaces config) = .ok v)
    (hi : w₀.Inactive config) (hp : Present w₀) (h : Replay steps w₀ x w) :
    Stands config steps w₀ x w := by
  induction h with
  | begins h => exact h.elim (session_stands hv hi hp)
  | @goesOn step x w w' r h hs hg ih =>
    have hscene : Scene config steps w₀ w step.rest := by
      cases step with
      | done y => exact absurd rfl hs
      | wait f ks => exact ih
      | turn ks => exact ih
    exact hg.elim (hscene.goesOn hv r)
  | meanwhile h ha hd ih => exact ih.meanwhile ha hd

/-- **The jobs of the loop for others** are among what goes on in the meantime. -/
theorem Replay.works {j : Job} {r : Except Failure Unit} (h : Replay steps w₀ x w)
    (hj : ∀ t, j.turn? = some t →
      Resumption.All Resumption.offstage (w.link.tasks.getD t default).rest)
    (hg : Gives (doJob j) w r w') : Replay steps w₀ x w' := by
  have hoffstage := hg.elim (doJob_offstage hj)
  exact .meanwhile h hoffstage.aside hoffstage.delivers

/-- **The turns of a session** in the loop are how it goes on. -/
theorem Replay.turn {t : TaskId} {step : Step} (h : Replay steps w₀ (.ok step) w)
    (hs : step.rest ≠ []) (hrest : (w.link.tasks.getD t default).rest = step.rest) :
    Ends (stepTask t) w fun _ w' => ∃ x, Replay steps w₀ x w' := by
  have hoffstage {α : Type} {a : Act Workbench α} {x : Except Failure Step} {w : Workbench}
      (ha : Keeps Offstage a) (h : Replay steps w₀ x w) :
      Ends a w fun _ w' => ∃ x, Replay steps w₀ x w' :=
    (ha.ends w).mono fun _ _ ho => ⟨x, .meanwhile h ho.aside ho.delivers⟩
  refine .read (.read ?_)
  by_cases hover : w.link.loop.done (w.link.tasks.getD t default).outcome = true
  · rw [if_pos hover]
    exact .pure ⟨_, h⟩
  rw [if_neg hover]
  refine .read (.bind (((offstage_onTask t _).ends w).mono fun r w₁ ho => ?_))
  have h₁ : Replay steps w₀ (.ok step) w₁ := .meanwhile h ho.aside ho.delivers
  cases r with
  | error f => exact ⟨_, h₁⟩
  | ok _ =>
    rw [hrest]
    refine .bind (.outcome ((Ends.gives (resumeAll step.rest _) w₁).mono fun x w₂ hx => ?_))
    have h₂ : Replay steps w₀ x w₂ := .goesOn h₁ hs hx
    rcases x with f | ⟨y | ⟨f, ks⟩ | ks⟩
    · exact hoffstage inferInstance h₂
    · refine .read ?_
      split <;> exact hoffstage inferInstance h₂
    · exact hoffstage inferInstance h₂
    · exact hoffstage inferInstance h₂

/-- How a session stands, said of what it has delivered. -/
theorem Stands.delivered (h : Stands config steps w₀ x w) :
    ∃ rest, Played steps w₀ rest w ∧ (Ceases x → w.Inactive config) ∧
      ∀ y, x = .ok (.done y) → rest = [] := by
  have hscene {ks : List Resumption} (h : Scene config steps w₀ w ks) :
      ∃ rest, Played steps w₀ rest w := by
    cases h with
    | entering hp hd h => exact ⟨steps, .begin hd⟩
    | playing hk h => exact ⟨_, h.played⟩
    | leaving hp hplayed hall h => exact ⟨_, hplayed⟩
  rcases x with f | y | ⟨f, ks⟩ | ks
  · obtain ⟨hi, rest, hplayed, -⟩ := h
    exact ⟨rest, hplayed, fun _ => hi, fun _ hy => by cases hy⟩
  · obtain ⟨hi, rest, hplayed, hall⟩ := h
    exact ⟨rest, hplayed, fun _ => hi, fun _ _ => hall rfl⟩
  · obtain ⟨rest, hplayed⟩ := hscene h
    exact ⟨rest, hplayed, False.elim, fun _ hy => by cases hy⟩
  · obtain ⟨rest, hplayed⟩ := hscene h
    exact ⟨rest, hplayed, False.elim, fun _ hy => by cases hy⟩

/-- **How a session goes and ends.**  Whatever comes of what it waits for, the outcomes of its first
steps are delivered in their order, as one line each or none where there is no result, and nothing
else is printed.  Once it is over the extension is inactive, and if nothing has failed then all
steps were played. -/
theorem Replay.goes_inOrder
    (hv : Relay.formattingOptions (Config.tabSize config) (Config.insertSpaces config) = .ok v)
    (hi : w₀.Inactive config) (hp : Present w₀) (h : Replay steps w₀ x w) :
    ∃ done rest os, steps = done ++ rest ∧ List.Forall₂ ScriptStep.Brings done os ∧
      w.outcomes = w₀.outcomes ++ os ∧
      w.printed = w₀.printed.map (fun p => (p.1, p.2 ++ String.join (os.map (·.line p.1)))) ∧
      (∀ o ∈ os, o.line .json = "" ∨ ∃ s, o.line .json = s ++ "\n" ∧ '\n' ∉ s.toList) ∧
      (Ceases x → w.Inactive config) ∧ ∀ y, x = .ok (.done y) → rest = [] := by
  obtain ⟨rest, ⟨done, os, hsteps, hos, hd⟩, hceases, hall⟩ := (h.stands hv hi hp).delivered
  exact ⟨done, rest, os, hsteps, hos, hd.outcomes, hd.printed, fun o _ => o.line_json, hceases,
    hall⟩

/-- A script that opens a document, changes it and lets the others have a turn, and whose last step
closes a document that is not open. -/
def notOpen : List ScriptStep := [
  ⟨1, "open", .record "OpenStep" [("uri", .str "file:///a.py"), ("text", .str "x"),
    ("language_id", .str "python"), ("version", .int 1)]⟩,
  ⟨2, "change", .record "ChangeStep" [("uri", .str "file:///a.py"), ("text", .str "y")]⟩,
  ⟨3, "wait", .record "WaitStep" [("seconds", .int 0)]⟩,
  ⟨4, "close", .record "CloseStep" [("uri", .str "file:///b.py")]⟩]

/-- The first three steps deliver their outcomes, a line is printed about the change, and the
extension is inactive when the script has failed. -/
theorem Replay.goes_inOrder_notOpen :
    let w₀ : Workbench := { link := { recording := true }, console := some {} }
    ∃ x w os, Replay notOpen w₀ x w ∧ Ceases x ∧ w.Inactive Config.defaults ∧
      List.Forall₂ ScriptStep.Brings (notOpen.take 3) os ∧ w.outcomes = os ∧
      w.printed = some (.json,
        "\x7b\"step\": 2, \"kind\": \"change\", \"uri\": \"file:///a.py\", \"result\": 2\x7d\n")
      := by
  intro w₀
  have hi : w₀.Inactive Config.defaults := ⟨rfl, List.not_mem_nil⟩
  have hp : Present w₀ :=
    ⟨fun _ h => absurd h List.not_mem_nil, fun _ h => absurd h List.not_mem_nil⟩
  obtain ⟨v, hv⟩ : ∃ v, Relay.formattingOptions (Config.tabSize Config.defaults)
      (Config.insertSpaces Config.defaults) = .ok v := ⟨_, rfl⟩
  -- the run is evaluated before its states get names, so that nothing evaluates it again
  obtain ⟨x, w, hs, hfails, houtcomes, hprinted⟩ : ∃ x w, Replay notOpen w₀ x w ∧
      x.toOption.isNone = true ∧ w.outcomes.length = 3 ∧ w.printed = some (.json,
        "\x7b\"step\": 2, \"kind\": \"change\", \"uri\": \"file:///a.py\", \"result\": 2\x7d\n") :=
    ⟨_, _, (Replay.begins ⟨{}, rfl, rfl⟩).replied (by decide +kernel) .nothing,
      by decide +kernel⟩
  have hceases : Ceases x := by
    cases x with
    | error f => trivial
    | ok step => cases hfails
  obtain ⟨done, rest, os, hsteps, hos, hw, -, -, hinactive, -⟩ := Replay.goes_inOrder hv hi hp hs
  have hlength : done.length = 3 := by
    rw [hos.length_eq, ← houtcomes, hw]
    rfl
  have hdone : notOpen.take 3 = done := by rw [hsteps, ← hlength, List.take_left]
  exact ⟨x, w, os, hs, hceases, hinactive hceases, hdone ▸ hos, hw, hprinted⟩

end Workbench

end EditorBridge
