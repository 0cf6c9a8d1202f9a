/-
Playing a script.

A script is played one step after the other, and it pauses when a step has to wait.
`Midway` is what holds all the time: the outcomes of the steps that were played have been
delivered, one for each and in their order, and the extension is active.  What is left of a
script at a pause are the steps from the one that waits, so the induction is on these:
whatever a pause comes to, its step delivers its outcome and the next ones follow, or the
script fails and what was delivered stays.
-/
import Mathlib.Data.List.Forall2
import EditorBridge.Proofs.Activities
import EditorBridge.Proofs.Session.Delivery

namespace EditorBridge

open Act (Ends Keeps Reads)

namespace ScriptStep

/-- Whether a step is a query of the editor. -/
def IsQuery (s : ScriptStep) : Prop := s.name ∉ ["wait", "open", "change", "save", "close"]

/-- What a step brings about: a query the answer, a change the new version, anything else nothing
that would be printed.  All but a pause are about a document. -/
inductive Brings (s : ScriptStep) : Outcome → Prop
  | pause (h : s.name = "wait") : Brings s { place := s.place, kind := s.name }
  | deed (h : s.name ∈ ["open", "save", "close"]) (uri : String) :
    Brings s { place := s.place, kind := s.name, uri := some uri }
  | change (h : s.name = "change") (uri : String) (version : Int) :
    Brings s { place := s.place, kind := s.name, uri := some uri, result := .int version }
  | query (h : s.IsQuery) (uri : String) (r : Reply) :
    Brings s {
      place := s.place, kind := s.name, uri := some uri, result := Workbench.resultValue r }

end ScriptStep

namespace Workbench

variable {w w' w'' w₀ : Workbench} {os os' : List Outcome} {s : ScriptStep}

/-! ### One step -/

/-- These outcomes were delivered, and the extension was left alone. -/
structure Performs (os : List Outcome) (w w' : Workbench) : Prop where
  aside : Aside w w'
  delivers : Delivers os w w'

theorem Performs.trans (h : Performs os w w') (h' : Performs os' w' w'') :
    Performs (os ++ os') w w'' :=
  ⟨trans_of Aside h.aside h'.aside, h.delivers.trans h'.delivers⟩

theorem Offstage.performs (h : Offstage w w') : Performs [] w w' := ⟨h.aside, h.delivers⟩

/-- A step delivers its outcome, or fails before. -/
inductive Plays (s : ScriptStep) (w : Workbench) (r : Except Failure Unit) (w' : Workbench) : Prop
  | fails {f : Failure} (hr : r = .error f) (h : Performs [] w w')
  | delivers {o : Outcome} (ho : s.Brings o) (h : Performs [o] w w')

namespace Plays

/-- What goes on offstage may come before. -/
theorem after {α : Type} {a : Act Workbench α} {f : α → Act Workbench Unit} [ha : Keeps Offstage a]
    (hf : ∀ x w, Ends (f x) w (Plays s w)) (w : Workbench) : Ends (a >>= f) w (Plays s w) := by
  refine .bind ((ha.ends w).mono fun r w₁ h₁ => ?_)
  cases r with
  | error f => exact .fails rfl h₁.performs
  | ok x =>
    refine (hf x w₁).mono fun r w' h => ?_
    cases h with
    | fails hr h => exact .fails hr (h₁.performs.trans h)
    | delivers ho h => exact .delivers ho (h₁.performs.trans h)

end Plays

theorem deliver_plays {o : Outcome} (ho : s.Brings o) (w : Workbench) :
    Ends (deliver o) w (Plays s w) :=
  (deliver_ends o w).mono fun _ _ h => .delivers ho ⟨h.2, h.1⟩

theorem deliverFor_plays {uri : String} {result : Value}
    (ho : s.Brings { place := s.place, kind := s.name, uri := some uri, result }) (w : Workbench) :
    Ends (deliverFor s uri result) w (Plays s w) := deliver_plays ho w

instance offstage_uriOf (s : ScriptStep) : Keeps Offstage (uriOf s) := by
  unfold uriOf
  split <;> infer_instance

instance offstage_openDocumentOf (s : ScriptStep) : Keeps Offstage (openDocumentOf s) := by
  unfold openDocumentOf
  refine .andThen fun u => .andThen fun d => ?_
  split <;> infer_instance

instance offstage_beginQuery (s : ScriptStep) : Keeps Offstage (beginQuery s) := by
  unfold beginQuery
  infer_instance

theorem playOpen_plays (h : s.name = "open") (w : Workbench) : Ends (playOpen s) w (Plays s w) := by
  unfold playOpen
  refine Plays.after (fun u => Plays.after fun d => Plays.after fun x => ?_) w
  exact deliverFor_plays (.deed (by simp [h]) x.identity)

theorem playChange_plays (h : s.name = "change") (w : Workbench) :
    Ends (playChange s) w (Plays s w) := by
  have hend (d : DocumentId) (w : Workbench) : Ends (do
      deliverFor s (← document d).identity (.int (← document d).version)) w (Plays s w) := by
    refine Plays.after (fun x => Plays.after fun y => ?_) w
    exact deliverFor_plays (.change h x.identity y.version)
  unfold playChange
  refine Plays.after (fun d w => ?_) w
  dsimp only
  split
  · refine Plays.after (fun _ w => ?_) w
    split
    · exact Plays.after (fun _ => Plays.after fun _ => hend d) w
    · exact hend d w
  · split
    · exact Plays.after (fun _ => Plays.after fun _ => hend d) w
    · exact hend d w

theorem deliverReply_plays (h : s.IsQuery) (uri : String) (r : Except Failure Reply)
    (w : Workbench) : Ends (deliverReply s uri r) w (Plays s w) := by
  unfold deliverReply
  exact Plays.after (fun reply => deliverFor_plays (.query h uri reply)) w

theorem deliverPause_plays (h : s.name = "wait") (r : Except Failure Reply) (w : Workbench) :
    Ends (deliverPause s r) w (Plays s w) := by
  unfold deliverPause
  exact Plays.after (fun _ => deliver_plays (.pause h)) w

/-! ### Pauses -/

section Script

variable {config : Value} {steps rest : List ScriptStep}

/-- **A script was played up to the steps that are left**, from a state on: the steps before them
have delivered one outcome each, in their order. -/
def Played (steps : List ScriptStep) (w₀ : Workbench) (rest : List ScriptStep) (w : Workbench) :
    Prop :=
  ∃ done os, steps = done ++ rest ∧ List.Forall₂ ScriptStep.Brings done os ∧ Delivers os w₀ w

/-- A script was played that far, and the extension is active. -/
structure Midway (config : Value) (steps : List ScriptStep) (w₀ : Workbench)
    (rest : List ScriptStep) (w : Workbench) : Prop where
  engaged : ∃ since, w.Engaged config since
  present : Present w
  played : Played steps w₀ rest w

/-- What a script has left to do when its next step has to wait. -/
inductive Pause : List ScriptStep → List Resumption → Prop
  | waiting {s : ScriptStep} {rest : List ScriptStep} (h : s.name = "wait") :
    Pause (s :: rest) [.waited s rest]
  | interrupting {s : ScriptStep} {rest : List ScriptStep} (h : s.IsQuery) (token : TokenId)
    (answer : FutureId) (uri : String) : Pause (s :: rest) [.interrupting token answer s uri rest]
  | asking {s : ScriptStep} {rest : List ScriptStep} (h : s.IsQuery) (uri : String) :
    Pause (s :: rest) [.reply, .queried s uri rest]

/-- How far a script gets in one go. -/
def Reaches (config : Value) (steps : List ScriptStep) (w₀ : Workbench) :
    Except Failure Step → Workbench → Prop
  | .error _, w => ∃ rest, Midway config steps w₀ rest w
  | .ok (.done _), w => Midway config steps w₀ [] w
  | .ok (.wait _ ks), w | .ok (.turn ks), w =>
    ∃ rest, Pause rest ks ∧ Midway config steps w₀ rest w

namespace Played

theorem begin (h : Delivers [] w₀ w) : Played steps w₀ steps w := ⟨[], [], rfl, .nil, h⟩

theorem offstage (h : Played steps w₀ rest w) (hd : Delivers [] w w') :
    Played steps w₀ rest w' := by
  obtain ⟨done, os, hsteps, hos, hdelivers⟩ := h
  refine ⟨done, os, hsteps, hos, ?_⟩
  rw [← List.append_nil os]
  exact hdelivers.trans hd

/-- One more step was played. -/
theorem next {o : Outcome} (h : Played steps w₀ (s :: rest) w) (ho : s.Brings o)
    (hd : Delivers [o] w w') : Played steps w₀ rest w' := by
  obtain ⟨done, os, hsteps, hos, hdelivers⟩ := h
  refine ⟨done ++ [s], os ++ [o], ?_, List.rel_append hos (.cons ho .nil), hdelivers.trans hd⟩
  rw [hsteps, List.append_assoc, List.singleton_append]

end Played

namespace Midway

theorem offstage (h : Midway config steps w₀ rest w) (ha : Aside w w') (hd : Delivers [] w w') :
    Midway config steps w₀ rest w' := by
  obtain ⟨⟨since, he⟩, hp, hplayed⟩ := h
  exact ⟨⟨since, ha.engaged he⟩, ha.present hp, hplayed.offstage hd⟩

theorem next {o : Outcome} (h : Midway config steps w₀ (s :: rest) w) (ho : s.Brings o)
    (hw : Performs [o] w w') : Midway config steps w₀ rest w' := by
  obtain ⟨⟨since, he⟩, hp, hplayed⟩ := h
  exact ⟨⟨since, hw.aside.engaged he⟩, hw.aside.present hp, hplayed.next ho hw.delivers⟩

/-- What goes on offstage may come before. -/
theorem after {α : Type} {a : Act Workbench α} {f : α → Act Workbench Step} [ha : Keeps Offstage a]
    (hf : ∀ x w, Midway config steps w₀ rest w → Ends (f x) w (Reaches config steps w₀))
    (h : Midway config steps w₀ rest w) : Ends (a >>= f) w (Reaches config steps w₀) := by
  refine .bind ((ha.ends w).mono fun r w₁ h₁ => ?_)
  have hmidway := h.offstage h₁.aside h₁.delivers
  cases r with
  | error f => exact ⟨_, hmidway⟩
  | ok x => exact hf x w₁ hmidway

/-- A step is played, and then the others. -/
theorem andThen {a : Act Workbench Unit} {go : Act Workbench Step}
    (h : Midway config steps w₀ (s :: rest) w) (ha : Ends a w (Plays s w))
    (hgo : ∀ w, Midway config steps w₀ rest w → Ends go w (Reaches config steps w₀)) :
    Ends (Workbench.andThen a go) w (Reaches config steps w₀) := by
  refine .bind (ha.mono fun r w' hr => ?_)
  cases r with
  | error f =>
    cases hr with
    | fails _ hp => exact ⟨_, h.offstage hp.aside hp.delivers⟩
    | delivers ho hp => exact ⟨_, h.next ho hp⟩
  | ok _ =>
    cases hr with
    | fails hr => cases hr
    | delivers ho hp => exact hgo w' (h.next ho hp)

end Midway

/-- A pause lets the others have a turn, or waits. -/
theorem pause_ends (time : Int) (k : Resumption) (l : Link) : Ends (pause time k) l fun r _ =>
    r = .ok (.turn [k]) ∨ ∃ f, r = .ok (.wait f [k]) := by
  unfold pause
  split
  · exact .pure (.inl rfl)
  · refine .bind (Link.newFuture_ends.mono fun r l' h => ?_)
    obtain ⟨rfl, rfl⟩ := h
    exact .bind (.read (.change_bind (.pure (.pure (.inr ⟨_, rfl⟩)))))

/-- The answer to a query is there, or it is waited for. -/
theorem awaitAnswer_ends (answer : FutureId) (w : Workbench) :
    Ends (onLink (Link.awaiting answer .reply fun r => return .done (← Act.ofExcept r))) w
      fun r w' => w' = w ∧ ∀ x, r = .ok x → (∃ y, x = .done y) ∨ ∃ f, x = .wait f [.reply] := by
  refine .on (.read ?_)
  split
  · rename_i e _
    refine .bind (.ofExcept ?_)
    cases e.toExcept with
    | ok y => exact .pure ⟨rfl, fun x hx => by cases hx; exact .inl ⟨y, rfl⟩⟩
    | error f => exact ⟨rfl, fun x hx => by cases hx⟩
  · exact .pure ⟨rfl, fun x hx => by cases hx; exact .inr ⟨_, rfl⟩⟩

/-- The answer to a query is waited for, and then the next steps are played. -/
theorem asking_ends {answer : FutureId} {uri : String}
    {go : Except Failure Reply → Act Workbench Step}
    (hs : s.IsQuery) (h : Midway config steps w₀ (s :: rest) w)
    (hgo : ∀ r w, Midway config steps w₀ (s :: rest) w → Ends (go r) w (Reaches config steps w₀)) :
    Ends (Step.calling
      (onLink (Link.awaiting answer .reply fun r => return .done (← Act.ofExcept r)))
      (.queried s uri rest) go) w (Reaches config steps w₀) := by
  refine .called ((awaitAnswer_ends answer w).mono fun r w' hr => ?_)
  obtain ⟨rfl, hr⟩ := hr
  cases r with
  | error f => exact hgo _ _ h
  | ok x =>
    rcases hr x rfl with ⟨y, rfl⟩ | ⟨f, rfl⟩
    · exact hgo _ _ h
    · exact ⟨_, .asking hs uri, h⟩

/-- **The steps that are left** are played as far as possible. -/
theorem play_reaches (h : Midway config steps w₀ rest w) :
    Ends (play rest) w (Reaches config steps w₀) := by
  induction rest generalizing w with
  | nil => exact .pure h
  | cons s rest ih =>
    have hnext {a : Act Workbench Unit} (w : Workbench) (hw : Midway config steps w₀ (s :: rest) w)
        (ha : ∀ w, Ends a w (Plays s w)) :
        Ends (andThen a (play rest)) w (Reaches config steps w₀) :=
      hw.andThen (ha w) fun _ => ih
    unfold play
    refine .bind (.logBuilt ?_ fun f _ => ⟨_, h⟩)
    show Ends _ w _
    split
    · rename_i hname
      refine (offstage_onLink _).knowing (.on ((pause_ends _ _ w.link).mono fun r l hr hw => ?_))
      have hmidway := h.offstage hw.aside hw.delivers
      rcases hr with rfl | ⟨f, rfl⟩ <;> exact ⟨_, .waiting hname, hmidway⟩
    · rename_i hname
      exact hnext w h (playOpen_plays hname)
    · rename_i hname
      exact hnext w h (playChange_plays hname)
    · rename_i hname
      refine Midway.after (fun d w hw => ?_) h
      refine Midway.after (fun d' w hw => Midway.after (fun x w hw => ?_) hw) hw
      exact hnext w hw (deliverFor_plays (.deed (by simp [hname]) x.identity))
    · rename_i hname
      refine Midway.after (fun d w hw => ?_) h
      refine Midway.after (fun d' w hw => Midway.after (fun x w hw => ?_) hw) hw
      exact hnext w hw (deliverFor_plays (.deed (by simp [hname]) x.identity))
    · rename_i hwait hopen hchange hsave hclose
      have hs : s.IsQuery := by
        simp only [ScriptStep.IsQuery, List.mem_cons, List.not_mem_nil, or_false, not_or]
        exact ⟨hwait, hopen, hchange, hsave, hclose⟩
      refine Midway.after (fun x w hw => ?_) h
      obtain ⟨token, answer, uri⟩ := x
      dsimp only
      split
      · exact .pure ⟨_, .interrupting hs token answer uri, hw⟩
      · exact asking_ends hs hw fun r w hw => hnext w hw (deliverReply_plays hs uri r)

/-! ### Going on -/

/-- **After a pause** the step that waited is over, or has failed, and the next ones are played. -/
theorem resumed_reaches {ks : List Resumption} (hk : Pause rest ks)
    (h : Midway config steps w₀ rest w) (r : Except Failure Reply) :
    Ends (resumeAll ks r) w (Reaches config steps w₀) := by
  cases hk with
  | @waiting s rest hs =>
    rw [resumeAll_singleton]
    exact h.andThen (deliverPause_plays hs r w) fun _ => play_reaches
  | @interrupting s rest hs token answer uri =>
    rw [resumeAll_singleton]
    refine Midway.after (fun _ w hw => Midway.after (fun _ w hw => ?_) hw) h
    exact asking_ends hs hw fun r w hw =>
      hw.andThen (deliverReply_plays hs uri r w) fun _ => play_reaches
  | @asking s rest hs uri =>
    have hnext (r : Except Failure Reply) :
        Ends (resumeAll [.queried s uri rest] r) w (Reaches config steps w₀) := by
      rw [resumeAll_singleton]
      exact h.andThen (deliverReply_plays hs uri r w) fun _ => play_reaches
    rw [resumeAll]
    refine .bind (.outcome ?_)
    cases r with
    | ok y => exact .bind (.pure (.pure (hnext _)))
    | error f => exact .bind (.throw (hnext _))

end Script

end Workbench

end EditorBridge
