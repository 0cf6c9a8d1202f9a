/-
Activities from their beginning to their end.

An activity that has to wait goes on later, with what has become of that which it waited for, and
by then others may have changed everything.  So an activity is followed along what it was told
when it went on, one entry for each time (`Concludes`); between two entries anything may have
happened.

Somebody who calls an activity goes on when it has ended, however often it had to wait
(`concludes_calling`).
-/
import EditorBridge.Editor.Run
import EditorBridge.Proofs.Act

namespace EditorBridge.Workbench

variable {e e₁ e' : Env Workbench} {x y : Except Failure Reply}

/-! ### Going on -/

/-- The last thing that is left to do is all that is left. -/
theorem resumeAll_singleton (k : Resumption) (r : Except Failure Reply) :
    resumeAll [k] r = resume k r := by
  funext e
  simp only [resumeAll, Act.run_bind, Act.outcome]
  rcases resume k r e with ⟨f | (y | ⟨f, ks⟩ | ks), e'⟩
  · rfl
  · rfl
  · simp only [List.append_nil]
    rfl
  · simp only [List.append_nil]
    rfl

/-- Somebody who called goes on with what came of all that was left to do before. -/
theorem resumeAll_concat (ks : List Resumption) (k : Resumption) (r : Except Failure Reply) :
    resumeAll (ks ++ [k]) r = Step.calling (resumeAll ks r) k (resume k) := by
  funext e
  induction ks generalizing r e with
  | nil =>
    rw [List.nil_append, resumeAll_singleton]
    cases r <;> rfl
  | cons k' ks ih =>
    have hmore (r : Except Failure Reply) (e : Env Workbench) := (ih r e).symm
    simp only [Step.calling, Act.run_bind, Act.outcome] at hmore
    simp only [List.cons_append, resumeAll, Step.calling, Act.run_bind, Act.outcome]
    rcases resume k' r e with ⟨f | (y | ⟨f, more⟩ | more), e'⟩
    · exact (hmore (.error f) e').symm
    · exact (hmore (.ok y) e').symm
    · dsimp only
      rw [← List.append_assoc]
      rfl
    · dsimp only
      rw [← List.append_assoc]
      rfl

/-! ### To the end -/

/-- What an activity is told when it goes on, and how everything stands by then. -/
abbrev Tidings := List (Except Failure Reply × Env Workbench)

/-- An activity comes to an end, after it went on with these tidings. -/
inductive Concludes : Act Workbench Step → Env Workbench → Tidings → Except Failure Reply →
    Env Workbench → Prop
  | done {a : Act Workbench Step} {e e' : Env Workbench} {y : Reply}
    (h : a e = (.ok (.done y), e')) : Concludes a e [] (.ok y) e'
  | failed {a : Act Workbench Step} {e e' : Env Workbench} {f : Failure}
    (h : a e = (.error f, e')) : Concludes a e [] (.error f) e'
  | wait {a : Act Workbench Step} {e e₁ e₂ e' : Env Workbench} {f : FutureId}
    {ks : List Resumption} {r y : Except Failure Reply} {told : Tidings}
    (h : a e = (.ok (.wait f ks), e₁)) (hrest : Concludes (resumeAll ks r) e₂ told y e') :
    Concludes a e ((r, e₂) :: told) y e'
  | turn {a : Act Workbench Step} {e e₁ e₂ e' : Env Workbench} {ks : List Resumption}
    {r y : Except Failure Reply} {told : Tidings}
    (h : a e = (.ok (.turn ks), e₁)) (hrest : Concludes (resumeAll ks r) e₂ told y e') :
    Concludes a e ((r, e₂) :: told) y e'

variable {a b : Act Workbench Step} {told : Tidings} {k : Resumption}

/-- Activities that begin alike end alike. -/
theorem Concludes.of_eq (h : Concludes a e told y e') (hab : b e₁ = a e) :
    Concludes b e₁ told y e' := by
  cases h with
  | done h => exact .done (hab.trans h)
  | failed h => exact .failed (hab.trans h)
  | wait h hrest => exact .wait (hab.trans h) hrest
  | turn h hrest => exact .turn (hab.trans h) hrest

theorem run_calling (a : Act Workbench Step) (k : Resumption)
    (go : Except Failure Reply → Act Workbench Step) (e : Env Workbench) :
    Step.calling a k go e = match a e with
      | (.error f, e') => go (.error f) e'
      | (.ok (.done y), e') => go (.ok y) e'
      | (.ok (.wait f ks), e') => (.ok (.wait f (ks ++ [k])), e')
      | (.ok (.turn ks), e') => (.ok (.turn (ks ++ [k])), e') := by
  simp only [Step.calling, Act.run_bind, Act.outcome]
  rcases a e with ⟨f | (y | ⟨f, ks⟩ | ks), e'⟩ <;> rfl

/-- The caller goes on once the activity has ended. -/
theorem Concludes.calling {told₁ told₂ : Tidings} (h : Concludes a e told₁ x e₁)
    (hgo : Concludes (resume k x) e₁ told₂ y e') :
    Concludes (Step.calling a k (resume k)) e (told₁ ++ told₂) y e' := by
  induction h with
  | done h | failed h => exact hgo.of_eq (by rw [run_calling, h])
  | wait h _ ih =>
    refine .wait (by rw [run_calling, h]) ?_
    rw [resumeAll_concat]
    exact ih hgo
  | turn h _ ih =>
    refine .turn (by rw [run_calling, h]) ?_
    rw [resumeAll_concat]
    exact ih hgo

/-- What a call comes to: the caller has gone on, because the activity has ended, or the activity
waits. -/
theorem calling_cases {go : Except Failure Reply → Act Workbench Step} {r : Except Failure Step}
    (h : Step.calling a k go e = (r, e')) :
    (∃ x e₁, Concludes a e [] x e₁ ∧ go x e₁ = (r, e')) ∨
    (∃ f ks, a e = (.ok (.wait f ks), e') ∧ r = .ok (.wait f (ks ++ [k]))) ∨
    ∃ ks, a e = (.ok (.turn ks), e') ∧ r = .ok (.turn (ks ++ [k])) := by
  rw [run_calling] at h
  rcases hae : a e with ⟨f | (y | ⟨f, ks⟩ | ks), e₁⟩ <;> rw [hae] at h
  · exact .inl ⟨_, _, .failed hae, h⟩
  · exact .inl ⟨_, _, .done hae, h⟩
  · cases h
    exact .inr (.inl ⟨f, ks, rfl, rfl⟩)
  · cases h
    exact .inr (.inr ⟨ks, rfl, rfl⟩)

/-- The activity that was called has ended when the caller ends. -/
theorem Concludes.of_calling (h : Concludes (Step.calling a k (resume k)) e told y e') :
    ∃ x e₁ told₁ told₂, told = told₁ ++ told₂ ∧ Concludes a e told₁ x e₁ ∧
      Concludes (resume k x) e₁ told₂ y e' := by
  generalize hb : Step.calling a k (resume k) = b at h
  -- The induction is on the way of the caller: as long as it waits for the activity, what is left
  -- of it is a call again.
  induction h generalizing a with subst hb
  | done h =>
    obtain ⟨x, e₁, hx, hgo⟩ | ⟨_, _, _, ⟨⟩⟩ | ⟨_, _, ⟨⟩⟩ := calling_cases h
    exact ⟨x, e₁, [], [], rfl, hx, .done hgo⟩
  | failed h =>
    obtain ⟨x, e₁, hx, hgo⟩ | ⟨_, _, _, ⟨⟩⟩ | ⟨_, _, ⟨⟩⟩ := calling_cases h
    exact ⟨x, e₁, [], [], rfl, hx, .failed hgo⟩
  | wait h hrest ih =>
    obtain ⟨x, e₁, hx, hgo⟩ | ⟨f, ks, ha, ⟨⟩⟩ | ⟨_, _, ⟨⟩⟩ := calling_cases h
    · exact ⟨x, e₁, [], _, rfl, hx, .wait hgo hrest⟩
    · obtain ⟨x, e₁, told₁, told₂, rfl, hx, hgo⟩ := ih (resumeAll_concat ..).symm
      exact ⟨x, e₁, _ :: told₁, told₂, rfl, .wait ha hx, hgo⟩
  | turn h hrest ih =>
    obtain ⟨x, e₁, hx, hgo⟩ | ⟨_, _, _, ⟨⟩⟩ | ⟨ks, ha, ⟨⟩⟩ := calling_cases h
    · exact ⟨x, e₁, [], _, rfl, hx, .turn hgo hrest⟩
    · obtain ⟨x, e₁, told₁, told₂, rfl, hx, hgo⟩ := ih (resumeAll_concat ..).symm
      exact ⟨x, e₁, _ :: told₁, told₂, rfl, .turn ha hx, hgo⟩

/-- **A call** ends when the activity has ended and then the caller has. -/
theorem concludes_calling : Concludes (Step.calling a k (resume k)) e told y e' ↔
    ∃ x e₁ told₁ told₂, told = told₁ ++ told₂ ∧ Concludes a e told₁ x e₁ ∧
      Concludes (resume k x) e₁ told₂ y e' :=
  ⟨Concludes.of_calling, by rintro ⟨x, e₁, told₁, told₂, rfl, hx, hgo⟩; exact hx.calling hgo⟩

end EditorBridge.Workbench
