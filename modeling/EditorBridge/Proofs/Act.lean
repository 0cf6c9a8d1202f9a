/-
What is known of an act without running it.

Two things are asked of most acts.  `Act.Ends a s Q` says how it ends when it begins in a
state: whatever the journal holds, its outcome and the state it leaves are as `Q` tells.
`Act.Keeps R a` says less, but of every state at once: however the act ends, the state it
leaves is related to the state it began in.  The first is for the few acts that matter to
a theorem, the second for all the others.  A third one is `Act.Ignores f a`: the act does
not notice the change `f` of the state.

All of them come with one rule for each way of putting acts together, so a proof about an act
follows the act.  The rules of `Keeps` and `Ignores` are instances: an act that is put
together from acts that keep a preorder keeps it without further proof.  The journal appears in no
rule, because nothing the bridge does to its state depends on what was recorded.
-/
import EditorBridge.Activity.Basic
import EditorBridge.Event.Basic
import Mathlib.Order.Defs.Unbundled

namespace EditorBridge.Act

variable {σ τ α β : Type}

/-! ### Running an act

An act is a function of the environment.  These equations run the ways of putting acts
together; the rules below need nothing else of them.
-/

theorem run_bind (a : Act σ α) (f : α → Act σ β) (e : Env σ) :
    (a >>= f) e = match a e with
      | (.ok x, e') => f x e'
      | (.error g, e') => (.error g, e') := by
  show (ExceptT.bind a f : Act σ β) e = _
  simp only [ExceptT.bind, ExceptT.mk, bind, StateT.bind]
  rcases a e with ⟨_ | _, _⟩ <;> rfl

theorem run_tryCatch (a : Act σ α) (handler : Failure → Act σ α) (e : Env σ) :
    (tryCatch a handler) e = match a e with
      | (.ok x, e') => (.ok x, e')
      | (.error g, e') => handler g e' := by
  show (ExceptT.tryCatch a handler : Act σ α) e = _
  simp only [ExceptT.tryCatch, ExceptT.mk, bind, StateT.bind]
  rcases a e with ⟨_ | _, _⟩ <;> rfl

theorem run_get (e : Env σ) : (get : Act σ (Env σ)) e = (.ok e, e) := rfl

/-! ### Questions -/

/-- An act that only asks: it answers with something about the state, and changes nothing. -/
class Reads (a : Act σ α) (f : outParam (σ → α)) : Prop where
  reads : ∀ e, a e = (.ok (f e.state), e)

instance Reads.state : Reads (Act.state : Act σ σ) fun s => s := ⟨fun _ => rfl⟩

/-! ### How an act ends -/

/-- Begun in a state, an act ends with an outcome and a state as told, whatever the journal. -/
def Ends (a : Act σ α) (s : σ) (Q : Except Failure α → σ → Prop) : Prop :=
  ∀ j, Q (a ⟨j, s⟩).1 (a ⟨j, s⟩).2.state

namespace Ends

variable {a : Act σ α} {s : σ} {Q Q' : Except Failure α → σ → Prop}

/-- What is known of an end may be weakened. -/
theorem mono (h : Ends a s Q) (hQ : ∀ r s', Q r s' → Q' r s') : Ends a s Q' :=
  fun j => hQ _ _ (h j)

theorem and (h : Ends a s Q) (h' : Ends a s Q') : Ends a s fun r s' => Q r s' ∧ Q' r s' :=
  fun j => ⟨h j, h' j⟩

theorem pure {x : α} (h : Q (.ok x) s) : Ends (Pure.pure x : Act σ α) s Q := fun _ => h

theorem throw {f : Failure} (h : Q (.error f) s) : Ends (MonadExcept.throw f : Act σ α) s Q :=
  fun _ => h

/-- An act that goes on ends as what follows does, unless it failed before. -/
theorem bind {f : α → Act σ β} {Q : Except Failure β → σ → Prop}
    (h : Ends a s fun r s' => match r with
      | .ok x => Ends (f x) s' Q
      | .error e => Q (.error e) s') : Ends (a >>= f) s Q := by
  intro j
  have hj := h j
  rw [run_bind]
  generalize a ⟨j, s⟩ = p at hj ⊢
  obtain ⟨_ | x, j', s'⟩ := p
  · exact hj
  · exact hj j'

/-- What an act answers may not matter. -/
theorem ignore {x : β} {P : σ → Prop} (h : Ends a s fun _ => P) :
    Ends (a >>= fun _ => Pure.pure x) s fun _ => P := by
  refine bind (h.mono fun r s' hs => ?_)
  cases r with
  | ok _ => exact pure hs
  | error _ => exact hs

/-- A failure that is caught goes on with the handler. -/
theorem tryCatch {handler : Failure → Act σ α}
    (h : Ends a s fun r s' => match r with
      | .ok x => Q (.ok x) s'
      | .error e => Ends (handler e) s' Q) : Ends (MonadExcept.tryCatch a handler) s Q := by
  intro j
  have hj := h j
  rw [run_tryCatch]
  generalize a ⟨j, s⟩ = p at hj ⊢
  obtain ⟨_ | x, j', s'⟩ := p
  · exact hj j'
  · exact hj

/-- A question is answered, and nothing else happens. -/
theorem read {f : σ → α} [ha : Reads a f] {g : α → Act σ β} {Q : Except Failure β → σ → Prop}
    (h : Ends (g (f s)) s Q) : Ends (a >>= g) s Q := by
  intro j
  rw [run_bind, ha.reads]
  exact h j

/-- A question is answered. -/
theorem reads (a : Act σ α) {f : σ → α} [ha : Reads a f] (s : σ) :
    Ends a s fun r s' => r = .ok (f s) ∧ s' = s := by
  intro j
  rw [ha.reads]
  exact ⟨rfl, rfl⟩

theorem change_bind {f : σ → σ} {g : Unit → Act σ β} {Q : Except Failure β → σ → Prop}
    (h : Ends (g ()) (f s) Q) : Ends (Act.change f >>= g) s Q := fun j => h j

theorem change {f : σ → σ} {Q : Except Failure Unit → σ → Prop} (h : Q (.ok ()) (f s)) :
    Ends (Act.change f) s Q := fun _ => h

/-- An act on a part ends as it does there; the rest of the state stays. -/
theorem on {part : σ → τ} {replace : τ → σ → σ} {a : Act τ α}
    (h : Ends a (part s) fun r t => Q r (replace t s)) : Ends (Act.on part replace a) s Q :=
  fun j => h j

/-- The outcome of an act as a value. -/
theorem outcome {Q : Except Failure (Except Failure α) → σ → Prop}
    (h : Ends a s fun r s' => Q (.ok r) s') : Ends (Act.outcome a) s Q := fun j => h j

theorem ofExcept {r : Except Failure α} (h : Q r s) : Ends (Act.ofExcept r) s Q := by
  cases r with
  | ok x => exact pure h
  | error f => exact throw h

/-- A loop that goes through keeps what every round of it keeps. -/
theorem forIn {γ : Type} {xs : List γ} {b : β} {body : γ → β → Act σ (ForInStep β)} {I : σ → Prop}
    (h : ∀ x ∈ xs, ∀ b s, I s → Ends (body x b) s fun r s' => (∃ b', r = .ok (.yield b')) ∧ I s')
    (hs : I s) : Ends (ForIn.forIn xs b body) s fun r s' => (∃ b', r = .ok b') ∧ I s' := by
  induction xs generalizing b s with
  | nil => exact pure ⟨⟨b, rfl⟩, hs⟩
  | cons x xs ih =>
    obtain ⟨hx, h⟩ := List.forall_mem_cons.1 h
    rw [List.forIn_cons]
    refine bind ((hx b s hs).mono fun r s' hr => ?_)
    obtain ⟨⟨b', rfl⟩, hs'⟩ := hr
    exact ih h hs'

/-- A record changes nothing, but building its text may fail. -/
theorem logBuilt {l : Logger} {level : Level} {text : Unit → Except Failure String}
    {Q : Except Failure Unit → σ → Prop} (h : Q (.ok ()) s)
    (hf : ∀ f, text () = .error f → Q (.error f) s) : Ends (Act.logBuilt l level text) s Q := by
  intro j
  unfold Act.logBuilt
  rw [run_bind, run_get]
  by_cases hk : j.keeps l level = true
  · simp only [hk, if_true, run_bind]
    cases ht : text () with
    | ok t => exact h
    | error f => exact hf f ht
  · simp only [hk]
    exact h

theorem log {l : Logger} {level : Level} {text : String} {Q : Except Failure Unit → σ → Prop}
    (h : Q (.ok ()) s) : Ends (Act.log l level text) s Q :=
  logBuilt h fun f hf => by cases hf

theorem logFailure {l : Logger} {f : Failure} {Q : Except Failure Unit → σ → Prop}
    (h : Q (.ok ()) s) : Ends (Act.logFailure l f) s Q := log h

/-- Recording a call changes nothing about it. -/
theorem traced {l : Logger} {name : String} {arguments : Unit → List String} {level : Level}
    {shown : Option (α → String)} (h : Ends a s Q) :
    Ends (Act.traced l name arguments a level shown) s Q := by
  unfold Act.traced
  refine bind fun j => ?_
  show Ends _ s Q
  split
  · refine bind (log ?_)
    refine bind (tryCatch (h.mono fun r s' hr => ?_))
    cases r with
    | error f => exact bind (log (throw hr))
    | ok x =>
      cases shown with
      | none => exact pure hr
      | some show' => exact bind (log (pure hr))
  · exact h

/-- A call goes on with its outcome, or what is left of it grows by what the caller has to do. -/
theorem called {a : Act σ Step} {rest : Resumption} {go : Except Failure Reply → Act σ Step}
    {Q : Except Failure Step → σ → Prop}
    (h : Ends a s fun r s' => match r with
      | .error f => Ends (go (.error f)) s' Q
      | .ok (.done x) => Ends (go (.ok x)) s' Q
      | .ok (.wait f more) => Q (.ok (.wait f (more ++ [rest]))) s'
      | .ok (.turn more) => Q (.ok (.turn (more ++ [rest]))) s') :
    Ends (Step.calling a rest go) s Q := by
  unfold Step.calling
  refine bind (outcome (h.mono fun r s' hs => ?_))
  dsimp only
  split at hs
  · exact hs
  · exact hs
  · exact pure hs
  · exact pure hs

/-- What a call comes to is known if the caller does not undo it. -/
theorem calling {a : Act σ Step} {P : σ → Prop} {rest : Resumption}
    {go : Except Failure Reply → Act σ Step} (h : Ends a s fun _ => P)
    (hgo : ∀ r s', P s' → Ends (go r) s' fun _ => P) :
    Ends (Step.calling a rest go) s fun _ => P := by
  refine called (h.mono fun r s' hs => ?_)
  split
  · exact hgo _ s' hs
  · exact hgo _ s' hs
  · exact hs
  · exact hs

/-- What is left of a call that was recorded passes the outcome on. -/
theorem afterCall {l : Logger} {call : String} {r : Except Failure Reply}
    {Q : Except Failure Step → σ → Prop} (h : Q (r.map .done) s) :
    Ends (Step.afterCall l call r) s Q := by
  cases r with
  | ok x => exact pure h
  | error f => exact bind (log (throw h))

/-- Recording a call changes nothing but what is left of it. -/
theorem recorded {a : Act σ Step} {l : Logger} {call : String} {arguments : Unit → List String}
    {Q Q' : Except Failure Step → σ → Prop} (h : Ends a s Q) (hQ : ∀ r s', Q r s' → Q' r s')
    (hw : ∀ f more s', Q (.ok (.wait f more)) s' → Q' (.ok (.wait f (more ++ [.traced l call]))) s')
    (ht : ∀ more s', Q (.ok (.turn more)) s' → Q' (.ok (.turn (more ++ [.traced l call]))) s') :
    Ends (Step.traced l call arguments a) s Q' := by
  unfold Step.traced
  refine bind fun j => ?_
  show Ends _ s Q'
  split
  · refine bind (log (called (h.mono fun r s' hs => ?_)))
    split
    · exact afterCall (hQ _ _ hs)
    · exact afterCall (hQ _ _ hs)
    · exact hw _ _ _ hs
    · exact ht _ _ hs
  · exact h.mono hQ

/-- Recording a call changes nothing about what it comes to. -/
theorem tracedStep {a : Act σ Step} {P : σ → Prop} {l : Logger} {call : String}
    {arguments : Unit → List String} (h : Ends a s fun _ => P) :
    Ends (Step.traced l call arguments a) s fun _ => P :=
  recorded h (fun _ _ => id) (fun _ _ _ => id) fun _ _ => id

end Ends

/-- Begun in one state, an act can leave another one. -/
def Leaves (a : Act σ α) (s s' : σ) : Prop := ∃ j, (a ⟨j, s⟩).2.state = s'

theorem Ends.leaves (a : Act σ α) (s : σ) : Ends a s fun _ s' => Leaves a s s' := fun j => ⟨j, rfl⟩

/-- What is known of all ends is known of every state that is left. -/
theorem Leaves.elim {a : Act σ α} {s s' : σ} {P : σ → Prop} (h : Leaves a s s')
    (ha : Ends a s fun _ => P) : P s' := by
  obtain ⟨j, rfl⟩ := h
  exact ha j

/-- Begun in one state, an act can end with an outcome and leave another one. -/
def Gives (a : Act σ α) (s : σ) (r : Except Failure α) (s' : σ) : Prop :=
  ∃ j, (a ⟨j, s⟩).1 = r ∧ (a ⟨j, s⟩).2.state = s'

theorem Ends.gives (a : Act σ α) (s : σ) : Ends a s (Gives a s) := fun j => ⟨j, rfl, rfl⟩

/-- What is known of all ends is known of every one that is possible. -/
theorem Gives.elim {a : Act σ α} {s s' : σ} {r : Except Failure α} {Q : Except Failure α → σ → Prop}
    (h : Gives a s r s') (ha : Ends a s Q) : Q r s' := by
  obtain ⟨j, rfl, rfl⟩ := h
  exact ha j

/-! ### What an act keeps -/

/-- However an act ends, the state it leaves is related to the state it began in. -/
class Keeps (R : σ → σ → Prop) (a : Act σ α) : Prop where
  keeps : ∀ e, R e.state (a e).2.state

namespace Keeps

variable {R : σ → σ → Prop} {a : Act σ α}

theorem ends (h : Keeps R a) (s : σ) : Ends a s fun _ s' => R s s' := fun j => h.keeps ⟨j, s⟩

theorem of_ends (h : ∀ s, Ends a s fun _ s' => R s s') : Keeps R a := ⟨fun e => h e.state e.journal⟩

/-- What an act keeps may be used once it has ended. -/
theorem knowing (h : Keeps R a) {s : σ} {Q : Except Failure α → σ → Prop}
    (hQ : Ends a s fun r s' => R s s' → Q r s') : Ends a s Q := fun j => hQ j (h.keeps ⟨j, s⟩)

/-- What keeps a relation keeps a wider one. -/
theorem mono {R' : σ → σ → Prop} (h : Keeps R a) (hR : ∀ s s', R s s' → R' s s') : Keeps R' a :=
  ⟨fun e => hR _ _ (h.keeps e)⟩

theorem change {f : σ → σ} (h : ∀ s, R s (f s)) : Keeps R (Act.change f) := ⟨fun e => h e.state⟩

/-- An act on a part keeps what the part's changes amount to. -/
theorem on {T : τ → τ → Prop} {part : σ → τ} {replace : τ → σ → σ} {a : Act τ α} [h : Keeps T a]
    (hR : ∀ s t, T (part s) t → R s (replace t s)) : Keeps R (Act.on part replace a) :=
  ⟨fun e => hR _ _ (h.keeps ⟨e.journal, part e.state⟩)⟩

variable [IsPreorder σ R]

instance pure (x : α) : Keeps R (Pure.pure x : Act σ α) := ⟨fun _ => refl _⟩

instance throw (f : Failure) : Keeps R (MonadExcept.throw f : Act σ α) := ⟨fun _ => refl _⟩

instance bind (a : Act σ α) (f : α → Act σ β) [ha : Keeps R a] [hf : ∀ x, Keeps R (f x)] :
    Keeps R (a >>= f) := by
  refine of_ends fun s => .bind ((ha.ends s).mono fun r s' h => ?_)
  cases r with
  | ok x => exact ((hf x).ends s').mono fun _ _ h' => trans_of R h h'
  | error e => exact h

/-- The rule for acts that go on, for what follows by cases. -/
theorem andThen {a : Act σ α} {f : α → Act σ β} [Keeps R a] (hf : ∀ x, Keeps R (f x)) :
    Keeps R (a >>= f) := Keeps.bind a f

instance tryCatch (a : Act σ α) (handler : Failure → Act σ α) [ha : Keeps R a]
    [hh : ∀ f, Keeps R (handler f)] : Keeps R (MonadExcept.tryCatch a handler) := by
  refine of_ends fun s => .tryCatch ((ha.ends s).mono fun r s' h => ?_)
  cases r with
  | ok x => exact h
  | error e => exact ((hh e).ends s').mono fun _ _ h' => trans_of R h h'

instance ite (c : Prop) [Decidable c] (a b : Act σ α) [Keeps R a] [Keeps R b] :
    Keeps R (if c then a else b) := by
  split <;> infer_instance

instance reads (a : Act σ α) (f : σ → α) [h : Reads a f] : Keeps R a :=
  ⟨fun e => by rw [h.reads]; exact refl _⟩

instance outcome (a : Act σ α) [h : Keeps R a] : Keeps R (Act.outcome a) := ⟨fun e => h.keeps e⟩

instance ofExcept (r : Except Failure α) : Keeps R (Act.ofExcept r : Act σ α) :=
  of_ends fun _ => .ofExcept (refl _)

instance logBuilt (l : Logger) (level : Level) (text : Unit → Except Failure String) :
    Keeps R (Act.logBuilt l level text : Act σ Unit) :=
  of_ends fun _ => .logBuilt (refl _) fun _ _ => refl _

instance log (l : Logger) (level : Level) (text : String) :
    Keeps R (Act.log l level text : Act σ Unit) := Keeps.logBuilt ..

instance logFailure (l : Logger) (f : Failure) : Keeps R (Act.logFailure l f : Act σ Unit) :=
  Keeps.log ..

instance traced (l : Logger) (name : String) (arguments : Unit → List String) (a : Act σ α)
    (level : Level) (shown : Option (α → String)) [h : Keeps R a] :
    Keeps R (Act.traced l name arguments a level shown) :=
  of_ends fun s => .traced (h.ends s)

instance forIn {γ : Type} (xs : List γ) (b : β) (f : γ → β → Act σ (ForInStep β))
    [hf : ∀ x b, Keeps R (f x b)] : Keeps R (ForIn.forIn xs b f) := by
  induction xs generalizing b with
  | nil => exact Keeps.pure b
  | cons x xs ih =>
    rw [List.forIn_cons]
    refine andThen fun r => ?_
    cases r with
    | done b' => exact Keeps.pure b'
    | yield b' => exact ih b'

instance mapM {γ : Type} (xs : List γ) (f : γ → Act σ β) [hf : ∀ x, Keeps R (f x)] :
    Keeps R (xs.mapM f) := by
  induction xs with
  | nil => rw [List.mapM_nil]; infer_instance
  | cons x xs ih => rw [List.mapM_cons]; infer_instance

/-- A dispatch keeps what every listener keeps. -/
instance callEach {κ : Type} (alive : κ → Act σ Bool) (call : κ → Act σ α) (ks : List κ)
    [∀ k, Keeps R (alive k)] [∀ k, Keeps R (call k)] : Keeps R (Event.callEach alive call ks) := by
  induction ks with
  | nil => unfold Event.callEach; infer_instance
  | cons k ks ih =>
    unfold Event.callEach
    refine andThen fun b => ?_
    split
    · refine andThen fun r => ?_
      split <;> infer_instance
    · exact ih

instance calling (a : Act σ Step) (rest : Resumption) (go : Except Failure Reply → Act σ Step)
    [Keeps R a] [∀ r, Keeps R (go r)] : Keeps R (Step.calling a rest go) := by
  unfold Step.calling
  refine andThen fun r => ?_
  split <;> infer_instance

instance afterCall (l : Logger) (call : String) (r : Except Failure Reply) :
    Keeps R (Step.afterCall l call r : Act σ Step) := by
  unfold Step.afterCall
  split <;> infer_instance

instance tracedStep (l : Logger) (call : String) (arguments : Unit → List String)
    (a : Act σ Step) [Keeps R a] : Keeps R (Step.traced l call arguments a) := by
  have : Keeps R (Act.traces l .trace : Act σ Bool) := ⟨fun e => refl _⟩
  unfold Step.traced
  infer_instance

end Keeps

/-! ### What an act does not notice -/

/-- The state is changed, the journal stays. -/
def after (f : σ → σ) (e : Env σ) : Env σ := ⟨e.journal, f e.state⟩

/-- Changing the state before an act or after it comes to the same: the act neither looks at what
is changed nor changes it itself. -/
class Ignores (f : σ → σ) (a : Act σ α) : Prop where
  ignores : ∀ e, a (after f e) = ((a e).1, after f (a e).2)

namespace Ignores

variable {f : σ → σ} {a : Act σ α}

instance pure (x : α) : Ignores f (Pure.pure x : Act σ α) := ⟨fun _ => rfl⟩

instance throw (g : Failure) : Ignores f (MonadExcept.throw g : Act σ α) := ⟨fun _ => rfl⟩

instance bind (a : Act σ α) (k : α → Act σ β) [ha : Ignores f a] [hk : ∀ x, Ignores f (k x)] :
    Ignores f (a >>= k) := by
  refine ⟨fun e => ?_⟩
  rw [run_bind, run_bind, ha.ignores]
  generalize a e = r
  obtain ⟨_ | x, e'⟩ := r
  · rfl
  · exact (hk x).ignores e'

/-- The rule for acts that go on, for what follows by cases. -/
theorem andThen {a : Act σ α} {k : α → Act σ β} [Ignores f a] (hk : ∀ x, Ignores f (k x)) :
    Ignores f (a >>= k) := Ignores.bind a k

/-- A question may be asked if the answer means the same with the change and without it. -/
theorem read {a : Act σ α} {g : σ → α} [ha : Reads a g] {k : α → Act σ β}
    (h : ∀ s, k (g (f s)) = k (g s)) (hk : ∀ s, Ignores f (k (g s))) : Ignores f (a >>= k) := by
  refine ⟨fun e => ?_⟩
  rw [run_bind, run_bind, ha.reads, ha.reads]
  show k (g (f e.state)) _ = _
  rw [h e.state]
  exact (hk e.state).ignores e

theorem change {g : σ → σ} (h : ∀ s, g (f s) = f (g s)) : Ignores f (Act.change g) :=
  ⟨fun e => congrArg (fun s => (Except.ok (), (⟨e.journal, s⟩ : Env σ))) (h e.state)⟩

instance ite (c : Prop) [Decidable c] (a b : Act σ α) [Ignores f a] [Ignores f b] :
    Ignores f (if c then a else b) := by
  split <;> infer_instance

instance outcome (a : Act σ α) [h : Ignores f a] : Ignores f (Act.outcome a) := by
  refine ⟨fun e => ?_⟩
  unfold Act.outcome
  rw [h.ignores]
  rfl

instance ofExcept (r : Except Failure α) : Ignores f (Act.ofExcept r : Act σ α) := by
  cases r with
  | ok x => exact Ignores.pure x
  | error g => exact Ignores.throw g

instance logBuilt (l : Logger) (level : Level) (text : Unit → Except Failure String) :
    Ignores f (Act.logBuilt l level text : Act σ Unit) := by
  refine ⟨fun e => ?_⟩
  unfold Act.logBuilt
  rw [run_bind, run_bind, run_get, run_get]
  by_cases hk : e.journal.keeps l level = true
  · simp only [after, hk, if_true, run_bind]
    cases text () <;> rfl
  · simp only [after, hk]
    rfl

instance log (l : Logger) (level : Level) (text : String) :
    Ignores f (Act.log l level text : Act σ Unit) := Ignores.logBuilt ..

instance logFailure (l : Logger) (g : Failure) : Ignores f (Act.logFailure l g : Act σ Unit) :=
  Ignores.log ..

instance forIn {γ : Type} (xs : List γ) (b : β) (k : γ → β → Act σ (ForInStep β))
    [hk : ∀ x b, Ignores f (k x b)] : Ignores f (ForIn.forIn xs b k) := by
  induction xs generalizing b with
  | nil => exact Ignores.pure b
  | cons x xs ih =>
    rw [List.forIn_cons]
    refine andThen fun r => ?_
    cases r with
    | done b' => exact Ignores.pure b'
    | yield b' => exact ih b'

end Ignores

end EditorBridge.Act
