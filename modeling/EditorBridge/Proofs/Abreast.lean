/-
Two runs side by side.

`Act.Abreast a b s t Q` is `Act.Ends` for two acts at once: begun in two states, they end as
`Q` tells, as long as both journals keep the same records.  It is for properties that
compare two runs, and its rules are those of `Ends`, with both acts taking each step
together, or one of them alone (`Abreast.left`).

An act is `Definite` if what it comes to, and the state it leaves, depend on the state it
begins in only.  The journal matters as far as it says what is kept, but not with what has been
recorded.  The rules are instances, as with `Keeps`.
-/
import Mathlib.Data.List.Forall2
import EditorBridge.Proofs.Act

namespace EditorBridge

namespace Journal

/-- Two journals keep the same records, whatever is in them. -/
structure Like (j j' : Journal) : Prop where
  threshold : j.threshold = j'.threshold
  tracing : j.tracing = j'.tracing

namespace Like

variable {j j' j'' : Journal} {l : Logger} {level : Level}

theorem refl (j : Journal) : j.Like j := ⟨rfl, rfl⟩

theorem symm (h : j.Like j') : j'.Like j := ⟨h.1.symm, h.2.symm⟩

theorem trans (h : j.Like j') (h' : j'.Like j'') : j.Like j'' := ⟨h.1.trans h'.1, h.2.trans h'.2⟩

theorem keeps (h : j.Like j') : j.keeps l level = j'.keeps l level := by
  rw [Journal.keeps, Journal.keeps, h.threshold]

theorem add (text : String) : (j.add l level text).Like j := ⟨rfl, rfl⟩

end Like

end Journal

namespace Act

variable {σ τ ρ α β γ δ : Type}

/-! ### Two acts -/

/-- Begun in two states, two acts end with outcomes and states as told, whatever the journals hold,
if they keep the same records.  They go on keeping the same records. -/
def Abreast (a : Act σ α) (b : Act τ β) (s : σ) (t : τ)
    (Q : Except Failure α → σ → Except Failure β → τ → Prop) : Prop :=
  ∀ j j', j.Like j' → (a ⟨j, s⟩).2.journal.Like j ∧ (b ⟨j', t⟩).2.journal.Like j' ∧
    Q (a ⟨j, s⟩).1 (a ⟨j, s⟩).2.state (b ⟨j', t⟩).1 (b ⟨j', t⟩).2.state

/-- Both acts come to the same, and the states they leave are related. -/
def Same (R : σ → τ → Prop) (r : Except Failure α) (s : σ) (r' : Except Failure α) (t : τ) : Prop :=
  r = r' ∧ R s t

namespace Abreast

variable {a : Act σ α} {b : Act τ β} {s : σ} {t : τ}
  {Q Q' : Except Failure α → σ → Except Failure β → τ → Prop}

theorem mono (h : Abreast a b s t Q) (hQ : ∀ r s' x t', Q r s' x t' → Q' r s' x t') :
    Abreast a b s t Q' := fun j j' hj =>
  ⟨(h j j' hj).1, (h j j' hj).2.1, hQ _ _ _ _ (h j j' hj).2.2⟩

theorem pure {x : α} {y : β} (h : Q (.ok x) s (.ok y) t) :
    Abreast (Pure.pure x : Act σ α) (Pure.pure y : Act τ β) s t Q :=
  fun j j' _ => ⟨.refl j, .refl j', h⟩

theorem throw {f g : Failure} (h : Q (.error f) s (.error g) t) :
    Abreast (MonadExcept.throw f : Act σ α) (MonadExcept.throw g : Act τ β) s t Q :=
  fun j j' _ => ⟨.refl j, .refl j', h⟩

/-- Two acts that go on, go on or fail together. -/
theorem bind {f : α → Act σ γ} {g : β → Act τ δ}
    {Q : Except Failure γ → σ → Except Failure δ → τ → Prop}
    (h : Abreast a b s t fun r s' x t' => match r, x with
      | .ok u, .ok v => Abreast (f u) (g v) s' t' Q
      | .error e, .error e' => Q (.error e) s' (.error e') t'
      | _, _ => False) : Abreast (a >>= f) (b >>= g) s t Q := by
  intro j j' hj
  obtain ⟨hja, hjb, hQ⟩ := h j j' hj
  rw [run_bind, run_bind]
  generalize a ⟨j, s⟩ = p at hja hQ ⊢
  generalize b ⟨j', t⟩ = q at hjb hQ ⊢
  obtain ⟨_ | x, j₁, s'⟩ := p
  · obtain ⟨_ | y, j₁', t'⟩ := q
    · exact ⟨hja, hjb, hQ⟩
    · exact hQ.elim
  · obtain ⟨_ | y, j₁', t'⟩ := q
    · exact hQ.elim
    · obtain ⟨hj₁, hj₁', hQ⟩ := hQ j₁ j₁' ((hja.trans hj).trans hjb.symm)
      exact ⟨hj₁.trans hja, hj₁'.trans hjb, hQ⟩

/-- The first act takes a step of its own. -/
theorem left {f : α → Act σ γ} {b : Act τ β} {P : σ → Prop}
    {Q : Except Failure γ → σ → Except Failure β → τ → Prop}
    (h : Abreast a (Pure.pure () : Act τ Unit) s t fun r s' _ _ => (∃ x, r = .ok x) ∧ P s')
    (hf : ∀ x s', P s' → Abreast (f x) b s' t Q) : Abreast (a >>= f) b s t Q := by
  intro j j' hj
  obtain ⟨hja, -, hr, hP⟩ := h j j' hj
  rw [run_bind]
  generalize a ⟨j, s⟩ = p at hja hr hP ⊢
  obtain ⟨_ | x, j₁, s'⟩ := p
  · obtain ⟨x, hx⟩ := hr
    cases hx
  · obtain ⟨hj₁, hj', hQ⟩ := hf x s' hP j₁ j' (hja.trans hj)
    exact ⟨hj₁.trans hja, hj', hQ⟩

theorem symm (h : Abreast b a t s fun x t' r s' => Q r s' x t') : Abreast a b s t Q :=
  fun j j' hj => ⟨(h j' j hj.symm).2.1, (h j' j hj.symm).1, (h j' j hj.symm).2.2⟩

theorem tryCatch {handler : Failure → Act σ α} {handler' : Failure → Act τ β}
    (h : Abreast a b s t fun r s' x t' => match r, x with
      | .ok u, .ok v => Q (.ok u) s' (.ok v) t'
      | .error e, .error e' => Abreast (handler e) (handler' e') s' t' Q
      | _, _ => False) :
    Abreast (MonadExcept.tryCatch a handler) (MonadExcept.tryCatch b handler') s t Q := by
  intro j j' hj
  obtain ⟨hja, hjb, hQ⟩ := h j j' hj
  rw [run_tryCatch, run_tryCatch]
  generalize a ⟨j, s⟩ = p at hja hQ ⊢
  generalize b ⟨j', t⟩ = q at hjb hQ ⊢
  obtain ⟨_ | x, j₁, s'⟩ := p
  · obtain ⟨_ | y, j₁', t'⟩ := q
    · obtain ⟨hj₁, hj₁', hQ⟩ := hQ j₁ j₁' ((hja.trans hj).trans hjb.symm)
      exact ⟨hj₁.trans hja, hj₁'.trans hjb, hQ⟩
    · exact hQ.elim
  · obtain ⟨_ | y, j₁', t'⟩ := q
    · exact hQ.elim
    · exact ⟨hja, hjb, hQ⟩

/-- Questions are answered, and nothing else happens. -/
theorem read {f : σ → α} {g : τ → β} [ha : Reads a f] [hb : Reads b g] {k : α → Act σ γ}
    {k' : β → Act τ δ} {Q : Except Failure γ → σ → Except Failure δ → τ → Prop}
    (h : Abreast (k (f s)) (k' (g t)) s t Q) : Abreast (a >>= k) (b >>= k') s t Q := by
  intro j j' hj
  rw [run_bind, run_bind, ha.reads, hb.reads]
  exact h j j' hj

/-- Questions are answered. -/
theorem reads (a : Act σ α) (b : Act τ β) {f : σ → α} {g : τ → β} [ha : Reads a f]
    [hb : Reads b g] (h : Q (.ok (f s)) s (.ok (g t)) t) : Abreast a b s t Q := by
  intro j j' _
  rw [ha.reads, hb.reads]
  exact ⟨.refl j, .refl j', h⟩

theorem change_bind {f : σ → σ} {g : τ → τ} {k : Unit → Act σ γ} {k' : Unit → Act τ δ}
    {Q : Except Failure γ → σ → Except Failure δ → τ → Prop}
    (h : Abreast (k ()) (k' ()) (f s) (g t) Q) :
    Abreast (Act.change f >>= k) (Act.change g >>= k') s t Q := fun j j' hj => h j j' hj

theorem change {f : σ → σ} {g : τ → τ}
    {Q : Except Failure Unit → σ → Except Failure Unit → τ → Prop}
    (h : Q (.ok ()) (f s) (.ok ()) (g t)) : Abreast (Act.change f) (Act.change g) s t Q :=
  fun j j' _ => ⟨.refl j, .refl j', h⟩

/-- Acts on parts end as they do there. -/
theorem on {σ' τ' : Type} {part : σ → σ'} {replace : σ' → σ → σ} {part' : τ → τ'}
    {replace' : τ' → τ → τ} {a : Act σ' α} {b : Act τ' β}
    (h : Abreast a b (part s) (part' t) fun r s' x t' => Q r (replace s' s) x (replace' t' t)) :
    Abreast (Act.on part replace a) (Act.on part' replace' b) s t Q := fun j j' hj => h j j' hj

theorem outcome {Q : Except Failure (Except Failure α) → σ → Except Failure (Except Failure β) → τ →
      Prop} (h : Abreast a b s t fun r s' x t' => Q (.ok r) s' (.ok x) t') :
    Abreast (Act.outcome a) (Act.outcome b) s t Q := fun j j' hj => h j j' hj

theorem ofExcept {r : Except Failure α} {x : Except Failure β} (h : Q r s x t) :
    Abreast (Act.ofExcept r) (Act.ofExcept x) s t Q := by
  cases r <;> cases x <;> exact fun j j' _ => ⟨.refl j, .refl j', h⟩

/-- A record is written on both sides, or on none. -/
theorem logBuilt {l : Logger} {level : Level} {text : Unit → Except Failure String}
    {Q : Except Failure Unit → σ → Except Failure Unit → τ → Prop} (h : Q (.ok ()) s (.ok ()) t)
    (hf : ∀ f, text () = .error f → Q (.error f) s (.error f) t) :
    Abreast (Act.logBuilt l level text) (Act.logBuilt l level text) s t Q := by
  intro j j' hj
  unfold Act.logBuilt
  rw [run_bind, run_bind, run_get, run_get]
  dsimp only
  rw [hj.keeps]
  split
  · cases ht : text () with
    | ok x => exact ⟨.add x, .add x, h⟩
    | error f => exact ⟨.refl j, .refl j', hf f ht⟩
  · exact ⟨.refl j, .refl j', h⟩

/-- What is recorded does not matter. -/
theorem log {l : Logger} {level : Level} {text text' : String}
    {Q : Except Failure Unit → σ → Except Failure Unit → τ → Prop} (h : Q (.ok ()) s (.ok ()) t) :
    Abreast (Act.log l level text) (Act.log l level text') s t Q := by
  intro j j' hj
  unfold Act.log Act.logBuilt
  rw [run_bind, run_bind, run_get, run_get]
  dsimp only
  rw [hj.keeps]
  split
  · exact ⟨.add _, .add _, h⟩
  · exact ⟨.refl j, .refl j', h⟩

/-- A call that is recorded ends as one that begins with more in the journal. -/
private theorem exists_traced (l : Logger) (name : String) (arguments : Unit → List String)
    (a : Act σ α) (level : Level) (shown : Option (α → String)) (j : Journal) (s : σ) :
    ∃ j₁, j₁.Like j ∧
      (Act.traced l name arguments a level shown ⟨j, s⟩).1 = (a ⟨j₁, s⟩).1 ∧
      (Act.traced l name arguments a level shown ⟨j, s⟩).2.state = (a ⟨j₁, s⟩).2.state ∧
      (Act.traced l name arguments a level shown ⟨j, s⟩).2.journal.Like (a ⟨j₁, s⟩).2.journal := by
  have hlog (l : Logger) (level : Level) (text : String) (j : Journal) (s : σ) :
      ∃ j₁, j₁.Like j ∧ Act.log l level text ⟨j, s⟩ = (.ok (), ⟨j₁, s⟩) := by
    unfold Act.log Act.logBuilt
    rw [run_bind, run_get]
    dsimp only
    split
    · exact ⟨_, .add text, rfl⟩
    · exact ⟨j, .refl j, rfl⟩
  unfold Act.traced
  rw [run_bind]
  show ∃ j₁ : Journal, j₁.Like j ∧ _
  by_cases ht : (j.tracing && j.keeps l level) = true
  · obtain ⟨j₁, hj₁, hbegun⟩ := hlog l level
      (name ++ "(" ++ String.intercalate ", " (arguments ()) ++ ")") j s
    refine ⟨j₁, hj₁, ?_⟩
    rw [show (Act.traces l level : Act σ Bool) ⟨j, s⟩ = (.ok true, ⟨j, s⟩) from by rw [← ht]; rfl]
    dsimp only
    rw [if_pos rfl, run_bind, hbegun]
    dsimp only
    rw [run_bind, run_tryCatch]
    generalize a ⟨j₁, s⟩ = p
    obtain ⟨f | x, j₂, s'⟩ := p
    · obtain ⟨j₃, hj₃, hfailed⟩ := hlog l .error (failedCall name f) j₂ s'
      dsimp only
      rw [run_bind, hfailed]
      exact ⟨rfl, rfl, hj₃⟩
    · cases shown with
      | none => exact ⟨rfl, rfl, .refl j₂⟩
      | some show' =>
        obtain ⟨j₃, hj₃, hended⟩ := hlog l level (name ++ "(...) returned " ++ show' x) j₂ s'
        dsimp only
        rw [run_bind, hended]
        exact ⟨rfl, rfl, hj₃⟩
  · rw [show (Act.traces l level : Act σ Bool) ⟨j, s⟩ = (.ok false, ⟨j, s⟩) from by
      rw [← (Bool.not_eq_true _).mp ht]; rfl]
    dsimp only
    rw [if_neg Bool.false_ne_true]
    exact ⟨j, .refl j, rfl, rfl, .refl _⟩

/-- Recording calls changes nothing about them. -/
theorem traced {l l' : Logger} {name name' : String} {arguments arguments' : Unit → List String}
    {level level' : Level} {shown : Option (α → String)} {shown' : Option (β → String)}
    (h : Abreast a b s t Q) : Abreast (Act.traced l name arguments a level shown)
      (Act.traced l' name' arguments' b level' shown') s t Q := by
  intro j j' hj
  obtain ⟨j₁, hj₁, hr, hs, hja⟩ := exists_traced l name arguments a level shown j s
  obtain ⟨j₁', hj₁', hx, ht, hjb⟩ := exists_traced l' name' arguments' b level' shown' j' t
  obtain ⟨ha, hb, hQ⟩ := h j₁ j₁' ((hj₁.trans hj).trans hj₁'.symm)
  rw [hr, hs, hx, ht]
  exact ⟨hja.trans (ha.trans hj₁), hjb.trans (hb.trans hj₁'), hQ⟩

/-- Loops over lists whose entries belong together. -/
theorem forIn {κ : Type} {R : σ → τ → Prop} {xs : List γ} {ys : List κ}
    {body : γ → Unit → Act σ (ForInStep Unit)} {body' : κ → Unit → Act τ (ForInStep Unit)}
    (h : List.Forall₂ (fun x y => ∀ s t, R s t → Abreast (body x ()) (body' y ()) s t (Same R))
      xs ys)
    (hs : R s t) : Abreast (ForIn.forIn xs () body) (ForIn.forIn ys () body') s t (Same R) := by
  induction h generalizing s t with
  | nil => exact .pure ⟨rfl, hs⟩
  | @cons x y xs ys hx _ ih =>
    rw [List.forIn_cons, List.forIn_cons]
    refine .bind ((hx s t hs).mono fun r s' r' t' hr => ?_)
    obtain ⟨rfl, hs'⟩ := hr
    cases r with
    | error f => exact ⟨rfl, hs'⟩
    | ok z =>
      cases z with
      | done => exact .pure ⟨rfl, hs'⟩
      | yield => exact ih hs'

/-- The same listeners are called, and each of them does the same on both sides. -/
theorem callEach {κ : Type} {R : σ → τ → Prop} {call : κ → Act σ α} {call' : κ → Act τ α}
    {ks : List κ} (h : ∀ k ∈ ks, ∀ s t, R s t → Abreast (call k) (call' k) s t (Same R))
    (hs : R s t) : Abreast (Event.callEach (fun _ => return true) call ks)
      (Event.callEach (fun _ => return true) call' ks) s t (Same R) := by
  induction ks generalizing s t with
  | nil => exact .pure ⟨rfl, hs⟩
  | cons k ks ih =>
    obtain ⟨hk, hks⟩ := List.forall_mem_cons.1 h
    have hrest (r : Except Failure α) {s' : σ} {t' : τ} (hs' : R s' t') : Abreast
        (do return r :: (← Event.callEach (fun _ => return true) call ks))
        (do return r :: (← Event.callEach (fun _ => return true) call' ks)) s' t' (Same R) := by
      refine .bind ((ih hks hs').mono fun x s'' x' t'' hx => ?_)
      obtain ⟨rfl, hs''⟩ := hx
      cases x with
      | error f => exact ⟨rfl, hs''⟩
      | ok xs => exact .pure ⟨rfl, hs''⟩
    unfold Event.callEach
    refine .bind (.pure ?_)
    dsimp only
    rw [if_pos rfl]
    refine .bind (.outcome ((hk s t hs).mono fun r s' r' t' hr => ?_))
    obtain ⟨rfl, hs'⟩ := hr
    cases r with
    | ok x => exact hrest _ hs'
    | error f =>
      dsimp only
      split
      · exact .bind (.throw ⟨rfl, hs'⟩)
      · exact hrest _ hs'

end Abreast

/-! ### One act, twice -/

/-- What an act comes to, and the state it leaves, depend on the state that it begins in only. -/
class Definite (a : Act σ α) : Prop where
  abreast : ∀ s, Abreast a a s s (Same Eq)

namespace Definite

variable {a : Act σ α} {s : σ}

theorem of_same {a b : Act σ α} {s : σ} {Q : Except Failure α → σ → Except Failure α → σ → Prop}
    (h : Abreast a b s s (Same Eq)) (hQ : ∀ r s', Q r s' r s') : Abreast a b s s Q :=
  h.mono fun r s' _ _ hr => by
    obtain ⟨rfl, rfl⟩ := hr
    exact hQ r s'

instance pure (x : α) : Definite (Pure.pure x : Act σ α) := ⟨fun _ => .pure ⟨rfl, rfl⟩⟩

instance throw (f : Failure) : Definite (MonadExcept.throw f : Act σ α) :=
  ⟨fun _ => .throw ⟨rfl, rfl⟩⟩

instance bind (a : Act σ α) (f : α → Act σ β) [ha : Definite a] [hf : ∀ x, Definite (f x)] :
    Definite (a >>= f) := by
  refine ⟨fun s => .bind (of_same (ha.abreast s) fun r s' => ?_)⟩
  cases r with
  | error e => exact ⟨rfl, rfl⟩
  | ok x => exact (hf x).abreast s'

/-- The rule for acts that go on, for what follows by cases. -/
theorem andThen {a : Act σ α} {f : α → Act σ β} [Definite a] (hf : ∀ x, Definite (f x)) :
    Definite (a >>= f) := Definite.bind a f

instance tryCatch (a : Act σ α) (handler : Failure → Act σ α) [ha : Definite a]
    [hh : ∀ f, Definite (handler f)] : Definite (MonadExcept.tryCatch a handler) := by
  refine ⟨fun s => .tryCatch (of_same (ha.abreast s) fun r s' => ?_)⟩
  cases r with
  | error e => exact (hh e).abreast s'
  | ok x => exact ⟨rfl, rfl⟩

instance ite (c : Prop) [Decidable c] (a b : Act σ α) [Definite a] [Definite b] :
    Definite (if c then a else b) := by
  split <;> infer_instance

instance reads (a : Act σ α) (f : σ → α) [h : Reads a f] : Definite a :=
  ⟨fun s j j' hj => by
    rw [h.reads, h.reads]
    exact ⟨.refl j, .refl j', rfl, rfl⟩⟩

instance change (f : σ → σ) : Definite (Act.change f) := ⟨fun _ => .change ⟨rfl, rfl⟩⟩

instance on (part : σ → τ) (replace : τ → σ → σ) (a : Act τ α) [ha : Definite a] :
    Definite (Act.on part replace a) :=
  ⟨fun s => .on (of_same (ha.abreast (part s)) fun _ _ => ⟨rfl, rfl⟩)⟩

instance outcome (a : Act σ α) [h : Definite a] : Definite (Act.outcome a) :=
  ⟨fun s => .outcome (of_same (h.abreast s) fun _ _ => ⟨rfl, rfl⟩)⟩

instance ofExcept (r : Except Failure α) : Definite (Act.ofExcept r : Act σ α) :=
  ⟨fun _ => .ofExcept ⟨rfl, rfl⟩⟩

instance logBuilt (l : Logger) (level : Level) (text : Unit → Except Failure String) :
    Definite (Act.logBuilt l level text : Act σ Unit) :=
  ⟨fun _ => .logBuilt ⟨rfl, rfl⟩ fun _ _ => ⟨rfl, rfl⟩⟩

instance log (l : Logger) (level : Level) (text : String) :
    Definite (Act.log l level text : Act σ Unit) := Definite.logBuilt ..

instance logFailure (l : Logger) (f : Failure) : Definite (Act.logFailure l f : Act σ Unit) :=
  Definite.log ..

instance traced (l : Logger) (name : String) (arguments : Unit → List String) (a : Act σ α)
    (level : Level) (shown : Option (α → String)) [h : Definite a] :
    Definite (Act.traced l name arguments a level shown) := ⟨fun s => .traced (h.abreast s)⟩

instance calling (a : Act σ Step) (rest : Resumption) (go : Except Failure Reply → Act σ Step)
    [Definite a] [∀ r, Definite (go r)] : Definite (Step.calling a rest go) := by
  unfold Step.calling
  refine andThen fun r => ?_
  split <;> infer_instance

instance afterCall (l : Logger) (call : String) (r : Except Failure Reply) :
    Definite (Step.afterCall l call r : Act σ Step) := by
  unfold Step.afterCall
  split <;> infer_instance

instance tracedStep (l : Logger) (call : String) (arguments : Unit → List String)
    (a : Act σ Step) [Definite a] : Definite (Step.traced l call arguments a) := by
  have : Definite (Act.traces l .trace : Act σ Bool) := ⟨fun s j j' hj => by
    refine ⟨.refl j, .refl j', ?_, rfl⟩
    show Except.ok _ = Except.ok _
    rw [hj.keeps, hj.tracing]⟩
  unfold Step.traced
  infer_instance

end Definite

end Act

end EditorBridge
