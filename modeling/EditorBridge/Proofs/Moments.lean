/-
Acts told by moments.

What an act does to a state is often told by more than the state: by all that has happened
until then.  A moment is a state together with as much of that as a theorem needs, and it is
sound if the state is what the past says.  An act that begins at a sound moment comes to
another one, and `Comes` says which.  The rules are those of `Ends`, but whoever changes the state
has to say what the moment after it is.

Two things are done with many acts at once: a script is played up to the first action that fails,
and a user does one thing after the other, whatever comes of it.
-/
import EditorBridge.Proofs.Act

namespace EditorBridge

/-- Moments of an act: a moment tells the state, and may tell more. -/
class Moments (μ : Type) (σ : outParam Type) where
  state : μ → σ
  /-- Whether the state is what the moment says about it. -/
  Sound : μ → Prop

namespace Moments

open Act (Ends Reads)

variable {μ σ α β : Type} [Moments μ σ]

/-- Begun at a moment, an act comes to another one, as told. -/
def Comes (a : Act σ α) (m : μ) (Q : Except Failure α → μ → Prop) : Prop :=
  Ends a (state m) fun r s' => ∃ m', state m' = s' ∧ Sound m' ∧ Q r m'

namespace Comes

variable {a : Act σ α} {m m' : μ} {P Q : Except Failure α → μ → Prop}
  {R : Except Failure β → μ → Prop}

theorem mono (h : Comes a m P) (hPQ : ∀ r m', P r m' → Q r m') : Comes a m Q :=
  Ends.mono h fun r _ ⟨m', hs, hm', hr⟩ => ⟨m', hs, hm', hPQ r m' hr⟩

theorem pure {x : α} (hm : Sound m) (h : Q (.ok x) m) : Comes (Pure.pure x) m Q :=
  Ends.pure ⟨m, rfl, hm, h⟩

theorem throw {f : Failure} (hm : Sound m) (h : Q (.error f) m) :
    Comes (MonadExcept.throw f) m Q :=
  Ends.throw ⟨m, rfl, hm, h⟩

theorem ofExcept {r : Except Failure α} (hm : Sound m) (h : Q r m) :
    Comes (Act.ofExcept r) m Q :=
  Ends.ofExcept ⟨m, rfl, hm, h⟩

theorem bind {g : α → Act σ β} (h : Comes a m P)
    (hok : ∀ x m₁, Sound m₁ → P (.ok x) m₁ → Comes (g x) m₁ R)
    (herror : ∀ f m₁, P (.error f) m₁ → R (.error f) m₁) : Comes (a >>= g) m R := by
  refine Ends.bind (Ends.mono h fun r s' hr => ?_)
  obtain ⟨m₁, rfl, hm₁, hr⟩ := hr
  cases r with
  | ok x => exact hok x m₁ hm₁ hr
  | error f => exact ⟨m₁, rfl, hm₁, herror f m₁ hr⟩

theorem throw_bind {f : Failure} {g : α → Act σ β} (hm : Sound m) (h : R (.error f) m) :
    Comes (MonadExcept.throw f >>= g) m R :=
  Ends.bind (.throw ⟨m, rfl, hm, h⟩)

theorem read {f : σ → α} [Reads a f] {g : α → Act σ β}
    (h : Comes (g (f (state m))) m R) : Comes (a >>= g) m R :=
  Ends.read h

/-- The state changes, and there is a moment that tells it. -/
theorem change_bind {f : σ → σ} {g : Unit → Act σ β} (m₁ : μ)
    (hf : state m₁ = f (state m)) (hg : Comes (g ()) m₁ R) :
    Comes (Act.change f >>= g) m R := by
  refine Ends.change_bind ?_
  rw [← hf]
  exact hg

theorem change {f : σ → σ} {Q : Except Failure Unit → μ → Prop} (m₁ : μ)
    (hf : state m₁ = f (state m)) (hm₁ : Sound m₁) (h : Q (.ok ()) m₁) : Comes (Act.change f) m Q :=
  Ends.change ⟨m₁, hf, hm₁, h⟩

theorem outcome_bind {g : Except Failure α → Act σ β} (h : Comes a m P)
    (hg : ∀ r m₁, Sound m₁ → P r m₁ → Comes (g r) m₁ R) :
    Comes (Act.outcome a >>= g) m R := by
  refine Ends.bind (Ends.outcome (Ends.mono h fun r s' hr => ?_))
  obtain ⟨m₁, rfl, hm₁, hr⟩ := hr
  exact hg r m₁ hm₁ hr

end Comes

/-! ### One after the other -/

section

variable {ι : Type} (does : ι → μ → Except Failure α → μ → Prop)

/-- A script is played: one action after the other, up to the first that fails. -/
inductive Plays : List ι → μ → Except Failure Unit → μ → Prop
  | nil {m : μ} : Plays [] m (.ok ()) m
  | cons {i : ι} {is : List ι} {m m₁ m' : μ} {x : α} {r : Except Failure Unit}
    (h : does i m (.ok x) m₁) (hs : Plays is m₁ r m') : Plays (i :: is) m r m'
  | failed {i : ι} {is : List ι} {m m' : μ} {f : Failure} (h : does i m (.error f) m') :
    Plays (i :: is) m (.error f) m'

/-- A user does one thing after the other, whatever comes of it. -/
inductive Course : List ι → μ → List (Except Failure α) → μ → Prop
  | nil {m : μ} : Course [] m [] m
  | cons {i : ι} {is : List ι} {m m₁ m' : μ} {x : Except Failure α} {xs : List (Except Failure α)}
    (h : does i m x m₁) (hs : Course is m₁ xs m') : Course (i :: is) m (x :: xs) m'

end

variable {ι : Type} {does : ι → μ → Except Failure α → μ → Prop} {act : ι → Act σ α} {m : μ}
  {is : List ι}

theorem Comes.plays (hact : ∀ i ∈ is, ∀ m : μ, Sound m → Comes (act i) m (does i m))
    (hm : Sound m) :
    Comes (forIn is () fun i _ => do
      let _ ← act i
      return .yield ()) m (Plays does is m) := by
  induction is generalizing m with
  | nil => exact .pure hm .nil
  | cons i is ih =>
    obtain ⟨hi, his⟩ := List.forall_mem_cons.1 hact
    rw [List.forIn_cons, bind_assoc]
    refine .bind (hi m hm) (fun x m₁ hm₁ hx => ?_) fun f m₁ hf => .failed hf
    rw [pure_bind]
    exact (ih his hm₁).mono fun r m' hr => .cons hx hr

theorem Comes.course (hact : ∀ i ∈ is, ∀ m : μ, Sound m → Comes (act i) m (does i m))
    (hm : Sound m) :
    Comes (is.mapM fun i => Act.outcome (act i)) m fun r m' =>
      ∃ xs, r = .ok xs ∧ Course does is m xs m' := by
  induction is generalizing m with
  | nil => exact .pure hm ⟨[], rfl, .nil⟩
  | cons i is ih =>
    obtain ⟨hi, his⟩ := List.forall_mem_cons.1 hact
    rw [List.mapM_cons]
    refine .outcome_bind (hi m hm) fun x m₁ hm₁ hx => ?_
    refine .bind (ih his hm₁) ?_ ?_
    · rintro xs m' hm' ⟨_, ⟨⟩, hs⟩
      exact .pure hm' ⟨x :: xs, rfl, .cons hx hs⟩
    · rintro f m' ⟨_, ⟨⟩, -⟩

end Moments

end EditorBridge
