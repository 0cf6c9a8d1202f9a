/-
What activities have left to do.

Most of what an activity can have left to do changes nothing that the theory is about.
The exception is the middle of a start: the server process is about to run, for one end
and once only.  So two things are known of an act that is a step of an activity.  It is
`Plain` if all that it leaves to do is plain; and `Steps` tells apart, for the few acts
that can begin a start, the outcomes where they did from those where they did not.
-/
import EditorBridge.Proofs.Link.Ear

namespace EditorBridge

variable {σ τ : Type}

/-- What is left to be done after a step. -/
def Step.rest : Step → List Resumption
  | .done _ => []
  | .wait _ ks | .turn ks => ks

theorem Resumption.starts_append (ks ks' : List Resumption) :
    starts (ks ++ ks') = starts ks ++ starts ks' := List.filterMap_append

/-- Something is the case. -/
class Holds (b : Bool) : Prop where
  eq_true : b = true

instance : Holds true := ⟨rfl⟩

/-- Everything that an activity has left to do is of a kind. -/
def Resumption.All (P : Resumption → Bool) (rest : List Resumption) : Prop :=
  ∀ k ∈ rest, P k = true

namespace Resumption.All

variable {P : Resumption → Bool}

theorem nil : All P [] := List.forall_mem_nil _

theorem singleton (k : Resumption) [h : Holds (P k)] : All P [k] :=
  List.forall_mem_singleton.2 h.eq_true

theorem append {ks ks' : List Resumption} (h : All P ks) (h' : All P ks') : All P (ks ++ ks') :=
  List.forall_mem_append.2 ⟨h, h'⟩

end Resumption.All

open Resumption (All AllPlain)

namespace Act

/-! ### Steps that leave one kind of things to do -/

/-- However a step ends, all that it leaves to do is of a kind. -/
class Only (P : Resumption → Bool) (a : Act σ Step) : Prop where
  only : ∀ e x, (a e).1 = .ok x → All P x.rest

/-- However a step ends, all that it leaves to do is plain. -/
abbrev Plain (a : Act σ Step) : Prop := Only Resumption.plain a

namespace Only

variable {α : Type} {P : Resumption → Bool}

theorem of_ends {a : Act σ Step}
    (h : ∀ s, Ends a s fun r _ => ∀ x, r = .ok x → All P x.rest) : Only P a :=
  ⟨fun e x hx => h e.state e.journal x hx⟩

theorem ends {a : Act σ Step} (h : Only P a) (s : σ) :
    Ends a s fun r _ => ∀ x, r = .ok x → All P x.rest := fun j x hx => h.only ⟨j, s⟩ x hx

instance done (r : Reply) : Only P (pure (.done r) : Act σ Step) :=
  .of_ends fun _ => .pure fun x hx => by cases hx; exact .nil

instance wait (f : FutureId) (k : Resumption) [Holds (P k)] :
    Only P (pure (.wait f [k]) : Act σ Step) :=
  .of_ends fun _ => .pure fun x hx => by cases hx; exact .singleton k

instance throw (f : Failure) : Only P (MonadExcept.throw f : Act σ Step) :=
  .of_ends fun _ => .throw nofun

instance bind (a : Act σ α) (f : α → Act σ Step) [hf : ∀ x, Only P (f x)] : Only P (a >>= f) := by
  refine .of_ends fun s => .bind fun j => ?_
  cases (a ⟨j, s⟩).1 with
  | ok y => exact (hf y).ends _
  | error f => exact nofun

theorem andThen {a : Act σ α} {f : α → Act σ Step} (hf : ∀ x, Only P (f x)) : Only P (a >>= f) :=
  Only.bind a f

instance ite (c : Prop) [Decidable c] (a b : Act σ Step) [Only P a] [Only P b] :
    Only P (if c then a else b) := by
  split <;> infer_instance

instance calling (a : Act σ Step) (k : Resumption) (go : Except Failure Reply → Act σ Step)
    [ha : Only P a] [Holds (P k)] [hgo : ∀ r, Only P (go r)] : Only P (Step.calling a k go) := by
  unfold Step.calling
  refine .of_ends fun s => .bind (.outcome ((ha.ends s).mono fun r s' hr => ?_))
  dsimp only
  split
  · exact (hgo _).ends _
  · exact (hgo _).ends _
  · exact .pure fun x hx => by cases hx; exact (hr _ rfl).append (.singleton k)
  · exact .pure fun x hx => by cases hx; exact (hr _ rfl).append (.singleton k)

instance afterCall (l : Logger) (call : String) (r : Except Failure Reply) :
    Only P (Step.afterCall l call r : Act σ Step) := by
  unfold Step.afterCall
  split <;> infer_instance

instance traced (l : Logger) (call : String) (arguments : Unit → List String) (a : Act σ Step)
    [Holds (P (.traced l call))] [Only P a] : Only P (Step.traced l call arguments a) := by
  unfold Step.traced
  infer_instance

instance on (part : σ → τ) (replace : τ → σ → σ) (a : Act τ Step) [h : Only P a] :
    Only P (Act.on part replace a) :=
  .of_ends fun s => .on (h.ends (part s))

end Only

/-! ### Steps that can begin a start -/

/-- How a step ends: one relation holds and nothing was begun, or a start was begun and another
relation holds. -/
inductive Stepped (R : σ → σ → Prop) (S : PeerId → σ → σ → Prop) (s : σ) :
    Except Failure Step → σ → Prop
  | plain {r : Except Failure Step} {s' : σ} (h : R s s')
    (hr : ∀ x, r = .ok x → AllPlain x.rest) : Stepped R S s r s'
  | start {x : Step} {p : PeerId} {f : FutureId} {ks : List Resumption} {s' : σ}
    (hx : x.rest = .spawned p f :: ks) (hks : AllPlain ks) (h : S p s s') :
    Stepped R S s (.ok x) s'

namespace Stepped

variable {R : σ → σ → Prop} {S : PeerId → σ → σ → Prop} {s s₁ s₂ : σ} {r : Except Failure Step}

/-- What was done before a step belongs to it. -/
theorem after [IsPreorder σ R] (hS : ∀ p s s₁ s₂, R s s₁ → S p s₁ s₂ → S p s s₂) (h : R s s₁)
    (h' : Stepped R S s₁ r s₂) : Stepped R S s r s₂ := by
  cases h' with
  | plain hR hr => exact .plain (trans_of R h hR) hr
  | start hx hks h' => exact .start hx hks (hS _ _ _ _ h h')

/-- Somebody waits for the end of a step. -/
theorem append {x x' : Step} {ks : List Resumption} (h : Stepped R S s (.ok x) s₁)
    (hx : x'.rest = x.rest ++ ks) (hks : AllPlain ks) : Stepped R S s (.ok x') s₁ := by
  cases h with
  | plain hR hr => exact .plain hR fun y hy => by cases hy; exact hx ▸ All.append (hr x rfl) hks
  | start hx' hks' h' => exact .start (hx.trans (congrArg (· ++ ks) hx')) (All.append hks' hks) h'

/-- A step that came to an end began no start. -/
theorem of_done {reply : Reply} (h : Stepped R S s (.ok (.done reply)) s₁) : R s s₁ := by
  cases h with
  | plain hR => exact hR
  | start hx => cases hx

theorem of_error {f : Failure} (h : Stepped R S s (.error f) s₁) : R s s₁ := by
  cases h with
  | plain hR => exact hR

end Stepped

/-- Wherever a step begins, it ends in one of these ways. -/
def Steps (R : σ → σ → Prop) (S : PeerId → σ → σ → Prop) (a : Act σ Step) : Prop :=
  ∀ s, Ends a s (Stepped R S s)

namespace Steps

variable {α : Type} {R : σ → σ → Prop} {S : PeerId → σ → σ → Prop}

theorem of_plain {a : Act σ Step} [hR : Keeps R a] [ha : Plain a] : Steps R S a :=
  fun s => ((hR.ends s).and (ha.ends s)).mono fun _ _ h => .plain h.1 h.2

variable [IsPreorder σ R]

theorem bind (hS : ∀ p s s₁ s₂, R s s₁ → S p s₁ s₂ → S p s s₂) {a : Act σ α}
    {f : α → Act σ Step} [hR : Keeps R a] (hf : ∀ x, Steps R S (f x)) : Steps R S (a >>= f) := by
  refine fun s => .bind ((hR.ends s).mono fun r s₁ h => ?_)
  cases r with
  | ok x => exact (hf x s₁).mono fun _ _ => .after hS h
  | error f => exact .plain h nofun

/-- A call begins a start if what is called does, or if what follows does. -/
theorem calling (hS : ∀ p s s₁ s₂, R s s₁ → S p s₁ s₂ → S p s s₂) {a : Act σ Step}
    {k : Resumption} {go : Except Failure Reply → Act σ Step} [Holds k.plain]
    (ha : Steps R S a) (hgo : ∀ r, Steps R S (go r)) : Steps R S (Step.calling a k go) := by
  have hrest : AllPlain [k] := All.singleton k
  unfold Step.calling
  refine fun s => .bind (.outcome ((ha s).mono fun r s₁ h => ?_))
  dsimp only
  split
  · exact (hgo _ s₁).mono fun _ _ => .after hS h.of_error
  · exact (hgo _ s₁).mono fun _ _ => .after hS h.of_done
  · exact .pure (h.append rfl hrest)
  · exact .pure (h.append rfl hrest)

theorem traced (hS : ∀ p s s₁ s₂, R s s₁ → S p s₁ s₂ → S p s s₂) {l : Logger} {call : String}
    {arguments : Unit → List String} {a : Act σ Step} (ha : Steps R S a) :
    Steps R S (Step.traced l call arguments a) := by
  have : Keeps R (Act.traces l .trace : Act σ Bool) := ⟨fun e => refl _⟩
  unfold Step.traced
  refine bind hS fun b => ?_
  split
  · exact bind hS fun _ => calling hS ha fun r => of_plain
  · exact ha

end Steps

end Act

end EditorBridge
