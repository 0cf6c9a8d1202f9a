/-
The turns of a dispatch.

A dispatch goes through the listeners that were there when it began, and each of them has its
turn.  Whoever is alive then is called, and the others are passed over.  What it answers, or
how it fails, is an entry of the result, and only a request to end the program keeps those
behind it from having their turn.

This holds whatever the listeners do (`callEach_dispatched`): nothing is asked of a call but a
relation between the moment when it begins and the moment when it ends.
-/
import EditorBridge.Event.Basic
import EditorBridge.Proofs.Moments

namespace EditorBridge.Event

open Act (Reads)
open Moments (Comes Sound state)

variable {μ κ α σ : Type}

/-- A turn. -/
structure Turn (μ κ α : Type) where
  listener : κ
  /-- The moment when the turn comes. -/
  before : μ
  /-- What the listener answered or how it failed, if it was called. -/
  outcome : Option (Except Failure α)
  /-- The moment when the turn is over. -/
  after : μ

/-- Whether a listener asked for the end of the program. -/
def Turn.exits (t : Turn μ κ α) : Bool :=
  match t.outcome with
  | some (.error f) => f.isExit
  | _ => false

/-- From one moment to another, one turn after the other. -/
inductive Chained : μ → List (Turn μ κ α) → μ → Prop
  | nil {m : μ} : Chained m [] m
  | cons {t : Turn μ κ α} {ts : List (Turn μ κ α)} {m m' : μ} (ht : t.before = m)
    (h : Chained t.after ts m') : Chained m (t :: ts) m'

/-- How a dispatch ends. -/
inductive Ended (ks : List κ) (ts : List (Turn μ κ α)) :
    Except Failure (List (Except Failure α)) → Prop
  /-- Everybody has had a turn, and there is an entry for everyone who was called. -/
  | through (hks : ts.map (·.listener) = ks) (hexits : ∀ t ∈ ts, t.exits = false) :
    Ended ks ts (.ok (ts.filterMap (·.outcome)))
  /-- The last one who had a turn asked for the end of the program. -/
  | stopped {earlier : List (Turn μ κ α)} {last : Turn μ κ α} {f : Failure}
    (hts : ts = earlier ++ [last]) (hks : ts.map (·.listener) <+: ks)
    (hexits : ∀ t ∈ earlier, t.exits = false) (hlast : last.outcome = some (.error f))
    (hf : f.isExit = true) : Ended ks ts (.error f)

/-- What a dispatch to these listeners does. -/
structure Dispatched (lives : μ → κ → Bool) (calls : κ → μ → Except Failure α → μ → Prop)
    (ks : List κ) (m : μ) (ts : List (Turn μ κ α))
    (r : Except Failure (List (Except Failure α))) (m' : μ) : Prop where
  chained : Chained m ts m'
  /-- Whoever is alive when the turn comes is called, and nobody else. -/
  called : ∀ t ∈ ts, t.outcome.isSome = lives t.before t.listener
  /-- Nothing happens in the turn of somebody who is not called. -/
  passed : ∀ t ∈ ts, t.outcome = none → t.after = t.before
  calls : ∀ t ∈ ts, ∀ x, t.outcome = some x → calls t.listener t.before x t.after
  ended : Ended ks ts r

variable {lives : μ → κ → Bool} {calls : κ → μ → Except Failure α → μ → Prop} {ks : List κ} {k : κ}
  {m m' : μ} {t : Turn μ κ α} {ts : List (Turn μ κ α)} {x : Except Failure α}
  {r : Except Failure (List (Except Failure α))}

/-- Another turn before the others. -/
theorem Ended.cons (h : Ended ks ts r) (ht : t.exits = false) :
    Ended (t.listener :: ks) (t :: ts) (r.map (t.outcome.toList ++ ·)) := by
  cases h with
  | through hks hexits =>
    have hentries : t.outcome.toList ++ ts.filterMap (·.outcome) =
        (t :: ts).filterMap (·.outcome) := by
      cases ho : t.outcome <;> simp [ho]
    show Ended _ _ (.ok (t.outcome.toList ++ _))
    rw [hentries]
    exact .through (by simp [hks]) (List.forall_mem_cons.2 ⟨ht, hexits⟩)
  | @stopped earlier last f hts hks hexits hlast hf =>
    have hearlier : ∀ t' ∈ t :: earlier, t'.exits = false := List.forall_mem_cons.2 ⟨ht, hexits⟩
    exact .stopped (by rw [hts, List.cons_append]) (by simpa using hks) hearlier hlast hf

/-- A listener has died in the meantime. -/
theorem Dispatched.pass (h : Dispatched lives calls ks m ts r m') (hk : lives m k = false) :
    Dispatched lives calls (k :: ks) m (⟨k, m, none, m⟩ :: ts) r m' where
  chained := .cons rfl h.chained
  called := List.forall_mem_cons.2 ⟨hk.symm, h.called⟩
  passed := List.forall_mem_cons.2 ⟨fun _ => rfl, h.passed⟩
  calls := List.forall_mem_cons.2 ⟨fun _ => nofun, h.calls⟩
  ended := by
    have hended := h.ended.cons (t := ⟨k, m, none, m⟩) rfl
    cases r <;> exact hended

/-- A listener is called, and the dispatch goes on. -/
theorem Dispatched.call {m₁ : μ} (h : Dispatched lives calls ks m₁ ts r m')
    (hk : lives m k = true) (hcall : calls k m x m₁)
    (hexits : (⟨k, m, some x, m₁⟩ : Turn μ κ α).exits = false) :
    Dispatched lives calls (k :: ks) m (⟨k, m, some x, m₁⟩ :: ts) (r.map (x :: ·)) m' where
  chained := .cons rfl h.chained
  called := List.forall_mem_cons.2 ⟨hk.symm, h.called⟩
  passed := List.forall_mem_cons.2 ⟨nofun, h.passed⟩
  calls := List.forall_mem_cons.2 ⟨fun _ hx => Option.some.inj hx ▸ hcall, h.calls⟩
  ended := h.ended.cons hexits

/-- A listener asks for the end of the program. -/
theorem Dispatched.stop {f : Failure} (hk : lives m k = true) (hcall : calls k m (.error f) m')
    (hf : f.isExit = true) :
    Dispatched lives calls (k :: ks) m [⟨k, m, some (.error f), m'⟩] (.error f) m' where
  chained := .cons rfl .nil
  called := List.forall_mem_singleton.2 hk.symm
  passed := List.forall_mem_singleton.2 nofun
  calls := List.forall_mem_singleton.2 fun _ hx => Option.some.inj hx ▸ hcall
  ended := .stopped (List.nil_append _).symm (by simp) (List.forall_mem_nil _) rfl hf

/-- **A dispatch** gives everybody a turn, whatever the listeners do. -/
theorem callEach_dispatched [Moments μ σ] {living : σ → κ → Bool} {alive : κ → Act σ Bool}
    [∀ k, Reads (alive k) (living · k)] {call : κ → Act σ α}
    (hcall : ∀ k (m : μ), Sound m → Comes (call k) m (calls k m)) (hm : Sound m) :
    Comes (callEach alive call ks) m fun r m' =>
      ∃ ts, Dispatched (fun m => living (state m)) calls ks m ts r m' := by
  induction ks generalizing m with
  | nil => exact .pure hm ⟨[], .nil, nofun, nofun, nofun, .through rfl nofun⟩
  | cons k ks ih =>
    unfold callEach
    refine .read ?_
    split
    · rename_i hk
      refine .outcome_bind (hcall k m hm) fun x m₁ hm₁ hx => ?_
      have hrest (hexits : (⟨k, m, some x, m₁⟩ : Turn μ κ α).exits = false) :
          Comes (do return x :: (← callEach alive call ks)) m₁ fun r m' =>
            ∃ ts, Dispatched (fun m => living (state m)) calls (k :: ks) m ts r m' := by
        refine .bind (ih hm₁) ?_ ?_
        · rintro xs m' hm' ⟨ts, hts⟩
          exact .pure hm' ⟨_, hts.call hk hx hexits⟩
        · rintro f m' ⟨ts, hts⟩
          exact ⟨_, hts.call hk hx hexits⟩
      cases x with
      | ok x => exact hrest rfl
      | error f =>
        dsimp only
        split
        · rename_i hf
          exact .throw_bind hm₁ ⟨_, .stop hk hx hf⟩
        · rename_i hf
          exact hrest (by simpa [Turn.exits] using hf)
    · rename_i hk
      refine (ih hm).mono fun r m' hr => ?_
      obtain ⟨ts, hts⟩ := hr
      exact ⟨_, hts.pass (by simpa using hk)⟩

end EditorBridge.Event
