/-
Events: lists of listeners that are called in turn.

A listener is in the list at most once, at the place where it was first added since it
was last removed.  A dispatch goes through the listeners that were there when it began
and passes over those that have died in the meantime.  What a listener answers, or how
it fails, is an entry of the result; only a request to end the program stops the
dispatch.
-/
import EditorBridge.Log.Act

namespace EditorBridge

/-- The listeners of an event, in the order in which they are called. -/
structure Event (κ : Type) where
  listeners : List κ := []
  deriving Repr, Inhabited

namespace Event

variable {κ σ α : Type} [DecidableEq κ]

/-- Adds a listener at the end; one that is there keeps its place. -/
def add (k : κ) (e : Event κ) : Event κ :=
  if k ∈ e.listeners then e else ⟨e.listeners ++ [k]⟩

/-- Takes a listener away. -/
def remove (k : κ) (e : Event κ) : Event κ := ⟨e.listeners.filter (· ≠ k)⟩

/-- Whether a listener is there. -/
def contains (k : κ) (e : Event κ) : Bool := decide (k ∈ e.listeners)

/-- Takes away the listeners that have died. -/
def retain (alive : κ → Bool) (e : Event κ) : Event κ := ⟨e.listeners.filter alive⟩

/-- Calls listeners in turn. -/
def callEach (alive : κ → Act σ Bool) (call : κ → Act σ α) :
    List κ → Act σ (List (Except Failure α))
  | [] => return []
  | k :: ks => do
    if ← alive k then
      let r ← Act.outcome (call k)
      if let .error f := r then
        if f.isExit then throw f
      return r :: (← callEach alive call ks)
    else callEach alive call ks

/-- Calls the listeners that are there now, as far as they live when it is their turn. -/
def dispatch (e : Event κ) (alive : κ → Act σ Bool) (call : κ → Act σ α) :
    Act σ (List (Except Failure α)) := callEach alive call e.listeners

end Event

end EditorBridge
