/-
Cancellation tokens.

A token is cancelled once and for all.  The callbacks registered by then are called in
the order of their registration and forgotten; a callback that comes later is called at
once.  A callback may fail without consequences for anybody else, unless it asks for
the end of the program.
-/
import EditorBridge.Log.Act

namespace EditorBridge

/-- A token with callbacks of type `κ`. -/
structure Token (κ : Type) where
  requested : Bool := false
  callbacks : List κ := []
  deriving Repr, Inhabited

namespace Token

variable {κ σ : Type}

/-- The logger of tokens. -/
def logger : Logger := { name := "lspbridge.core.cancellation.CancellationToken" }

/-- How a token is shown in messages. -/
def shown (t : Token κ) : String :=
  "CancellationToken(is_cancellation_requested=" ++ (if t.requested then "True" else "False") ++ ")"

/-- Registers a callback.  The flag says whether it has to be called now instead. -/
def register (k : κ) (t : Token κ) : Bool × Token κ :=
  if t.requested then (true, t) else (false, { t with callbacks := t.callbacks ++ [k] })

/-- Takes the first registration of a callback away. -/
def unregister [DecidableEq κ] (k : κ) (t : Token κ) : Token κ :=
  { t with callbacks := t.callbacks.erase k }

/-- Cancels a token: the callbacks to be called, and the token without them. -/
def cancel (t : Token κ) : List κ × Token κ :=
  if t.requested then ([], t) else (t.callbacks, ⟨true, []⟩)

/-- Calls a callback; its failure is only recorded. -/
def call (a : Act σ Unit) : Act σ Unit := do
  match ← Act.outcome a with
  | .ok () => return
  | .error f => if f.isExit then throw f else Act.logFailure logger f

end Token

end EditorBridge
