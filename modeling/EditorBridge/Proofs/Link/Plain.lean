/-
Steps of activities below the editor.

Waiting, greeting, stopping and asking are plain steps.  Only a start has a server process
to be run, and it says so itself.  The steps of a client whose server runs leave even less
to do, so they are `Only` of any kind that has room for it.
-/
import EditorBridge.Proofs.Handlers
import EditorBridge.Proofs.Steps

namespace EditorBridge

open Act (Only Plain)

namespace Link

/-! ### Waiting -/

section Waiting

variable {P : Resumption → Bool} [Holds (P .reply)]
  [∀ f waiter timer, Holds (P (.inTime f waiter timer))]
  [∀ f waiter timer late, Holds (P (.givenUp f waiter timer late))]

variable (f waiter : FutureId) (timer : Option Nat) (late : Bool) (r : Except Failure Reply)

instance only_awaiting (rest : Resumption) (go : Except Failure Reply → Act Link Step)
    [Holds (P rest)] [∀ r, Only P (go r)] : Only P (awaiting f rest go) := by
  unfold awaiting
  refine .andThen fun e => ?_
  split <;> infer_instance

instance only_afterGivingUp : Only P (afterGivingUp f late) := by
  unfold afterGivingUp
  refine .andThen fun e => ?_
  split <;> infer_instance

instance only_givenUp : Only P (givenUp f waiter timer late r) := by
  unfold givenUp
  refine .andThen fun _ => ?_
  cases timer <;> cases r <;> infer_instance

instance only_giveUp : Only P (giveUp f timer late) := by
  unfold giveUp
  infer_instance

instance only_inTime (timer : Nat) : Only P (inTime f waiter timer r) := by
  unfold inTime
  refine .andThen fun e => ?_
  split <;> infer_instance

instance only_waitFor (timeout : Option Int) : Only P (waitFor f timeout) := by
  unfold waitFor
  split
  · infer_instance
  · split
    · refine .andThen fun e => ?_
      split <;> infer_instance
    · infer_instance

/-! ### The client -/

section Client

variable [∀ ready, Holds (P (.greeted ready))] [∀ n f timeout, Holds (P (.shutDown n f timeout))]
  [∀ n f, Holds (P (.leaving n f))] [Holds (P .left)] [∀ l call, Holds (P (.traced l call))]

variable (n : ProcessId) (exited : FutureId) (timeout : Option Int) (r : Except Failure Reply)

instance only_greetingFailed (ready : Option FutureId) (f : Failure) :
    Only P (greetingFailed ready f) := by
  unfold greetingFailed
  infer_instance

instance only_greeted (ready : Option FutureId) : Only P (greeted ready r) := by
  unfold greeted
  split
  · infer_instance
  · refine .andThen fun x => ?_
    split <;> infer_instance

instance only_greet : Only P greet := by
  unfold greet
  refine .andThen fun c => .andThen fun x => ?_
  split <;> infer_instance

instance only_running : Only P (running n) := by
  unfold running
  refine .andThen fun _ => .andThen fun c => ?_
  split <;> infer_instance

instance only_whenSpawned (p : PeerId) : Only P (whenSpawned p exited r) := by
  unfold whenSpawned
  refine .andThen fun _ => .andThen fun x => ?_
  split <;> infer_instance

instance only_ready : Only P ready := by
  unfold ready
  refine .andThen fun c => ?_
  split <;> infer_instance

instance only_left : Only P (left r) := by
  unfold left
  infer_instance

instance only_leaving : Only P (leaving n exited r) := by
  unfold leaving
  split <;> infer_instance

instance only_leave : Only P (leave n exited timeout) := by
  unfold leave
  infer_instance

instance only_shutDown : Only P (shutDown n exited timeout r) := by
  unfold shutDown
  refine .andThen fun x => ?_
  split <;> infer_instance

instance only_stop : Only P (stop timeout) := by
  unfold stop
  refine .andThen fun c => ?_
  split
  · refine .andThen fun _ => ?_
    cases c.greeting <;> cases c.peer <;> cases c.greeted.isNothing <;> dsimp only <;>
      infer_instance
  · infer_instance

instance only_tracedStop (arguments : List String) : Only P (tracedStop arguments timeout) := by
  unfold tracedStop
  infer_instance

end Client

end Waiting

/-! ### Whoever is there -/

instance plain_disconnect : Plain disconnect := by
  unfold disconnect
  infer_instance

instance plain_connected : Plain connected := by
  unfold connected
  infer_instance

end Link

/-! ### Queries -/

namespace Query

variable (q : Query)

instance plain_answered (method : String) (token : TokenId) (r : Except Failure Reply) :
    Plain (answered method token r) := by
  unfold answered
  split <;> infer_instance

instance plain_onLink (a : Act Link Step) [Plain a] : Plain (onLink a) := by
  unfold onLink Tracker.onChannel
  infer_instance

instance plain_request (params : Value) (token : TokenId) : Plain (q.request params token) := by
  unfold request
  refine .andThen fun _ => .andThen fun x => ?_
  split <;> infer_instance

instance plain_converted {σ : Type} (r : Except Failure Reply) :
    Plain (converted q r : Act σ Step) := by
  unfold converted
  infer_instance

instance plain_tracedAsk (schemes : List String) (d : Document) (p : Position)
    (token : Option TokenId) : Plain (tracedAsk schemes q d p token) := by
  have : Plain (ask schemes q d p token) := by
    unfold ask
    cases token <;> infer_instance
  unfold tracedAsk
  infer_instance

end Query

end EditorBridge
