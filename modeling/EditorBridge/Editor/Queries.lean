/-
Providers of hovers and proposals, and queries to them.

A query asks the providers that serve the document, one after the other, in the order of
their registration, and merges their answers.  A proposal that was set off by a character
is asked of the providers that are registered for it only.
-/
import EditorBridge.Editor.Documents

namespace EditorBridge.Workbench

/-- The registrations for a kind of query. -/
def registrations (q : Query) (w : Workbench) : List Registration :=
  match q with
  | .hover => w.hovers
  | .completion => w.completions

/-- Changes the registrations for a kind of query. -/
def onRegistrations (q : Query) (f : List Registration → List Registration) : Act Workbench Unit :=
  Act.change fun w => match q with
    | .hover => { w with hovers := f w.hovers }
    | .completion => { w with completions := f w.completions }

/-- Registers a provider. -/
def register (q : Query) (r : Registration) : Act Workbench Unit := onRegistrations q (· ++ [r])

/-- Takes the first registration of that kind away. -/
def unregister (q : Query) (r : Registration) : Act Workbench Unit :=
  onRegistrations q fun rs => rs.erase r

/-- The registrations that serve a document now. -/
def serving (q : Query) (d : DocumentId) : Act Workbench (List Registration) := do
  let w ← Act.state
  return Registration.serving (registrations q w) (w.documents.getD d default)

/-- Asks a provider from outside. -/
def askInformant (n : Nat) (q : Question) : Act Workbench Step := do
  let informant := (← Act.state).informants.getD n default
  notice (.asked informant.name (← document q.document).identity q.position
    (← onLink (Link.isCancelled q.token)))
  if let some f := informant.failure then throw f
  return .done informant.answer

/-- Asks a query proxy. -/
def askProxy (n : Nat) (kind : Query) (d : DocumentId) (p : Position) (token : Option TokenId) :
    Act Workbench Step := do
  let proxy := (← Act.state).proxies.getD n default
  onTracker proxy.tracker (Query.tracedAsk proxy.schemes kind (← document d) p token)

/-- Asks a provider. -/
def ask (r : Registration) (kind : Query) (q : Question) : Act Workbench Step :=
  match r.provider with
  | .external n => askInformant n q
  | .proxy n => askProxy n kind q.document q.position (some q.token)

/-- Adds the answer of a provider to a hover. -/
def addHover (soFar : Hover) : Reply → Hover
  | .hover (some h) => soFar.append h
  | _ => soFar

/-- Adds the answer of a provider to proposals. -/
def addCompletions (soFar : Option CompletionList) : Reply → Option CompletionList
  | .completions (some l) => some ((soFar.getD {}).append l)
  | _ => soFar

/-- Asks the providers of hovers that are left. -/
def moreHovers (q : Question) (soFar : Hover) : List Registration → Act Workbench Step
  | [] => return .done (.hover soFar.unlessEmpty)
  | r :: rs => Step.calling (ask r .hover q) (.hovers soFar rs q) fun x => do
    moreHovers q (addHover soFar (← Act.ofExcept x)) rs

/-- Asks the providers of hovers. -/
def askHover (q : Question) : Act Workbench Step := do
  moreHovers q ⟨[], none⟩ (← serving .hover q.document)

/-- Asks the providers of proposals that are left. -/
def moreCompletions (q : Question) (soFar : Option CompletionList) :
    List Registration → Act Workbench Step
  | [] => return .done (.completions soFar)
  | r :: rs => Step.calling (ask r .completion q) (.completions soFar rs q) fun x => do
    moreCompletions q (addCompletions soFar (← Act.ofExcept x)) rs

/-- Asks the providers of proposals. -/
def askCompletion (q : Question) (trigger : Option String) : Act Workbench Step := do
  moreCompletions q none ((← serving .completion q.document).filter (Registration.asked trigger))

/-- The characters that make the editor ask for proposals in a document. -/
def triggers (d : DocumentId) : Act Workbench (List String) := do
  let w ← Act.state
  return Registration.triggersOf w.completions (w.documents.getD d default)

end EditorBridge.Workbench
