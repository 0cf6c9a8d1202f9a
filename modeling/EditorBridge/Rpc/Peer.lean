/-
One end of a connection.

An end knows what it may write to, what it has received and could not use yet, which of
its requests are not answered, and who handles what the other side sends.
-/
import EditorBridge.Activity.Basic
import EditorBridge.Rpc.Framing

namespace EditorBridge

/-- What a request was sent for: its number, its method, the future of its result, and what
the result is built into. -/
structure PendingRequest where
  id : Nat
  method : String
  future : FutureId
  target : Wire.Target
  deriving Repr, Inhabited

/-- What is done with the parameters of a call from the other side. -/
inductive Reaction where
  /-- Notes the call, cancels a token if there is one, and answers as told. -/
  | note (method : String) (cancels : Option TokenId) (answer : Wire → Except Failure Value)
  /-- Logs a message. -/
  | logMessage
  | logTrace
  | logDiagnostics
  /-- Hands out no settings. -/
  | noSettings
  | logRegistrations
  | ignore
  deriving Inhabited

/-- Who handles calls of a method: what their parameters are built into, and what is done. -/
structure Handler where
  params : Wire.Target := .unchanged
  reaction : Reaction
  deriving Inhabited

/-- What an end writes to: whether it is closing, and the process behind it. -/
structure Outlet where
  closing : Bool := false
  process : Option ProcessId := none
  deriving DecidableEq, Repr, Inhabited

/-- One end of a connection. -/
structure Peer where
  outlet : Option Outlet := none
  buffer : Rpc.Bytes := []
  lastId : Nat := 0
  pending : List PendingRequest := []
  handlers : List (String × Handler) := []
  logger : Logger := { name := "lspbridge.jsonrpc2.protocol.JsonRPCProtocol" }
  deriving Inhabited

namespace Peer

/-- The logger of what goes over the wire. -/
def dataLogger : Logger := { name := "lspbridge.jsonrpc2.protocol.JsonRPCProtocol_data" }

/-- The logger of a language client's end. -/
def clientLogger : Logger := { name := "lspbridge.client.language_client.LanguageClientProtocol" }

/-- The logger of what the server wants to be logged. -/
def serverLogger : Logger :=
  { name := "lspbridge.client.language_client.LanguageClientProtocol_server" }

/-- Whether an end can write. -/
def isOpen (p : Peer) : Bool := p.outlet.any fun o => !o.closing

/-- The handler of a method. -/
def handler? (p : Peer) (method : String) : Option Handler := p.handlers.lookup method

/-- Sets the handler of a method. -/
def addHandler (method : String) (h : Handler) (p : Peer) : Peer :=
  { p with handlers := (method, h) :: p.handlers.filter (·.1 ≠ method) }

/-- Takes the handler of a method away. -/
def removeHandler (method : String) (p : Peer) : Peer :=
  { p with handlers := p.handlers.filter (·.1 ≠ method) }

/-- The request of a number, and an end that does not wait for it any more. -/
def take? (id : Int) (p : Peer) : Option (PendingRequest × Peer) :=
  match p.pending.find? fun r => (r.id : Int) = id with
  | some r => some (r, { p with pending := p.pending.filter fun r => (r.id : Int) ≠ id })
  | none => none

/-- What a language client does with the calls of its server. -/
def clientHandlers : List (String × Handler) := [
  ("window/logMessage", { params := .struct "LogMessageParams", reaction := .logMessage }),
  ("window/showMessage", { params := .struct "ShowMessageParams", reaction := .logMessage }),
  ("$/logTrace", { params := .struct "LogTraceParams", reaction := .logTrace }),
  ("textDocument/publishDiagnostics",
    { params := .struct "PublishDiagnosticsParams", reaction := .logDiagnostics }),
  ("workspace/configuration",
    { params := .struct "ConfigurationParams", reaction := .noSettings }),
  ("client/registerCapability",
    { params := .struct "RegistrationParams", reaction := .logRegistrations }),
  ("client/unregisterCapability", { reaction := .ignore }),
  ("window/workDoneProgress/create", { reaction := .ignore })]

/-- The end of a language client. -/
def ofClient : Peer := { handlers := clientHandlers, logger := clientLogger }

end Peer

end EditorBridge
