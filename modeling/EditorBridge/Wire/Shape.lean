/-
The structures of the language server protocol.

Every structure is a list of members in the order of the protocol, each with the
shape of its value; members that nothing here reads or writes are left out.  On the wire
the members that are always written come first, then the others, as far as they hold
something.
-/
import EditorBridge.Value.Shown

namespace EditorBridge.Wire

/-- What a member may hold. -/
inductive Shape where
  /-- Any value, unchanged. -/
  | raw
  | text
  | flag
  /-- A number from 0 to 2147483647. -/
  | uint
  /-- A number from -2147483648 to 2147483647. -/
  | int32
  | oneOf (values : List Value)
  | list (item : Shape)
  | struct (name : String)
  /-- A scalar, unchanged, or a structure. -/
  | scalarOr (name : String)
  /-- Text with or without markup, in any of the forms the protocol knows. -/
  | markup
  /-- A plain edit, or one with a range for insertion and one for replacement. -/
  | edit
  /-- A change of a part of a document or of the whole. -/
  | change
  deriving Repr, Inhabited

/-- A member of a structure. -/
structure Member where
  name : String
  shape : Shape
  /-- Whether the member has to be there. -/
  required : Bool := false
  /-- Whether the member is written even if it holds null. -/
  always : Bool := false
  deriving Repr, Inhabited

/-- A structure of the protocol. -/
structure Struct where
  name : String
  members : List Member
  deriving Repr, Inhabited

/-- A member that has to be there. -/
def need (name : String) (shape : Shape) : Member := { name, shape, required := true }

/-- A member that may be missing. -/
def may (name : String) (shape : Shape) : Member := { name, shape }

/-- A member that may be missing but is always written. -/
def null (name : String) (shape : Shape) : Member := { name, shape, always := true }

/-- The members in the order in which they are written. -/
def Struct.written (s : Struct) : List Member :=
  s.members.filter (fun m => m.required || m.always) ++
    s.members.filter fun m => !(m.required || m.always)

/-- Whole numbers as values. -/
def numbers (ns : List Int) : List Value := ns.map .int

private def range : Shape := .struct "Range"
private def document : Shape := .struct "TextDocumentIdentifier"
private def position : Shape := .struct "Position"
private def texts : Shape := .list .text

/-- The structures of the protocol that are in use.  They are an excerpt.  Of what servers and
clients can say about themselves only those members are listed that are read or written here: six
of `ServerCapabilities`, without the providers of definitions, symbols, renaming and so on, and
likewise of the capabilities of clients.  What stands under a member that is not listed is not
looked at, whether it fits the protocol or not. -/
def structs : List Struct := [
  ⟨"Position", [need "line" .uint, need "character" .uint]⟩,
  ⟨"Range", [need "start" position, need "end" position]⟩,
  ⟨"TextEdit", [need "range" range, need "newText" .text]⟩,
  ⟨"InsertReplaceEdit", [need "newText" .text, need "insert" range, need "replace" range]⟩,
  ⟨"MarkupContent", [need "kind" (.oneOf [.str "plaintext", .str "markdown"]),
    need "value" .text]⟩,
  ⟨"MarkedStringWithLanguage", [need "language" .text, need "value" .text]⟩,
  ⟨"Hover", [need "contents" .markup, may "range" range]⟩,
  ⟨"CompletionItemLabelDetails", [may "detail" .text, may "description" .text]⟩,
  ⟨"Command", [need "title" .text, need "command" .text, may "tooltip" .text,
    may "arguments" (.list .raw)]⟩,
  ⟨"CompletionItem", [need "label" .text, may "labelDetails" (.struct "CompletionItemLabelDetails"),
    may "kind" .raw, may "tags" (.list (.oneOf (numbers [1]))), may "detail" .text,
    may "documentation" .markup, may "deprecated" .flag, may "preselect" .flag,
    may "sortText" .text, may "filterText" .text, may "insertText" .text,
    may "insertTextFormat" (.oneOf (numbers [1, 2])),
    may "insertTextMode" (.oneOf (numbers [1, 2])),
    may "textEdit" .edit, may "textEditText" .text,
    may "additionalTextEdits" (.list (.struct "TextEdit")), may "commitCharacters" texts,
    may "command" (.struct "Command"), may "data" .raw]⟩,
  ⟨"CompletionItemDefaults", [may "commitCharacters" texts, may "editRange" .raw,
    may "insertTextFormat" (.oneOf (numbers [1, 2])),
    may "insertTextMode" (.oneOf (numbers [1, 2])),
    may "data" .raw]⟩,
  ⟨"CompletionList", [need "isIncomplete" .flag, need "items" (.list (.struct "CompletionItem")),
    may "itemDefaults" (.struct "CompletionItemDefaults"), may "applyKind" .raw]⟩,
  ⟨"TextDocumentIdentifier", [need "uri" .text]⟩,
  ⟨"VersionedTextDocumentIdentifier", [need "version" .int32, need "uri" .text]⟩,
  ⟨"TextDocumentItem", [need "uri" .text, need "languageId" .raw, need "version" .int32,
    need "text" .text]⟩,
  ⟨"HoverParams", [need "textDocument" document, need "position" position,
    may "workDoneToken" .raw]⟩,
  ⟨"CompletionContext", [need "triggerKind" (.oneOf (numbers [1, 2, 3])),
    may "triggerCharacter" .text]⟩,
  ⟨"CompletionParams", [need "textDocument" document, need "position" position,
    may "context" (.struct "CompletionContext"), may "workDoneToken" .raw,
    may "partialResultToken" .raw]⟩,
  ⟨"TextDocumentPositionParams", [need "textDocument" document, need "position" position]⟩,
  ⟨"FormattingOptions", [need "tabSize" .uint, need "insertSpaces" .flag,
    may "trimTrailingWhitespace" .flag, may "insertFinalNewline" .flag,
    may "trimFinalNewlines" .flag]⟩,
  ⟨"DocumentFormattingParams", [need "textDocument" document,
    need "options" (.struct "FormattingOptions"), may "workDoneToken" .raw]⟩,
  ⟨"DidOpenTextDocumentParams", [need "textDocument" (.struct "TextDocumentItem")]⟩,
  ⟨"DidChangeTextDocumentParams", [
    need "textDocument" (.struct "VersionedTextDocumentIdentifier"),
    need "contentChanges" (.list .change)]⟩,
  ⟨"TextDocumentContentChangePartial", [need "range" range, need "text" .text,
    may "rangeLength" .uint]⟩,
  ⟨"TextDocumentContentChangeWholeDocument", [need "text" .text]⟩,
  ⟨"DidSaveTextDocumentParams", [need "textDocument" document, may "text" .text]⟩,
  ⟨"DidCloseTextDocumentParams", [need "textDocument" document]⟩,
  ⟨"LogMessageParams", [need "type" (.oneOf (numbers [1, 2, 3, 4, 5])), need "message" .text]⟩,
  ⟨"ShowMessageParams", [need "type" (.oneOf (numbers [1, 2, 3, 4, 5])), need "message" .text]⟩,
  ⟨"LogTraceParams", [need "message" .text, may "verbose" .text]⟩,
  ⟨"ConfigurationItem", [may "scopeUri" .text, may "section" .text]⟩,
  ⟨"ConfigurationParams", [need "items" (.list (.struct "ConfigurationItem"))]⟩,
  ⟨"Registration", [need "id" .text, need "method" .text, may "registerOptions" .raw]⟩,
  ⟨"RegistrationParams", [need "registrations" (.list (.struct "Registration"))]⟩,
  ⟨"CodeDescription", [need "href" .text]⟩,
  ⟨"Location", [need "uri" .text, need "range" range]⟩,
  ⟨"DiagnosticRelatedInformation", [need "location" (.struct "Location"),
    need "message" .text]⟩,
  ⟨"Diagnostic", [need "range" range, need "message" .text,
    may "severity" (.oneOf (numbers [1, 2, 3, 4])), may "code" .raw,
    may "codeDescription" (.struct "CodeDescription"), may "source" .text,
    may "tags" (.list (.oneOf (numbers [1, 2]))),
    may "relatedInformation" (.list (.struct "DiagnosticRelatedInformation")), may "data" .raw]⟩,
  ⟨"PublishDiagnosticsParams", [need "uri" .text, need "diagnostics" (.list (.struct "Diagnostic")),
    may "version" .int32]⟩,
  ⟨"SaveOptions", [may "includeText" .flag]⟩,
  ⟨"TextDocumentSyncOptions", [may "openClose" .flag, may "change" (.oneOf (numbers [0, 1, 2])),
    may "willSave" .flag, may "willSaveWaitUntil" .flag, may "save" (.scalarOr "SaveOptions")]⟩,
  ⟨"ServerCompletionItemOptions", [may "labelDetailsSupport" .flag]⟩,
  ⟨"CompletionOptions", [may "triggerCharacters" texts, may "allCommitCharacters" texts,
    may "resolveProvider" .flag, may "completionItem" (.struct "ServerCompletionItemOptions"),
    may "workDoneProgress" .flag]⟩,
  ⟨"HoverOptions", [may "workDoneProgress" .flag]⟩,
  ⟨"DocumentFormattingOptions", [may "workDoneProgress" .flag]⟩,
  ⟨"ServerCapabilities", [may "positionEncoding" .raw,
    may "textDocumentSync" (.scalarOr "TextDocumentSyncOptions"),
    may "completionProvider" (.struct "CompletionOptions"),
    may "hoverProvider" (.scalarOr "HoverOptions"),
    may "documentFormattingProvider" (.scalarOr "DocumentFormattingOptions"),
    may "experimental" .raw]⟩,
  ⟨"ServerInfo", [need "name" .text, may "version" .text]⟩,
  ⟨"InitializeResult", [need "capabilities" (.struct "ServerCapabilities"),
    may "serverInfo" (.struct "ServerInfo")]⟩,
  ⟨"ClientInfo", [need "name" .text, may "version" .text]⟩,
  ⟨"WorkspaceFolder", [need "uri" .text, need "name" .text]⟩,
  ⟨"WorkspaceClientCapabilities", [may "workspaceFolders" .flag, may "configuration" .flag]⟩,
  ⟨"TextDocumentSyncClientCapabilities", [may "didSave" .flag]⟩,
  ⟨"ClientCompletionItemOptions", [may "snippetSupport" .flag, may "documentationFormat" texts,
    may "deprecatedSupport" .flag, may "insertReplaceSupport" .flag]⟩,
  ⟨"CompletionClientCapabilities", [
    may "completionItem" (.struct "ClientCompletionItemOptions"), may "contextSupport" .flag]⟩,
  ⟨"HoverClientCapabilities", [may "contentFormat" texts]⟩,
  ⟨"DocumentFormattingClientCapabilities", []⟩,
  ⟨"PublishDiagnosticsClientCapabilities", []⟩,
  ⟨"TextDocumentClientCapabilities", [
    may "synchronization" (.struct "TextDocumentSyncClientCapabilities"),
    may "completion" (.struct "CompletionClientCapabilities"),
    may "hover" (.struct "HoverClientCapabilities"),
    may "formatting" (.struct "DocumentFormattingClientCapabilities"),
    may "publishDiagnostics" (.struct "PublishDiagnosticsClientCapabilities")]⟩,
  ⟨"GeneralClientCapabilities", [may "positionEncodings" texts]⟩,
  ⟨"ClientCapabilities", [may "workspace" (.struct "WorkspaceClientCapabilities"),
    may "textDocument" (.struct "TextDocumentClientCapabilities"),
    may "general" (.struct "GeneralClientCapabilities"), may "experimental" .raw]⟩,
  ⟨"InitializeParams", [need "capabilities" (.struct "ClientCapabilities"),
    null "processId" .int32, may "clientInfo" (.struct "ClientInfo"), may "locale" .text,
    null "rootPath" .text, null "rootUri" .text, may "initializationOptions" .raw,
    may "trace" (.oneOf [.str "off", .str "messages", .str "verbose"]),
    may "workDoneToken" .raw, null "workspaceFolders" (.list (.struct "WorkspaceFolder"))]⟩]

/-- The structure of that name. -/
def struct? (name : String) : Option Struct := structs.find? (·.name == name)

end EditorBridge.Wire
