/-
What the editor shows about a place in a document: hovers, and proposals for what could be written
there.

A hover is text with markup.  Plain text becomes markup by a backslash in front of every
character that could mean something; code in some language becomes a fenced block.

The kinds of proposals are counted from zero here and from one in the protocol; a
number that is no kind counts as a property.

All of this is shown as records of certain classes, whose defaults tell which fields need not be
printed.
-/
import EditorBridge.Document.Protocol
import EditorBridge.Failure
import EditorBridge.Schema.Shape

namespace EditorBridge.Feature

open Schema

/-! ### Classes -/

/-- A field that has no default. -/
def need (name : String) : Field := { name, shape := .any }

/-- A field with a default. -/
def may (name : String) (default : Value) : Field :=
  { name, shape := .any, default := some default }

/-- What a step of a script came to. -/
def replayResult : RecordClass where
  name := "ReplayResult"
  fields := [
    { name := "step", shape := .int },
    { name := "kind", shape := .str },
    { name := "uri", shape := .optional .str, default := some .null },
    { name := "result", shape := .any, default := some .null }]

/-- The classes of what the editor shows. -/
def classes : List RecordClass := [
  { name := "Position", fields := [need "line", need "character"] },
  { name := "Range", fields := [need "start", need "end"] },
  { name := "TextEdit", fields := [need "range", need "new_text"] },
  { name := "MarkdownString", fields := [may "value" (.str "")] },
  { name := "Hover", fields := [need "contents", may "range" .null] },
  { name := "CompletionItem", fields := [need "label", may "kind" .null, may "detail" .null,
      may "documentation" .null, may "sort_text" .null, may "filter_text" .null,
      may "insert_text" .null, may "range" .null, may "preselect" .null,
      may "deprecated" (.bool false), may "commit_characters" .null,
      may "additional_text_edits" .null] },
  { name := "CompletionList",
    fields := [may "items" (.list []), may "is_incomplete" (.bool false)] },
  replayResult]

end EditorBridge.Feature

namespace EditorBridge

/-! ### Markup -/

/-- A text with markup. -/
structure Markdown where
  value : String
  deriving DecidableEq, Repr, Inhabited

namespace Markdown

/-- A text as a value. -/
def toValue (m : Markdown) : Value := .record "MarkdownString" [("value", .str m.value)]

/-- The characters that can mean something in markup. -/
def isSpecial (c : Char) : Bool :=
  ['\\', '\x60', '*', '_', '\x7b', '\x7d', '[', ']', '(', ')', '#', '+', '-', '!'].contains c

/-- A backslash in front of every special character. -/
def escape : List Char → List Char
  | [] => []
  | c :: r => if isSpecial c then '\\' :: c :: escape r else c :: escape r

/-- Plain text as markup. -/
def ofPlain (s : String) : Markdown := ⟨String.ofList (escape s.toList)⟩

/-- Code in a language as markup. -/
def codeBlock (language code : String) : Markdown :=
  ⟨"\x60\x60\x60" ++ language ++ "\n" ++ code ++ "\n\x60\x60\x60"⟩

/-- Text of one of the two kinds that the protocol knows. -/
def ofMarkup (w : Wire) : Markdown :=
  let value := (w.get "value").asText
  if (w.get "kind").asText == "markdown" then ⟨value⟩ else ofPlain value

/-- Text that is markup already, or code in a language. -/
def ofMarked : Wire → Except Failure Markdown
  | .raw (.str s) => .ok ⟨s⟩
  | w@(.object ..) => .ok (codeBlock (w.get "language").asText (w.get "value").asText)
  | w => .error (.noAttribute w.toValue.typeName "language")

end Markdown

/-! ### Hovers -/

/-- Contents to show, and the range they are about. -/
structure Hover where
  contents : List Markdown
  range : Option Range := none
  deriving DecidableEq, Repr, Inhabited

namespace Hover

/-- A hover as a value. -/
def toValue (h : Hover) : Value :=
  .record "Hover" [("contents", .list (h.contents.map Markdown.toValue)),
    ("range", h.range.elim .null Range.toValue)]

/-- Adds the contents of another answer; the first range that is there stays. -/
def append (h g : Hover) : Hover := ⟨h.contents ++ g.contents, h.range <|> g.range⟩

/-- A hover without contents is none. -/
def unlessEmpty (h : Hover) : Option Hover := if h.contents.isEmpty then none else some h

/-- The contents of an answer of the server. -/
def contentsOf : Wire → Except Failure (List Markdown)
  | w@(.object "MarkupContent" _) => .ok [.ofMarkup w]
  | .list ws => ws.mapM Markdown.ofMarked
  | w => return [← Markdown.ofMarked w]

/-- An answer of the server; null is no hover. -/
def ofWire (w : Wire) : Except Failure (Option Hover) :=
  if w.isNothing then .ok none
  else do
    let contents ← contentsOf (w.get "contents")
    let r := w.get "range"
    return some ⟨contents, if r.isNothing then none else some (.ofWire r)⟩

end Hover

/-! ### Proposals -/

/-- The names of the kinds of proposals, by number. -/
def completionKindNames : List String := ["TEXT", "METHOD", "FUNCTION", "CONSTRUCTOR", "FIELD",
  "VARIABLE", "CLASS", "INTERFACE", "MODULE", "PROPERTY", "UNIT", "VALUE", "ENUM", "KEYWORD",
  "SNIPPET", "COLOR", "FILE", "REFERENCE", "FOLDER", "ENUM_MEMBER", "CONSTANT", "STRUCT", "EVENT",
  "OPERATOR", "TYPE_PARAMETER", "USER", "ISSUE"]

/-- A kind of proposal. -/
structure CompletionKind where
  number : Fin 27
  deriving DecidableEq, Repr, Inhabited

namespace CompletionKind

/-- The kind of what has no other. -/
def property : CompletionKind := ⟨9⟩

/-- The name of a kind. -/
def name (k : CompletionKind) : String := completionKindNames.getD k.number ""

/-- A kind as a value. -/
def toValue (k : CompletionKind) : Value := .member "CompletionItemKind" k.name true (.int k.number)

/-- The kind of a number of the protocol. -/
def ofNumber (n : Int) : CompletionKind :=
  if h : 1 ≤ n ∧ n ≤ 25 then ⟨⟨(n - 1).toNat, by omega⟩⟩ else property

/-- A number that is not below one, less one. -/
def lessOne (x : Binary64) : Binary64 :=
  let (p, q) := x.ratio
  .ofRatio false (p - q).toNat q

/-- The kind of a value of the protocol; null is no kind. -/
def ofValue (v : Value) : Except Failure (Option CompletionKind) :=
  match v with
  | .null => .ok none
  | .float x =>
    match x.truncate? with
    | none => .ok (some property)
    | some n =>
      if x.sameInt n then .ok (some (ofNumber n))
      else if 1 ≤ n ∧ n < 25 then .error (.noMember (lessOne x).text "CompletionItemKind")
      else .ok (some property)
  | v => match v.asInt? with
    | some n => .ok (some (ofNumber n))
    | none => .error (.noKind v.typeName)

end CompletionKind

/-- Explanations of a proposal: as the server gave them, or with markup. -/
inductive Documentation where
  | plain (w : Wire)
  | marked (m : Markdown)
  deriving Repr, Inhabited

/-- A proposal. -/
structure CompletionItem where
  label : String
  kind : Option CompletionKind := none
  detail : Option String := none
  documentation : Option Documentation := none
  sortText : Option String := none
  filterText : Option String := none
  insertText : Option String := none
  range : Option Range := none
  preselect : Option Bool := none
  deprecated : Bool := false
  commitCharacters : Option (List String) := none
  additionalEdits : Option (List TextEdit) := none
  deriving Repr, Inhabited

/-- Proposals, and whether there could be more. -/
structure CompletionList where
  items : List CompletionItem := []
  incomplete : Bool := false
  deriving Repr, Inhabited

namespace Documentation

/-- Explanations as a value. -/
def toValue : Documentation → Value
  | marked m => m.toValue
  | plain (.list ws) => .list (ws.map part)
  | plain w => part w
where
  part : Wire → Value
    | .object n _ => .thing n n
    | w => w.toValue

/-- Explanations of the server: only what is marked as markup is taken as such. -/
def ofWire : Wire → Option Documentation
  | .raw .null => none
  | w@(.object "MarkupContent" _) =>
    if (w.get "kind").asText == "markdown" then some (.marked ⟨(w.get "value").asText⟩)
    else some (.plain (w.get "value"))
  | w => some (.plain w)

end Documentation

/-- A text that may be missing. -/
def Wire.text? : Wire → Option String
  | .raw (.str s) => some s
  | _ => none

namespace CompletionItem

private def textOr (s : Option String) : Value := s.elim .null .str

/-- A proposal as a value. -/
def toValue (i : CompletionItem) : Value :=
  .record "CompletionItem" [("label", .str i.label), ("kind", i.kind.elim .null (·.toValue)),
    ("detail", textOr i.detail), ("documentation", i.documentation.elim .null (·.toValue)),
    ("sort_text", textOr i.sortText), ("filter_text", textOr i.filterText),
    ("insert_text", textOr i.insertText), ("range", i.range.elim .null (·.toValue)),
    ("preselect", i.preselect.elim .null .bool), ("deprecated", .bool i.deprecated),
    ("commit_characters", i.commitCharacters.elim .null fun cs => .list (cs.map .str)),
    ("additional_text_edits", i.additionalEdits.elim .null fun es => .list (es.map (·.toValue)))]

/-- What a proposal inserts, and where: of an edit with two ranges the one that replaces. -/
def insertion (w : Wire) : Option String × Option Range :=
  let edit := w.get "textEdit"
  match edit.structName? with
  | some "TextEdit" => ((edit.get "newText").text?, some (.ofWire (edit.get "range")))
  | some _ => ((edit.get "newText").text?, some (.ofWire (edit.get "replace")))
  | none => ((w.get "insertText").text?, none)

/-- The proposal that an object of the protocol stands for. -/
def ofWire (w : Wire) : Except Failure CompletionItem := do
  let (insertText, range) := insertion w
  let kind ← CompletionKind.ofValue (w.get "kind").toValue
  let flag? : Wire → Option Bool
    | .raw (.bool b) => some b
    | _ => none
  let texts? : Wire → Option (List String)
    | .list ws => some (ws.map Wire.asText)
    | _ => none
  let edits := (w.get "additionalTextEdits").items.map TextEdit.ofWire
  return {
    label := (w.get "label").asText
    kind, insertText, range
    detail := (w.get "detail").text?
    documentation := Documentation.ofWire (w.get "documentation")
    sortText := (w.get "sortText").text?
    filterText := (w.get "filterText").text?
    preselect := flag? (w.get "preselect")
    deprecated := (w.get "deprecated").truthy
    commitCharacters := texts? (w.get "commitCharacters")
    additionalEdits := if edits.isEmpty then none else some edits }

end CompletionItem

namespace CompletionList

/-- Proposals as a value. -/
def toValue (l : CompletionList) : Value :=
  .record "CompletionList" [("items", .list (l.items.map (·.toValue))),
    ("is_incomplete", .bool l.incomplete)]

/-- Adds the proposals of another answer. -/
def append (l m : CompletionList) : CompletionList :=
  ⟨l.items ++ m.items, l.incomplete || m.incomplete⟩

/-- An answer of the server: a list of proposals is complete; null is no answer. -/
def ofWire (w : Wire) : Except Failure (Option CompletionList) :=
  if w.isNothing then .ok none
  else match w with
    | .object .. => return some ⟨← (w.get "items").items.mapM CompletionItem.ofWire,
        (w.get "isIncomplete").truthy⟩
    | w => return some ⟨← w.items.mapM CompletionItem.ofWire, false⟩

end CompletionList

end EditorBridge
