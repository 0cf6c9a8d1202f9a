/-
Documents, positions and changes as objects of the protocol.

Nothing is converted here, so what the editor says reaches the server unchanged; an
object with a number outside the limits of the protocol is not built at all.
-/
import EditorBridge.Document.Basic
import EditorBridge.Wire.Build

namespace EditorBridge

namespace Wire

/-- A text. -/
def ofText (s : String) : Wire := .raw (.str s)

/-- A number. -/
def ofInt (n : Int) : Wire := .raw (.int n)

/-- The object of a structure from the members it is given. -/
def make (name : String) (members : List (String × Wire)) : Except Error Wire :=
  match struct? name with
  | some s => assemble s members
  | none => .error .scalar

end Wire

open Wire (make ofText ofInt)

namespace Position

/-- A position as an object of the protocol. -/
def toWire (p : Position) : Except Wire.Error Wire :=
  make "Position" [("line", ofInt p.line), ("character", ofInt p.character)]

/-- The position that an object of the protocol stands for. -/
def ofWire (w : Wire) : Position := ⟨(w.get "line").asInt, (w.get "character").asInt⟩

end Position

namespace Range

/-- A range as an object of the protocol. -/
def toWire (r : Range) : Except Wire.Error Wire := do
  make "Range" [("start", ← r.start.toWire), ("end", ← r.stop.toWire)]

/-- The range that an object of the protocol stands for. -/
def ofWire (w : Wire) : Range := .between (.ofWire (w.get "start")) (.ofWire (w.get "end"))

end Range

namespace ContentChange

/-- A record of an edit as an object of the protocol. -/
def toWire (c : ContentChange) : Except Wire.Error Wire := do
  make "TextDocumentContentChangePartial" [("range", ← c.range.toWire),
    ("text", ofText (String.ofList c.text)), ("rangeLength", ofInt c.length)]

end ContentChange

namespace TextEdit

/-- The edit that an object of the protocol stands for. -/
def ofWire (w : Wire) : TextEdit := ⟨.ofWire (w.get "range"), (w.get "newText").asText⟩

end TextEdit

namespace Document

/-- The name of a document on the wire. -/
def identity (d : Document) : String := d.uri.toString

/-- The text of a document. -/
def content (d : Document) : String := String.ofList d.text

/-- A document with its text. -/
def toItem (d : Document) : Except Wire.Error Wire :=
  make "TextDocumentItem" [("uri", ofText d.identity), ("languageId", ofText d.languageId),
    ("version", ofInt d.version), ("text", ofText d.content)]

/-- The name of a document. -/
def toIdentifier (d : Document) : Except Wire.Error Wire :=
  make "TextDocumentIdentifier" [("uri", ofText d.identity)]

/-- The name of a document with its version. -/
def toVersionedIdentifier (d : Document) : Except Wire.Error Wire :=
  make "VersionedTextDocumentIdentifier" [("version", ofInt d.version), ("uri", ofText d.identity)]

/-- The change that replaces the whole text. -/
def toWholeChange (d : Document) : Except Wire.Error Wire :=
  make "TextDocumentContentChangeWholeDocument" [("text", ofText d.content)]

end Document

/-- A place in a document. -/
def Document.toPositionParams (d : Document) (p : Position) : Except Wire.Error Wire := do
  make "TextDocumentPositionParams" [("textDocument", ← d.toIdentifier), ("position", ← p.toWire)]

end EditorBridge
