/-
Documents that are open in the editor.

A position is a line and a column, both counted from zero; columns count UTF-16 code
units.  Positions are ordered by line, then by column.  A range runs from a position
to one that is not before it, however it was given.

A document is a text with an identity, a language and a version.  Lines are those of
`Text.splitLines`; a column behind the content of a line means the end of the
content, in front of the break.  A line number may be negative and then counts from
the end of the list of lines; one that is too small names no line at all, and
everything that needs the line fails.  An edit leaves a record of what it did.

As acts, the changes of a document are recorded as calls, and fail where the document
has no such line.
-/
import EditorBridge.Log.Act
import EditorBridge.Text.Measures
import EditorBridge.Uri.Basic
import EditorBridge.Value.Basic

namespace EditorBridge

/-! ### Positions and ranges -/

/-- A place in a document. -/
structure Position where
  line : Int
  character : Int
  deriving DecidableEq, Repr, Inhabited

namespace Position

/-- By line, then by column. -/
def before (p q : Position) : Bool :=
  p.line < q.line || (p.line == q.line && p.character < q.character)

/-- Not behind the other one. -/
def notAfter (p q : Position) : Bool := !q.before p

/-- A position as a value. -/
def toValue (p : Position) : Value :=
  .record "Position" [("line", .int p.line), ("character", .int p.character)]

end Position

/-- The part of a document between two positions. -/
structure Range where
  start : Position
  stop : Position
  /-- The start is not behind the end. -/
  start_notAfter_stop : start.notAfter stop = true
  deriving DecidableEq, Repr

namespace Range

/-- Of two positions, one is not behind the other. -/
theorem notAfter_of_not {p q : Position} (h : ¬p.notAfter q = true) : q.notAfter p = true := by
  simp only [Position.notAfter, Position.before, Bool.not_eq_true', Bool.or_eq_false_iff,
    Bool.and_eq_false_iff, decide_eq_false_iff_not, beq_eq_false_iff_ne, Int.not_lt] at h ⊢
  omega

/-- The range between two positions, given in any order. -/
def between (p q : Position) : Range :=
  if h : p.notAfter q = true then ⟨p, q, h⟩ else ⟨q, p, notAfter_of_not h⟩

/-- Whether a range has nothing in it. -/
def isEmpty (r : Range) : Bool := r.start == r.stop

instance : Inhabited Range := ⟨between default default⟩

/-- A range as a value. -/
def toValue (r : Range) : Value :=
  .record "Range" [("start", r.start.toValue), ("end", r.stop.toValue)]

end Range

/-! ### Lines -/

/-- The lines of a text. -/
abbrev Lines := List (List Char)

namespace Lines

/-- The number of lines in front of line `i`, a negative `i` counting from the end. -/
def upTo {α : Type} (xs : List α) (i : Int) : List α :=
  if 0 ≤ i then xs.take i.toNat else xs.take (xs.length - i.natAbs)

/-- Line `i`, a negative `i` counting from the end. -/
def line? (ls : Lines) (i : Int) : Option (List Char) :=
  if 0 ≤ i then ls[i.toNat]?
  else if i.natAbs ≤ ls.length then ls[ls.length - i.natAbs]? else none

/-- Whether a character belongs to the break at the end of a line. -/
def isBreakChar (c : Char) : Bool := c == '\r' || c == '\n'

/-- A line without its break. -/
def content (line : List Char) : List Char := (line.reverse.dropWhile isBreakChar).reverse

/-- How many characters of a text lie within its first `units` code units.  A character that
lies across the border is not counted. -/
def charsWithin (units : Int) : List Char → Nat
  | [] => 0
  | c :: r =>
    let left := units - Text.units16 c
    if left < 0 then 0 else charsWithin left r + 1

/-- The index in a line that a column means. -/
def indexInLine (line : List Char) (character : Int) : Nat := charsWithin character (content line)

/-- Turns a column in code units into one in characters.  `none` if there is no such line. -/
def fromUtf16? (ls : Lines) (p : Position) : Option Position :=
  if ls.length ≤ p.line then some p
  else (ls.line? p.line).map fun l => { p with character := indexInLine l p.character }

/-- Turns a column in characters into one in code units.  `none` if there is no such line. -/
def toUtf16? (ls : Lines) (p : Position) : Option Position :=
  if ls.length ≤ p.line then some p
  else (ls.line? p.line).map fun l =>
    { p with character := Text.length16 (upTo l p.character) }

end Lines

/-- A document. -/
structure Document where
  uri : Uri
  languageId : String := "plaintext"
  version : Int := 1
  text : List Char
  /-- The text when the document was opened or last saved. -/
  savedText : List Char
  closed : Bool := false
  deriving DecidableEq, Repr, Inhabited

namespace Document

/-- A document as it is opened. -/
def opened (uri : Uri) (text : List Char) (languageId : String) (version : Int) : Document :=
  { uri, languageId, version, text, savedText := text }

/-- How a document is shown in messages. -/
def shown (d : Document) : String :=
  "TextDocument(" ++ Text.quote d.uri.toString ++ ", language_id=" ++ Text.quote d.languageId ++
    s!", version={d.version})"

/-- A document as a value. -/
def asValue (d : Document) : Value := .thing "TextDocument" d.shown

/-- Whether the text was changed since it was last saved. -/
def dirty (d : Document) : Bool := d.text != d.savedText

/-- Marks the text as saved. -/
def save (d : Document) : Document := { d with savedText := d.text }

/-- The lines of the text, each with its break. -/
def lines (d : Document) : Lines := Text.splitLines d.text

/-- Whether nothing follows the last line break. -/
def endsWithBreak (d : Document) : Bool :=
  match d.text.getLast? with
  | none => true
  | some c => Lines.isBreakChar c

/-- The number of lines an editor shows. -/
def lineCount (d : Document) : Nat := d.lines.length + (if d.endsWithBreak then 1 else 0)

/-- The position behind the last character. -/
def endPosition (d : Document) : Position :=
  if d.endsWithBreak then ⟨d.lines.length, 0⟩
  else ⟨d.lines.length - 1, Text.length16 (d.lines.getLastD [])⟩

/-- The whole document. -/
def fullRange (d : Document) : Range := .between ⟨0, 0⟩ d.endPosition

/-- The index in the text that a position means.  `none` if there is no such line. -/
def indexAt? (d : Document) (p : Position) : Option Nat :=
  let ls := d.lines
  if ls.length ≤ p.line then some d.text.length
  else (ls.line? p.line).map fun l =>
    (Lines.upTo ls p.line).flatten.length + Lines.indexInLine l p.character

/-- The distance of a position from the start of the text in code units. -/
def offsetAt? (d : Document) (p : Position) : Option Nat :=
  (d.indexAt? p).map fun i => Text.length16 (d.text.take i)

/-- Replaces the whole text; the version changes only if one is given. -/
def replaceText (d : Document) (text : List Char) (version : Option Int) : Document :=
  { d with text := text, version := version.getD d.version }

/-- Replaces the text in a range.  A range behind the last line appends. -/
def splice? (d : Document) (r : Range) (text : List Char) (version : Option Int := none) :
    Option Document := do
  let start ← d.indexAt? r.start
  let stop ← d.indexAt? r.stop
  return d.replaceText (d.text.take start ++ text ++ d.text.drop (max start stop)) version

end Document

/-! ### Edits -/

/-- An edit that somebody proposes. -/
structure TextEdit where
  range : Range
  newText : String
  deriving DecidableEq, Repr

/-- The record of an edit that was made: where, how far from the start of the text and how long
in code units of the text before it, and what came there. -/
structure ContentChange where
  range : Range
  offset : Int
  length : Int
  text : List Char
  deriving DecidableEq, Repr

namespace TextEdit

/-- An edit as a value. -/
def toValue (e : TextEdit) : Value :=
  .record "TextEdit" [("range", e.range.toValue), ("new_text", .str e.newText)]

end TextEdit

namespace ContentChange

/-- A record as a value. -/
def toValue (c : ContentChange) : Value :=
  .record "TextDocumentContentChange" [("range", c.range.toValue), ("range_offset", .int c.offset),
    ("range_length", .int c.length), ("text", .str (String.ofList c.text))]

end ContentChange

namespace Document

/-- The edit of a range as a record, measured on the document as it is. -/
def changeOf? (d : Document) (r : Range) (text : List Char) : Option ContentChange := do
  let start ← d.offsetAt? r.start
  let stop ← d.offsetAt? r.stop
  return ⟨r, start, (stop : Int) - start, text⟩

end Document

end EditorBridge

namespace EditorBridge.Document

/-! ### Acts -/

/-- The logger of documents. -/
def logger : Logger := { name := "lspbridge.editor.text_document.TextDocument" }

/-- The result of a question about a line, which fails if there is no such line. -/
def orNoSuchLine {α : Type} (r : Option α) : Except Failure α :=
  match r with
  | some a => .ok a
  | none => .error .noSuchLine

/-- Replaces the whole text. -/
def revise (text : List Char) (version : Option Int := none) : Act Document Unit :=
  Act.traced logger "TextDocument.apply_full_change"
    (fun _ => Log.arguments [.str (String.ofList text)]
      (version.elim [] fun v => [("version", .int v)])) do
    Act.change fun d => d.replaceText text version

/-- Replaces the text in a range.  A version of null is as good as none, but shows in the record
of the call. -/
def splice (r : Range) (text : List Char) (version : Option Value := none) : Act Document Unit :=
  Act.traced logger "TextDocument.apply_incremental_change"
    (fun _ => Log.arguments ([r.toValue, .str (String.ofList text)] ++ version.elim [] fun v => [v])
      []) do
    let d ← Act.state
    let d' ← Act.ofExcept (orNoSuchLine (d.splice? r text (version.bind Value.asInt?)))
    Act.change fun _ => d'

end EditorBridge.Document
