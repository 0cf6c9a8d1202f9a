/-
Reading TOML.

A document is a sequence of lines: headings, entries, comments and empty lines.  An
entry lies below the heading before it.  The entries of a table keep the order in which
they were first named.

Entries are named by keys of several parts, which lead through tables and, where that is
allowed, through the last tables of lists.  Some keys cannot be used any more: a value
written in brackets or braces is closed for good, and a table can be opened by a
heading only once.
-/
import EditorBridge.Toml.Scalar
import EditorBridge.Value.Basic

namespace EditorBridge.Toml

/-! ### Tables -/

/-- The names that lead to an entry. -/
abbrev Key := List String

abbrev Entries := List (Value × Value)

namespace Entries

/-- Changes the table behind a key.  Tables that are not there yet are made; anything else
in the way is refused.  `lists` says whether the way may lead through the last table of a list. -/
def change (lists : Bool) (f : Entries → Option Entries) : Key → Entries → Option Entries
  | [], es => f es
  | k :: ks, es =>
    match Value.find? (.str k) es with
    | none => do return Value.put (.str k) (.dict (← change lists f ks [])) es
    | some (.dict inner) => do return Value.put (.str k) (.dict (← change lists f ks inner)) es
    | some (.list vs) =>
      match lists, vs.getLast? with
      | true, some (.dict inner) => do
        let last := Value.dict (← change lists f ks inner)
        return Value.put (.str k) (.list (vs.dropLast ++ [last])) es
      | _, _ => none
    | some _ => none

/-- Adds an entry; a name that is there is refused. -/
def insert (lists : Bool) (key : Key) (v : Value) (es : Entries) : Option Entries :=
  change lists (fun inner =>
    let name := Value.str (key.getLastD "")
    if (Value.find? name inner).isSome then none else some (Value.put name v inner))
    key.dropLast es

/-- Adds an empty table to the list behind a key; a list that is not there yet is made. -/
def append (key : Key) (es : Entries) : Option Entries :=
  change true (fun inner =>
    let name := Value.str (key.getLastD "")
    match Value.find? name inner with
    | none => some (Value.put name (.list [.dict []]) inner)
    | some (.list vs) => some (Value.put name (.list (vs ++ [.dict []])) inner)
    | some _ => none)
    key.dropLast es

end Entries

/-- A document while it is read. -/
structure Nest where
  entries : Entries := []
  /-- The key of the last heading. -/
  heading : Key := []
  /-- Keys that are closed together with all that lies below them. -/
  closed : List Key := []
  /-- Keys of tables that cannot be opened any more. -/
  opened : List Key := []
  /-- Keys that join `opened` at the next heading. -/
  pending : List Key := []

namespace Nest

/-- Whether nothing can be put behind a key. -/
def isClosed (n : Nest) (key : Key) : Bool := n.closed.any (·.isPrefixOf key)

/-- What was said about a table before a heading takes effect at the heading. -/
def settle (n : Nest) : Nest := { n with opened := n.pending ++ n.opened, pending := [] }

/-- Opens a table. -/
def openTable (n : Nest) (key : Key) : Option Nest := do
  let n := n.settle
  if n.opened.contains key || n.isClosed key then none
  else
    let es ← n.entries.change true some key
    return { n with entries := es, heading := key, opened := key :: n.opened }

/-- Opens one more table of a list.  What was said about the one before does not hold for it. -/
def openItem (n : Nest) (key : Key) : Option Nest := do
  let n := n.settle
  if n.isClosed key then none
  else
    let es ← n.entries.append key
    let apart := fun k : Key => !key.isPrefixOf k
    return { n with
      entries := es, heading := key
      opened := key :: n.opened.filter apart
      closed := n.closed.filter apart }

/-- Whether all below a key is settled by a value. -/
def closes : Value → Bool
  | .dict _ | .list _ => true
  | _ => false

/-- Adds an entry below the last heading.  The tables that its key leads through count as
opened from the next heading on. -/
def add (n : Nest) (key : Key) (v : Value) : Option Nest := do
  let way := (List.range (key.length - 1)).map fun i => n.heading ++ key.take (i + 1)
  if way.any n.opened.contains || n.isClosed (n.heading ++ key.dropLast) then none
  else
    let es ← n.entries.insert true (n.heading ++ key) v
    return { n with
      entries := es
      closed := if closes v then (n.heading ++ key) :: n.closed else n.closed
      pending := way ++ n.pending }

/-- Adds an entry of a table in braces. -/
def addInline (n : Nest) (key : Key) (v : Value) : Option Nest := do
  if n.isClosed key then none
  else
    let es ← n.entries.insert false key v
    return { n with entries := es, closed := if closes v then key :: n.closed else n.closed }

end Nest

/-! ### Lines -/

/-- Characters of names without quotes. -/
def isNameChar (c : Char) : Bool := c.isAlphanum || c == '-' || c == '_'

/-- One name of a key. -/
def readName (s : List Char) : Except Error (String × List Char) :=
  match s with
  | '"' :: r => readLine '"' r
  | '\x27' :: r => readLine '\x27' r
  | s => match s.takeWhile isNameChar with
    | [] => .error .malformed
    | cs => .ok (String.ofList cs, s.drop cs.length)

/-- A key: names with points between them. -/
def readKey : Nat → List Char → Except Error (Key × List Char)
  | 0, _ => .error .malformed
  | fuel + 1, s => do
    let (name, r) ← readName s
    match skipBlanks r with
    | '.' :: r =>
      let (names, r) ← readKey fuel (skipBlanks r)
      return (name :: names, r)
    | r => return ([name], r)

/-- The key of an entry and the sign behind it. -/
def readEntryKey (s : List Char) : Except Error (Key × List Char) := do
  match ← readKey (s.length + 1) s with
  | (key, '=' :: r) => return (key, skipBlanks r)
  | _ => .error .malformed

mutual

/-- A value.  Every value has at least one character, so the length of the text bounds the
depth. -/
def readValue : Nat → List Char → Except Error (Value × List Char)
  | 0, _ => .error .malformed
  | fuel + 1, s =>
    match s with
    | '"' :: '"' :: '"' :: r => (readLines '"' r).map fun (t, r) => (.str t, r)
    | '\x27' :: '\x27' :: '\x27' :: r => (readLines '\x27' r).map fun (t, r) => (.str t, r)
    | '"' :: r => (readLine '"' r).map fun (t, r) => (.str t, r)
    | '\x27' :: r => (readLine '\x27' r).map fun (t, r) => (.str t, r)
    | '[' :: r => do
      match ← skipGap false r with
      | ']' :: r => return (.list [], r)
      | r => readItems fuel [] r
    | '\x7b' :: r =>
      match skipBlanks r with
      | '\x7d' :: r => .ok (.dict [], r)
      | r => readEntries fuel {} r
    | s => readPlain s

/-- The items of a list from one of them on. -/
def readItems : Nat → List Value → List Char → Except Error (Value × List Char)
  | 0, _, _ => .error .malformed
  | fuel + 1, acc, s => do
    let (v, r) ← readValue fuel s
    match ← skipGap false r with
    | ']' :: r => return (.list (v :: acc).reverse, r)
    | ',' :: r => match ← skipGap false r with
      | ']' :: r => return (.list (v :: acc).reverse, r)
      | r => readItems fuel (v :: acc) r
    | _ => .error .malformed

/-- The entries of a table in braces from one of them on. -/
def readEntries : Nat → Nest → List Char → Except Error (Value × List Char)
  | 0, _, _ => .error .malformed
  | fuel + 1, nest, s => do
    let (key, r) ← readEntryKey s
    let (v, r) ← readValue fuel r
    match nest.addInline key v with
    | none => .error .malformed
    | some nest => match skipBlanks r with
      | '\x7d' :: r => return (.dict nest.entries, r)
      | ',' :: r => readEntries fuel nest (skipBlanks r)
      | _ => .error .malformed

end

/-- A heading from behind its first bracket on. -/
def readHeading (nest : Nest) (s : List Char) : Except Error (Nest × List Char) := do
  let (many, s) := match s with
    | '[' :: r => (true, r)
    | r => (false, r)
  let s := skipBlanks s
  let (key, r) ← readKey (s.length + 1) s
  match if many then nest.openItem key else nest.openTable key, many, r with
  | some nest, true, ']' :: ']' :: r => return (nest, r)
  | some nest, false, ']' :: r => return (nest, r)
  | _, _, _ => .error .malformed

/-- An entry below the last heading. -/
def readEntry (nest : Nest) (s : List Char) : Except Error (Nest × List Char) := do
  let (key, r) ← readEntryKey s
  let (v, r) ← readValue (2 * r.length + 2) r
  match nest.add key v with
  | some nest => return (nest, r)
  | none => .error .malformed

/-- What is written on a line, up to its comment. -/
def readStatement (nest : Nest) (s : List Char) : Except Error (Nest × List Char) :=
  match s with
  | '[' :: r => readHeading nest r
  | '#' :: _ | '\n' :: _ | [] => .ok (nest, s)
  | s => readEntry nest s

/-- The lines of a document from one of them on. -/
def readDocument : Nat → Nest → List Char → Except Error Nest
  | 0, _, _ => .error .malformed
  | fuel + 1, nest, s => do
    let (nest, r) ← readStatement nest (skipBlanks s)
    match ← skipComment (skipBlanks r) with
    | [] => return nest
    | '\n' :: r => readDocument fuel nest r
    | _ => .error .malformed

/-- A carriage return before a line feed does not count. -/
def joinLineEnds : List Char → List Char
  | '\r' :: '\n' :: r => '\n' :: joinLineEnds r
  | c :: r => c :: joinLineEnds r
  | [] => []

/-- Reads a document. -/
def parse (text : String) : Except Error Value := do
  let cs := joinLineEnds text.toList
  return .dict (← readDocument (cs.length + 1) {} cs).entries

end EditorBridge.Toml
