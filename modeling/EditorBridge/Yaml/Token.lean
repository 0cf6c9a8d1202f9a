/-
The tokens of a YAML text.

Indentation becomes tokens of its own: a block begins where a line is indented further and
ends where one is indented less.  A key is found out to be one only at the colon behind
it; its tokens are then put in front of it.
-/
import EditorBridge.Yaml.Block
import EditorBridge.Yaml.Flow
import EditorBridge.Yaml.Tag

namespace EditorBridge.Yaml

/-- A token. -/
inductive Token where
  /-- A directive about the version of the language. -/
  | version (major : Nat)
  /-- A directive that gives a handle a prefix. -/
  | handle (name start : String)
  /-- Any other directive. -/
  | directive
  | documentStart
  | documentEnd
  | streamEnd
  | blockSequence
  | blockMapping
  | blockEnd
  | flowSequence
  | flowSequenceEnd
  | flowMapping
  | flowMappingEnd
  | blockEntry
  | flowEntry
  | key
  | value
  | alias (name : String)
  | anchor (name : String)
  | tag (handle : Option String) (suffix : String)
  | scalar (text : String) (plain : Bool)
  /-- The text cannot be read any further. -/
  | fault (e : Error)
  deriving Repr, Inhabited

/-- A place in a text. -/
structure Cursor where
  rest : List Char
  index : Nat := 0
  line : Nat := 0
  column : Nat := 0

namespace Cursor

/-- One character further. -/
def next (c : Cursor) : Cursor :=
  match c.rest with
  | [] => c
  | x :: r =>
    if isBreak x && !(x == '\r' && begins '\n' r) then ⟨r, c.index + 1, c.line + 1, 0⟩
    else ⟨r, c.index + 1, c.line, if x == '\ufeff' then c.column else c.column + 1⟩

/-- As far as nothing but `rest` is left. -/
def goTo (rest : List Char) (c : Cursor) : Cursor :=
  (List.range (c.rest.length - rest.length)).foldl (fun c _ => c.next) c

end Cursor

/-- Something that may turn out to be a key. -/
structure Candidate where
  /-- The number of tokens in front of it. -/
  place : Nat
  /-- Whether it has to be one. -/
  required : Bool
  index : Nat
  line : Nat
  column : Nat

/-- A text while its tokens are taken. -/
structure Lexer where
  pos : Cursor
  tokens : Array Token := #[]
  /-- How many brackets and braces are open. -/
  flow : Nat := 0
  /-- The indentations of the open blocks, from the inside to the outside. -/
  indents : List Int := []
  /-- What may be a key, one for every level of brackets. -/
  candidates : List (Nat × Candidate) := []
  /-- Whether a key may begin here. -/
  keyAllowed : Bool := true

namespace Lexer

/-- The characters between the beginning of a key and its colon. -/
def maxKeyLength : Nat := 1024

/-- The indentation of the innermost block. -/
def indent (l : Lexer) : Int := l.indents.headD (-1)

def push (t : Token) (l : Lexer) : Lexer := { l with tokens := l.tokens.push t }

def goTo (rest : List Char) (l : Lexer) : Lexer := { l with pos := l.pos.goTo rest }

/-- Skips `n` characters. -/
def skip (n : Nat) (l : Lexer) : Lexer := l.goTo (l.pos.rest.drop n)

def allowKey (b : Bool) (l : Lexer) : Lexer := { l with keyAllowed := b }

/-- Drops candidates; one that has to be a key cannot be dropped. -/
def dropCandidates (out : Nat → Candidate → Bool) (l : Lexer) : Except Error Lexer :=
  if l.candidates.any fun c => out c.1 c.2 && c.2.required then .error .malformed
  else .ok { l with candidates := l.candidates.filter fun c => !out c.1 c.2 }

/-- Drops the candidates that are too far away. -/
def dropStale (l : Lexer) : Except Error Lexer :=
  l.dropCandidates fun _ c => c.line ≠ l.pos.line || l.pos.index - c.index > maxKeyLength

/-- Drops the candidate of the current level. -/
def dropCandidate (l : Lexer) : Except Error Lexer :=
  l.dropCandidates fun level _ => level == l.flow

/-- What comes next may be a key. -/
def markCandidate (l : Lexer) : Except Error Lexer := do
  if !l.keyAllowed then return l
  let l ← l.dropCandidate
  let c : Candidate := {
    place := l.tokens.size
    required := l.flow == 0 && l.indent == (l.pos.column : Int)
    index := l.pos.index, line := l.pos.line, column := l.pos.column }
  return { l with candidates := (l.flow, c) :: l.candidates }

/-- Ends the blocks that are indented further than `column`. -/
def unwind (column : Int) (l : Lexer) : Lexer :=
  if l.flow ≠ 0 then l
  else
    let ended := l.indents.takeWhile (column < ·)
    { l with
      indents := l.indents.drop ended.length
      tokens := l.tokens ++ (ended.map fun _ => Token.blockEnd).toArray }

/-- Whether something at a column is indented further than the innermost block. -/
def isDeeper (column : Nat) (l : Lexer) : Bool := l.indent < (column : Int)

/-- Begins a block at a column if it is indented further than the one around it; the token goes
to the given place. -/
def beginBlock (t : Token) (column place : Nat) (l : Lexer) : Lexer :=
  if l.isDeeper column then
    { l with
      indents := (column : Int) :: l.indents
      tokens := l.tokens.insertIdxIfInBounds place t }
  else l

/-- The spaces, comments and line breaks at the front of a text, and whether there is a line
break among them. -/
def skipSpace : Nat → Bool → List Char → Bool × List Char
  | 0, broken, s => (broken, s)
  | fuel + 1, broken, s =>
    let r := s.dropWhile (· == ' ')
    let r := if begins '#' r then r.dropWhile (!isBreak ·) else r
    match takeBreak? r with
    | some (_, r) => skipSpace fuel true r
    | none => (broken, r)

/-- Goes to the next token. -/
def toNext (l : Lexer) : Lexer :=
  let l := if l.pos.index == 0 && begins '\ufeff' l.pos.rest then l.skip 1 else l
  let (broken, r) := skipSpace (l.pos.rest.length + 1) false l.pos.rest
  let l := l.goTo r
  if broken && l.flow == 0 then l.allowKey true else l

/-- Ends all blocks, and nothing can be a key here. -/
def leave (l : Lexer) : Except Error Lexer := do
  return (← (l.unwind (-1)).dropCandidate).allowKey false

/-- The number at the front of a text. -/
def number (s : List Char) : Except Error (Nat × List Char) :=
  match s.takeWhile Char.isDigit with
  | [] => .error .malformed
  | ds => .ok (Digits.value ds, s.drop ds.length)

/-- A directive from behind its percent sign on. -/
def readDirective (s : List Char) : Except Error (Token × List Char) := do
  let name := s.takeWhile Tag.isNameChar
  let r := s.drop name.length
  if name.isEmpty || !atSpace r then .error .malformed
  else if name = "YAML".toList then do
    let (major, r) ← number (r.dropWhile (· == ' '))
    match r with
    | '.' :: r =>
      let (_, r) ← number r
      if atSpace r then return (.version major, ← skipLine r) else .error .malformed
    | _ => .error .malformed
  else if name = "TAG".toList then do
    let (h, r) ← Tag.handle (r.dropWhile (· == ' '))
    if begins ' ' r then
      let (start, r) ← Tag.uri (r.dropWhile (· == ' '))
      if atSpace r then return (.handle h start, ← skipLine r) else .error .malformed
    else .error .malformed
  else
    return (.directive, ← skipLine (r.dropWhile (!isBreak ·)))

/-- A name from behind its sign on. -/
def readName (s : List Char) : Except Error (String × List Char) :=
  let name := s.takeWhile Tag.isNameChar
  let r := s.drop name.length
  let ended := atBlank r || r.head?.any "?:,]\x7d%@\x60".toList.contains
  if name.isEmpty || !ended then .error .malformed else .ok (String.ofList name, r)

/-- A token of one sign after which a key may or may not begin. -/
def sign (t : Token) (keyNext : Bool) (l : Lexer) : Except Error Lexer := do
  return ((← l.dropCandidate).allowKey keyNext |>.skip 1).push t

/-- A dash in front of an item. -/
def blockEntry (l : Lexer) : Except Error Lexer :=
  if l.flow ≠ 0 then l.sign .blockEntry true
  else if l.keyAllowed then
    (l.beginBlock .blockSequence l.pos.column l.tokens.size).sign .blockEntry true
  else .error .malformed

/-- A question mark in front of a key. -/
def explicitKey (l : Lexer) : Except Error Lexer :=
  if l.flow ≠ 0 then l.sign .key false
  else if l.keyAllowed then
    (l.beginBlock .blockMapping l.pos.column l.tokens.size).sign .key true
  else .error .malformed

/-- A colon in front of a value. -/
def valueSign (l : Lexer) : Except Error Lexer :=
  match l.candidates.lookup l.flow with
  | some c =>
    let l := { l with
      candidates := l.candidates.filter (·.1 ≠ l.flow)
      tokens := l.tokens.insertIdxIfInBounds c.place .key }
    let l := if l.flow = 0 then l.beginBlock .blockMapping c.column c.place else l
    .ok ((l.allowKey false).skip 1 |>.push .value)
  | none =>
    if l.flow ≠ 0 then l.sign .value false
    else if l.keyAllowed then
      (l.beginBlock .blockMapping l.pos.column l.tokens.size).sign .value true
    else .error .malformed

/-- Something that may be a key, and what it reads as. -/
def keyable (l : Lexer) (read : List Char → Except Error (Token × List Char)) :
    Except Error Lexer := do
  let l := (← l.markCandidate).allowKey false
  let (t, r) ← read l.pos.rest
  return (l.goTo r).push t

/-- Takes a bracket or a brace that opens. -/
def openFlow (t : Token) (l : Lexer) : Except Error Lexer := do
  let l := (← l.markCandidate).allowKey true
  return ({ l with flow := l.flow + 1 }.skip 1).push t

/-- Takes a bracket or a brace that closes. -/
def closeFlow (t : Token) (l : Lexer) : Except Error Lexer := do
  let l := (← l.dropCandidate).allowKey false
  return ({ l with flow := l.flow - 1 }.skip 1).push t

/-- Takes a scalar that is set apart by its indentation. -/
def blockScalar (folded : Bool) (l : Lexer) : Except Error Lexer := do
  let l ← (l.allowKey true).dropCandidate
  let (text, r) ← Block.read folded l.indent (l.pos.rest.drop 1)
  return (l.goTo r).push (.scalar text false)

/-- Takes a scalar in quotes. -/
def quoted (double : Bool) (l : Lexer) : Except Error Lexer :=
  l.keyable fun s => do
    let (text, r) ← Quoted.read double (s.drop 1)
    return (.scalar text false, r)

/-- Takes a plain scalar.  A key may begin behind it if a line break is there. -/
def plain (l : Lexer) : Except Error Lexer := do
  let l ← l.markCandidate
  let (text, broken, r) := Plain.read (l.flow ≠ 0) l.indent l.pos.rest
  return ((l.allowKey broken).goTo r).push (.scalar text true)

/-- Takes the next token; the tokens for the ends of blocks come before it. -/
def step (l : Lexer) : Except Error Lexer := do
  let l ← l.toNext.dropStale
  let l := l.unwind l.pos.column
  let s := l.pos.rest
  let r := s.drop 1
  match s.head? with
  | none => return (← l.leave).push .streamEnd
  | some c =>
    let lineStart := l.pos.column == 0
    let inFlow := l.flow ≠ 0
    if c == '%' && lineStart then do
      let l ← l.leave
      let (t, rest) ← readDirective r
      return (l.goTo rest).push t
    else if lineStart && atMark s then
      return ((← l.leave).skip 3).push (if c == '-' then .documentStart else .documentEnd)
    else if c == '[' then l.openFlow .flowSequence
    else if c == '\x7b' then l.openFlow .flowMapping
    else if c == ']' then l.closeFlow .flowSequenceEnd
    else if c == '\x7d' then l.closeFlow .flowMappingEnd
    else if c == ',' then l.sign .flowEntry true
    else if c == '-' && atBlank r then l.blockEntry
    else if c == '?' && (inFlow || atBlank r) then l.explicitKey
    else if c == ':' && (inFlow || atBlank r) then l.valueSign
    else if c == '*' then l.keyable fun s => do
      let (name, r) ← readName (s.drop 1)
      return (.alias name, r)
    else if c == '&' then l.keyable fun s => do
      let (name, r) ← readName (s.drop 1)
      return (.anchor name, r)
    else if c == '!' then l.keyable fun s => do
      let ((h, name), r) ← Tag.read s
      return (.tag h name, r)
    else if c == '|' && !inFlow then l.blockScalar false
    else if c == '>' && !inFlow then l.blockScalar true
    else if c == '\x27' then l.quoted false
    else if c == '"' then l.quoted true
    else if Plain.starts inFlow s then l.plain
    else .error .malformed

/-- Takes tokens up to the end of the text, or up to where it cannot be read. -/
def run : Nat → Lexer → Array Token
  | 0, l => l.tokens.push (.fault .malformed)
  | fuel + 1, l =>
    match l.step with
    | .error e => l.tokens.push (.fault e)
    | .ok l =>
      match l.tokens.back? with
      | some .streamEnd => l.tokens
      | _ => run fuel l

end Lexer

/-- The tokens of a text. -/
def tokens (s : List Char) : List Token :=
  (Lexer.run (s.length + 2) { pos := { rest := s } }).toList

end EditorBridge.Yaml
