/-
The nodes of a YAML document.

A node is a scalar, a sequence or a mapping, with the tag it was given or got from its
looks.  An alias stands for the node with its anchor.
-/
import EditorBridge.Yaml.Scalar
import EditorBridge.Yaml.Token

namespace EditorBridge.Yaml

/-- A node. -/
inductive Node where
  | scalar (tag : Tag) (text : String)
  | sequence (tag : Tag) (items : List Node)
  | mapping (tag : Tag) (entries : List (Node × Node))
  /-- An alias of a sequence or a mapping that it is a part of. -/
  | within (mapping : Bool)
  deriving Repr, Inhabited

namespace Node

/-- What stands where nothing is written. -/
def empty : Node := .scalar (.ofText "") ""

/-- The tag of a node. -/
def tag : Node → Tag
  | scalar t _ | sequence t _ | mapping t _ => t
  | within m => if m then .map else .seq

end Node

/-- A document while its nodes are put together. -/
structure Composer where
  tokens : List Token
  /-- The prefixes that handles stand for. -/
  handles : List (String × String) := []
  /-- The nodes with anchors, the last one first. -/
  anchors : List (String × Node) := []

abbrev Compose := StateT Composer (Except Error)

namespace Compose

/-- The handles that need no directive. -/
def defaultHandles : List (String × String) := [("!", "!"), ("!!", Tag.common)]

def refuse {α : Type} : Compose α := throw .malformed

/-- The next token. -/
def peek : Compose Token := do
  match (← get).tokens with
  | .fault e :: _ => throw e
  | t :: _ => return t
  | [] => refuse

/-- Goes on behind the next token. -/
def advance : Compose Unit := modify fun c => { c with tokens := c.tokens.tail }

/-- Remembers the node of an anchor. -/
def name (anchor : Option String) (n : Node) : Compose Unit :=
  match anchor with
  | none => return
  | some a => modify fun c => { c with anchors := (a, n) :: c.anchors }

/-- The full name of a tag. -/
def fullName (handle : Option String) (suffix : String) : Compose String := do
  match handle with
  | none => return suffix
  | some h =>
    match (← get).handles.lookup h <|> defaultHandles.lookup h with
    | some start => return start ++ suffix
    | none => refuse

/-- The tag in front of a node, if there is one. -/
def takeTag : Compose (Option String) := do
  match ← peek with
  | .tag h s => do
    advance
    return some (← fullName h s)
  | _ => return none

/-- The anchor in front of a node, if there is one. -/
def takeAnchor : Compose (Option String) := do
  match ← peek with
  | .anchor a => do
    if ((← get).anchors.lookup a).isSome then refuse
    advance
    return some a
  | _ => return none

/-- The anchor and the tag in front of a node, in any order. -/
def takeProperties : Compose (Option String × Option String) := do
  match ← peek with
  | .tag .. => do
    let tag ← takeTag
    return (← takeAnchor, tag)
  | _ => do
    let anchor ← takeAnchor
    return (anchor, ← takeTag)

/-- The tag of a node: what it is told to be, unless it is told to be decided by the looks. -/
def tagOr (byLooks : Tag) : Option String → Tag
  | none | some "!" => byLooks
  | some t => .ofName t

/-- Whether a node is left out in front of a token, within a block. -/
def endsBlockNode : Token → Bool
  | .key | .value | .blockEnd => true
  | _ => false

/-- Whether a node is left out in front of a token, within brackets or braces. -/
def endsFlowNode : Token → Bool
  | .flowEntry | .flowSequenceEnd | .flowMappingEnd => true
  | _ => false

mutual

/-- A node.  `block` says whether it may be set apart by its indentation, and `dashes` whether it
may be a sequence that is not indented. -/
def node : Nat → (block dashes : Bool) → Compose Node
  | 0, _, _ => refuse
  | fuel + 1, block, dashes => do
    match ← peek with
    | .alias a => do
      advance
      match (← get).anchors.lookup a with
      | some n => return n
      | none => refuse
    | _ =>
      let (anchor, tag) ← takeProperties
      let n : Node ← match ← peek, block, dashes with
        | .scalar text plain, _, _ => do
          advance
          pure (.scalar (tagOr (if plain || tag = some "!" then .ofText text else .str) tag) text)
        | .flowSequence, _, _ => do
          advance
          name anchor (.within false)
          pure (.sequence (tagOr .seq tag) (← flowItems fuel true))
        | .flowMapping, _, _ => do
          advance
          name anchor (.within true)
          pure (.mapping (tagOr .map tag) (← flowEntries fuel true))
        | .blockSequence, true, _ => do
          advance
          name anchor (.within false)
          pure (.sequence (tagOr .seq tag) (← blockItems fuel))
        | .blockMapping, true, _ => do
          advance
          name anchor (.within true)
          pure (.mapping (tagOr .map tag) (← blockEntries fuel))
        | .blockEntry, _, true => do
          name anchor (.within false)
          pure (.sequence (tagOr .seq tag) (← dashItems fuel))
        | _, _, _ =>
          if anchor.isSome || tag.isSome then pure (.scalar (tagOr (.ofText "") tag) "")
          else refuse
      name anchor n
      return n

/-- The items of an indented sequence. -/
def blockItems : Nat → Compose (List Node)
  | 0 => refuse
  | fuel + 1 => do
    match ← peek with
    | .blockEntry => do
      advance
      let n ← match ← peek with
        | .blockEntry | .blockEnd => pure .empty
        | _ => node fuel true false
      return n :: (← blockItems fuel)
    | .blockEnd => do
      advance
      return []
    | _ => refuse

/-- The items of a sequence that is not indented. -/
def dashItems : Nat → Compose (List Node)
  | 0 => refuse
  | fuel + 1 => do
    match ← peek with
    | .blockEntry => do
      advance
      let t ← peek
      let n ← match t with
        | .blockEntry => pure .empty
        | _ => if endsBlockNode t then pure .empty else node fuel true false
      return n :: (← dashItems fuel)
    | _ => return []

/-- The entries of an indented mapping. -/
def blockEntries : Nat → Compose (List (Node × Node))
  | 0 => refuse
  | fuel + 1 => do
    match ← peek with
    | .key => do
      advance
      let k ← if endsBlockNode (← peek) then pure .empty else node fuel true true
      let v ← blockValue fuel
      return (k, v) :: (← blockEntries fuel)
    | .blockEnd => do
      advance
      return []
    | _ => refuse

/-- The value of an entry of an indented mapping. -/
def blockValue : Nat → Compose Node
  | 0 => refuse
  | fuel + 1 => do
    match ← peek with
    | .value => do
      advance
      if endsBlockNode (← peek) then return .empty else node fuel true true
    | _ => return .empty

/-- The key and the value of an entry behind a question mark, within brackets or braces. -/
def flowPair : Nat → Compose (Node × Node)
  | 0 => refuse
  | fuel + 1 => do
    let k ← match ← peek with
      | .value => pure .empty
      | t => if endsFlowNode t then pure .empty else node fuel false false
    return (k, ← flowValue fuel)

/-- The value of an entry within brackets or braces. -/
def flowValue : Nat → Compose Node
  | 0 => refuse
  | fuel + 1 => do
    match ← peek with
    | .value => do
      advance
      if endsFlowNode (← peek) then return .empty else node fuel false false
    | _ => return .empty

/-- The items of a sequence in brackets; a comma has to be between two of them. -/
def flowItems : Nat → (first : Bool) → Compose (List Node)
  | 0, _ => refuse
  | fuel + 1, first => do
    match ← peek, first with
    | .flowSequenceEnd, _ => do
      advance
      return []
    | .flowEntry, false => do
      advance
      flowItem fuel
    | _, true => flowItem fuel
    | _, false => refuse

/-- The items of a sequence in brackets behind a comma. -/
def flowItem : Nat → Compose (List Node)
  | 0 => refuse
  | fuel + 1 => do
    match ← peek with
    | .flowSequenceEnd => do
      advance
      return []
    | .key => do
      advance
      let (k, v) ← flowPair fuel
      return .mapping .map [(k, v)] :: (← flowItems fuel false)
    | _ => do
      let n ← node fuel false false
      return n :: (← flowItems fuel false)

/-- The entries of a mapping in braces; a comma has to be between two of them. -/
def flowEntries : Nat → (first : Bool) → Compose (List (Node × Node))
  | 0, _ => refuse
  | fuel + 1, first => do
    match ← peek, first with
    | .flowMappingEnd, _ => do
      advance
      return []
    | .flowEntry, false => do
      advance
      flowEntry fuel
    | _, true => flowEntry fuel
    | _, false => refuse

/-- The entries of a mapping in braces behind a comma. -/
def flowEntry : Nat → Compose (List (Node × Node))
  | 0 => refuse
  | fuel + 1 => do
    match ← peek with
    | .flowMappingEnd => do
      advance
      return []
    | .key => do
      advance
      let e ← flowPair fuel
      return e :: (← flowEntries fuel false)
    | _ => do
      let k ← node fuel false false
      return (k, .empty) :: (← flowEntries fuel false)

end

/-- The directives in front of a document: the version may be told once, and every handle may get
one prefix. -/
def directives : Nat → (versioned : Bool) → Compose Unit
  | 0, _ => refuse
  | fuel + 1, versioned => do
    match ← peek with
    | .version major =>
      if versioned || major ≠ 1 then refuse
      else do
        advance
        directives fuel true
    | .handle h start =>
      if ((← get).handles.lookup h).isSome then refuse
      else do
        advance
        modify fun c => { c with handles := (h, start) :: c.handles }
        directives fuel versioned
    | .directive => do
      advance
      directives fuel versioned
    | _ => return

/-- Goes behind the marks at the end of a document. -/
def skipEnds : Nat → Compose Unit
  | 0 => refuse
  | fuel + 1 => do
    match ← peek with
    | .documentEnd => do
      advance
      skipEnds fuel
    | _ => return

/-- The only document of a text, if there is one. -/
def document (fuel : Nat) : Compose (Option Node) := do
  let n ← match ← peek with
    | .streamEnd => pure none
    | .version _ | .handle .. | .directive | .documentStart => do
      directives fuel false
      match ← peek with
      | .documentStart => do
        advance
        match ← peek with
        | .version _ | .handle .. | .directive | .documentStart | .documentEnd | .streamEnd =>
          pure (some .empty)
        | _ => do pure (some (← node fuel true false))
      | _ => refuse
    | _ => do pure (some (← node fuel true false))
  skipEnds fuel
  match ← peek with
  | .streamEnd => return n
  | _ => refuse

end Compose

/-- The node of the only document of a text, if there is one.  No token takes more than four steps,
which bounds the depth. -/
def Node.ofTokens (ts : List Token) : Except Error (Option Node) :=
  (Compose.document (4 * ts.length + 4)).run' { tokens := ts }

end EditorBridge.Yaml
