/-
Reading a YAML document.

The values of the nodes are made level by level, so that of several nodes that have no
value the one that lies least deep is reported.
-/
import EditorBridge.Yaml.Node

namespace EditorBridge.Yaml

/-- An error of a node and how deep the node lies. -/
abbrev Fault := Nat × Error

/-- All of the results, or the fault that lies least deep, of several the first. -/
def gather {α : Type} : List (Except Fault α) → Except Fault (List α)
  | [] => .ok []
  | .ok x :: rs => (gather rs).map (x :: ·)
  | .error f :: rs =>
    match gather rs with
    | .error g => if g.1 < f.1 then .error g else .error f
    | .ok _ => .error f

mutual

/-- The entries of a mapping: those that are taken over from other mappings, and its own. -/
def flatten : List (Node × Node) → Except Error (List (Node × Node) × List (Node × Node))
  | [] => .ok ([], [])
  | (k, v) :: es => do
    match k with
    | .scalar .merge _ => do
      let here ← taken v
      let (merged, own) ← flatten es
      return (here ++ merged, own)
    | .scalar .value text => do
      let (merged, own) ← flatten es
      return (merged, (.scalar .str text, v) :: own)
    | _ => do
      let (merged, own) ← flatten es
      return (merged, (k, v) :: own)

/-- The entries that are taken over from a mapping or from a sequence of mappings. -/
def taken : Node → Except Error (List (Node × Node))
  | .mapping _ es => do
    let (merged, own) ← flatten es
    return merged ++ own
  | .sequence _ ns => takenAll ns
  | _ => .error .malformed

/-- The entries that are taken over from mappings; the first mapping counts most. -/
def takenAll : List Node → Except Error (List (Node × Node))
  | [] => .ok []
  | n :: ns => do
    match n with
    | .mapping _ es => do
      let (merged, own) ← flatten es
      return (← takenAll ns) ++ (merged ++ own)
    | _ => .error .malformed

end

mutual

/-- The text of a scalar; a mapping may have an entry that stands for it. -/
def textOf : Node → Except Error String
  | .scalar _ text => .ok text
  | .mapping _ es => textOfValue es
  | _ => .error .malformed

/-- The text of the entry that stands for a mapping. -/
def textOfValue : List (Node × Node) → Except Error String
  | [] => .error .malformed
  | (k, v) :: es => if k.tag = .value then textOf v else textOfValue es

end

/-- Whether a value may be a key. -/
def isKey : Value → Bool
  | .list _ | .dict _ | .set _ => false
  | _ => true

/-- The value of a key. -/
def keyOf (depth : Nat) (k : Node) (v : Except Fault Value) : Except Fault Value :=
  match k, v with
  | .scalar .., v => v
  | _, .ok v => if isKey v then .ok v else .error (depth, .malformed)
  | _, .error _ => .error (depth, .malformed)

/-- Values two by two. -/
def pairUp : List Value → List (Value × Value)
  | k :: v :: r => (k, v) :: pairUp r
  | _ => []

/-- The value of a node at some depth. -/
def construct : Nat → (depth : Nat) → Node → Except Fault Value
  | 0, depth, _ => .error (depth, .malformed)
  | fuel + 1, depth, n =>
    let below := construct fuel (depth + 1)
    let here {α : Type} (r : Except Error α) : Except Fault α := r.mapError (depth, ·)
    let inner {α : Type} (r : Except Error α) : Except Fault α := r.mapError (depth + 1, ·)
    match n with
    | .scalar tag text => here (tag.value? text)
    | .within mapping =>
      .ok (if mapping then .thing "dict" "\x7b...\x7d" else .thing "list" "[...]")
    | .sequence .seq ns => (gather (ns.map below)).map .list
    | .sequence tag ns =>
      if tag = .omap ∨ tag = .pairs then do
        let rows := ns.map fun n => match n with
          | .mapping _ [(k, v)] => (gather [below k, below v]).map .tuple
          | _ => .error (depth + 1, .malformed)
        return .list (← gather rows)
      else .error (depth, .malformed)
    | .mapping tag es =>
      if tag = .map ∨ tag = .set then do
        let (merged, own) ← inner (flatten es)
        let cells := (merged ++ own).flatMap fun (k, v) =>
          [keyOf (depth + 1) k (below k), below v]
        let entries := (pairUp (← gather cells)).foldl (fun es (k, v) => Value.put k v es) []
        return if tag = .map then .dict entries else .set (entries.map (·.1))
      else here do (tag.value? (← textOf n))

/-- Reads the only document of a text; null if there is none. -/
def parse (text : String) : Except Error Value :=
  let cs := text.toList
  if !cs.all isText then .error .malformed
  else do
    let ts := tokens cs
    match ← Node.ofTokens ts with
    | none => return .null
    | some n => (construct (ts.length + 1) 0 n).mapError (·.2)

end EditorBridge.Yaml
