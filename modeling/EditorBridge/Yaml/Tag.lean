/-
Tags: what a node is told to be.

A tag is written as a handle, which stands for a prefix, and a suffix.  A scalar without
a tag gets one from its text.
-/
import EditorBridge.Text.Utf8
import EditorBridge.Yaml.Line

namespace EditorBridge.Yaml

/-- What a node is. -/
inductive Tag where
  | null
  | bool
  | int
  | float
  | str
  | binary
  | timestamp
  | omap
  | pairs
  | set
  | seq
  | map
  /-- The key under which entries of another table are taken over. -/
  | merge
  /-- The key of the value that stands for a whole table. -/
  | value
  | unknown
  deriving DecidableEq, Repr, Inhabited

namespace Tag

/-- The prefix of the common tags. -/
def common : String := "tag:yaml.org,2002:"

/-- The common tags by their suffixes. -/
def names : List (String × Tag) := [
  ("null", null), ("bool", bool), ("int", int), ("float", float), ("str", str),
  ("binary", binary), ("timestamp", timestamp), ("omap", omap), ("pairs", pairs), ("set", set),
  ("seq", seq), ("map", map), ("merge", merge), ("value", value)]

/-- The tag of a full name. -/
def ofName (name : String) : Tag :=
  ((names.find? fun n => common ++ n.1 == name).map (·.2)).getD unknown

/-- Letters, digits and the signs that names may have. -/
def isNameChar (c : Char) : Bool := c.isAlphanum || c == '-' || c == '_'

/-- The characters that may stand in a tag. -/
def isUriChar (c : Char) : Bool :=
  c.isAlphanum || "-;/?:@&=+$,_.!~*'()[]%".toList.contains c

/-- Bytes written in hexadecimal behind percent signs. -/
def escapedBytes : Nat → List Char → Except Error (List UInt8 × List Char)
  | fuel + 1, '%' :: a :: b :: r =>
    if [a, b].all (Digits.isDigitIn 16) then do
      let (bs, rest) ← escapedBytes fuel r
      return (UInt8.ofNat (Digits.valueIn 16 [a, b]) :: bs, rest)
    else .error .malformed
  | _, '%' :: _ => .error .malformed
  | _, r => .ok ([], r)

/-- The characters of a tag or of a prefix of tags. -/
def readUri : Nat → List Char → Except Error (List Char × List Char)
  | 0, r => .ok ([], r)
  | fuel + 1, s =>
    match s with
    | '%' :: _ => do
      let (bs, r) ← escapedBytes s.length s
      match Text.Utf8.decode? bs with
      | .error _ => .error .malformed
      | .ok cs =>
        let (more, rest) ← readUri fuel r
        return (cs ++ more, rest)
    | c :: r =>
      if isUriChar c then do
        let (cs, rest) ← readUri fuel r
        return (c :: cs, rest)
      else .ok ([], c :: r)
    | [] => .ok ([], [])

/-- A tag or a prefix of tags, which is not empty. -/
def uri (s : List Char) : Except Error (String × List Char) := do
  let (cs, r) ← readUri s.length s
  if r.length = s.length then .error .malformed else return (String.ofList cs, r)

/-- A handle: an exclamation mark alone in front of a space, or a name between two of them. -/
def handle (s : List Char) : Except Error (String × List Char) :=
  match s with
  | '!' :: r =>
    if begins ' ' r then .ok ("!", r)
    else
      let name := r.takeWhile isNameChar
      match r.drop name.length with
      | '!' :: rest => .ok (String.ofList ('!' :: name ++ ['!']), rest)
      | _ => .error .malformed
  | _ => .error .malformed

/-- A tag as it is written: the handle, unless the tag is given in full, and the rest. -/
def read (s : List Char) : Except Error ((Option String × String) × List Char) := do
  let r := s.drop 1
  let (tag, rest) ←
    if begins '<' r then do
      let (name, r) ← uri (r.drop 1)
      match r with
      | '>' :: r => pure ((none, name), r)
      | _ => .error .malformed
    else if atBlank r then pure ((none, "!"), r)
    else if (r.takeWhile fun c => !(c == ' ' || isBreak c)).contains '!' then do
      let (h, r) ← handle s
      let (name, r) ← uri r
      pure ((some h, name), r)
    else do
      let (name, r) ← uri r
      pure ((some "!", name), r)
  if atSpace rest then return (tag, rest) else .error .malformed

end Tag

end EditorBridge.Yaml
