/-
Glob patterns.

A star stands for any run of characters, slashes included, a question mark for one
character, and brackets for one character of a set.  A pattern has to match the
whole text.
-/

namespace EditorBridge.Text.Glob

/-- One element of a pattern. -/
inductive Token where
  | any
  | one
  | char (c : Char)
  /-- One character out of ranges, or one that is in none of them. -/
  | set (negated : Bool) (ranges : List (Char × Char))
  deriving Repr, DecidableEq

/-- The ranges written between two brackets.  A hyphen between two characters makes a range,
which is empty if it runs backwards. -/
def ranges : List Char → List (Char × Char)
  | a :: '-' :: b :: r => if a ≤ b then (a, b) :: ranges r else ranges r
  | c :: r => (c, c) :: ranges r
  | [] => []

/-- How many characters at the start of a set cannot close it: the mark of negation, and a
bracket right at the start or behind the mark. -/
def leadOf : List Char → Nat
  | '!' :: ']' :: _ => 2
  | '!' :: _ => 1
  | ']' :: _ => 1
  | _ => 0

/-- Splits the text behind an opening bracket at its closing one. -/
def splitSet (cs : List Char) : Option (List Char × List Char) :=
  let inner := (cs.drop (leadOf cs)).takeWhile (· != ']')
  match (cs.drop (leadOf cs)).dropWhile (· != ']') with
  | _ :: rest => some (cs.take (leadOf cs) ++ inner, rest)
  | [] => none

/-- The element that is written between two brackets. -/
def Token.ofSet : List Char → Token
  | '!' :: more => set true (ranges more)
  | more => set false (ranges more)

/-- What follows a set is a part of what follows its opening bracket. -/
theorem length_of_splitSet {cs inner rest : List Char} (h : splitSet cs = some (inner, rest)) :
    rest.length ≤ cs.length := by
  unfold splitSet at h
  have hle := (List.dropWhile_suffix (l := cs.drop (leadOf cs)) (· != ']')).length_le
  generalize leadOf cs = lead at h hle
  simp only at h
  split at h
  · rename_i e
    simp only [Option.some.injEq, Prod.mk.injEq] at h
    rw [e, h.2, List.length_cons, List.length_drop] at hle
    omega
  · simp at h

/-- Reads a pattern. -/
def tokens (cs : List Char) : List Token :=
  match cs with
  | [] => []
  | '*' :: r => .any :: tokens r
  | '?' :: r => .one :: tokens r
  | '[' :: r =>
    match h : splitSet r with
    | some (inner, rest) =>
      have := length_of_splitSet h
      .ofSet inner :: tokens rest
    | none => .char '[' :: tokens r
  | c :: r => .char c :: tokens r
termination_by cs.length

/-- Whether one character fits an element that stands for one character. -/
def Token.fits (c : Char) : Token → Bool
  | any => false
  | one => true
  | char d => c == d
  | set negated rs => (rs.any fun r => r.1 ≤ c && c ≤ r.2) != negated

/-- Whether elements match a whole text. -/
def fitAll : List Token → List Char → Bool
  | [], cs => cs.isEmpty
  | .any :: ts, [] => fitAll ts []
  | .any :: ts, c :: cs => fitAll ts (c :: cs) || fitAll (.any :: ts) cs
  | _ :: _, [] => false
  | t :: ts, c :: cs => t.fits c && fitAll ts cs
termination_by ts cs => (cs.length, ts.length)

/-- Whether a text matches a pattern. -/
def accepts (pattern text : String) : Bool := fitAll (tokens pattern.toList) text.toList

end EditorBridge.Text.Glob
