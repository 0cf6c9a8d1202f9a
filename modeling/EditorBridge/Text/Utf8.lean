/-
Reading UTF-8.

`next` takes one character off the front of a byte string or says what is wrong
there: which bytes cannot be read, and why.  The bytes that are given up together
are the longest beginning of a character among them, so reading can go on behind
them with a replacement character in their place.
-/

namespace EditorBridge.Text.Utf8

/-- Why bytes are no character. -/
inductive Problem where
  | startByte
  | continuationByte
  | endOfData
  deriving DecidableEq, Repr

def Problem.text : Problem → String
  | startByte => "invalid start byte"
  | continuationByte => "invalid continuation byte"
  | endOfData => "unexpected end of data"

/-- The front of a byte string. -/
inductive Front where
  | char (c : Char) (rest : List UInt8)
  /-- The first `count` bytes are not part of any character. -/
  | bad (count : Nat) (problem : Problem)
  deriving Repr

def isContinuation (b : UInt8) : Bool := 0x80 ≤ b && b < 0xc0

/-- The lowest and the highest second byte that may follow a first one. -/
def secondRange (b : UInt8) : UInt8 × UInt8 :=
  if b = 0xe0 then (0xa0, 0xbf)
  else if b = 0xed then (0x80, 0x9f)
  else if b = 0xf0 then (0x90, 0xbf)
  else if b = 0xf4 then (0x80, 0x8f)
  else (0x80, 0xbf)

/-- The number of bytes of a character by its first byte; none if no character begins so. -/
def width? (b : UInt8) : Option Nat :=
  if b < 0x80 then some 1
  else if b < 0xc2 then none
  else if b < 0xe0 then some 2
  else if b < 0xf0 then some 3
  else if b < 0xf5 then some 4
  else none

/-- The code point of the bytes of one character. -/
def codePoint (first : UInt8) (width : Nat) (more : List UInt8) : Nat :=
  let bits := if width = 1 then 7 else 7 - width
  more.foldl (fun n b => n * 64 + b.toNat % 64) (first.toNat % 1 <<< bits)

/-- How many of the bytes behind a first one can continue a character of `width` bytes. -/
def continuing (b : UInt8) (width : Nat) (r : List UInt8) : Nat :=
  match (r.take (width - 1)) with
  | [] => 0
  | s :: more =>
    if (secondRange b).1 ≤ s && s ≤ (secondRange b).2 then
      1 + (more.takeWhile isContinuation).length
    else 0

/-- The first character of a byte string that is not empty. -/
def next (b : UInt8) (r : List UInt8) : Front :=
  match width? b with
  | none => .bad 1 .startByte
  | some w =>
    let n := continuing b w r
    if n + 1 = w then .char (Char.ofNat (codePoint b w (r.take n))) (r.drop n)
    else if n = r.length then .bad (n + 1) .endOfData
    else .bad (n + 1) .continuationByte

/-- Reads bytes with a replacement character for whatever is no character. -/
def decodeLossy : List UInt8 → List Char
  | [] => []
  | b :: r =>
    match next b r with
    | .char c _ => c :: decodeLossy (r.drop (((width? b).getD 1) - 1))
    | .bad n _ => '\ufffd' :: decodeLossy (r.drop (n - 1))
termination_by bs => bs.length
decreasing_by all_goals (simp only [List.length_drop, List.length_cons]; omega)

/-- Where and why bytes are not UTF-8: the bytes from `start` up to `stop` are the first that
cannot be read. -/
structure Fault where
  start : Nat
  stop : Nat
  problem : Problem
  deriving DecidableEq, Repr

/-- Reads bytes that all have to be UTF-8. -/
def decode? (bs : List UInt8) : Except Fault (List Char) := go 0 [] bs
where
  go (at_ : Nat) (acc : List Char) : List UInt8 → Except Fault (List Char)
    | [] => .ok acc.reverse
    | b :: r =>
      match next b r with
      | .char c _ =>
        let w := (width? b).getD 1
        go (at_ + w) (c :: acc) (r.drop (w - 1))
      | .bad n problem => .error ⟨at_, at_ + n, problem⟩
  termination_by bs => bs.length
  decreasing_by simp only [List.length_drop, List.length_cons]; omega

/-- The bytes of a text. -/
def encode (cs : List Char) : List UInt8 := (String.ofList cs).toUTF8.toList

end EditorBridge.Text.Utf8
