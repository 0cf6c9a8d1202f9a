/-
Messages on a byte stream.

A message is a block of header lines, an empty line and a body.  The header
`Content-Length` tells how many bytes the body has, and the header `Content-Type` may
tell its character set.  A block without a length is passed over; whatever is not
complete yet stays in the buffer until more bytes have come.
-/
import EditorBridge.Json.Reader
import EditorBridge.Text.Blank
import EditorBridge.Text.Utf8

namespace EditorBridge.Rpc

abbrev Bytes := List UInt8

/-- The character set of a body that does not tell its own. -/
def defaultCharset : String := "utf-8"

/-- What is in front of the first empty line, and what is behind it. -/
def cutAtEmptyLine : Bytes → Option (Bytes × Bytes)
  | [] => none
  | 13 :: 10 :: 13 :: 10 :: rest => some ([], rest)
  | b :: rest => (cutAtEmptyLine rest).map fun p => (b :: p.1, p.2)

/-- What is behind an empty line is shorter than the whole. -/
theorem length_of_cutAtEmptyLine {bs front rest : Bytes}
    (h : cutAtEmptyLine bs = some (front, rest)) : rest.length < bs.length := by
  fun_induction cutAtEmptyLine bs generalizing front rest with
  | case1 => simp at h
  | case2 r =>
    simp only [Option.some.injEq, Prod.mk.injEq] at h
    simp [← h.2]; omega
  | case3 b r hne ih =>
    obtain ⟨p, hp, heq⟩ := Option.map_eq_some_iff.1 h
    simp only [Prod.mk.injEq] at heq
    have := ih hp
    simp [← heq.2]; omega

/-- A byte of a header; bytes that are no ASCII are all alike. -/
def headerChar (b : UInt8) : Char := if b < 128 then Char.ofNat b.toNat else '\ufffd'

/-- The lines of a block of headers. -/
def headerLines : List Char → List (List Char)
  | [] => [[]]
  | '\r' :: '\n' :: rest => [] :: headerLines rest
  | c :: rest => match headerLines rest with
    | [] => [[c]]
    | l :: ls => (c :: l) :: ls

/-- What is in front of the first such character, and what is behind it if there is one. -/
def cutAt (d : Char) (cs : List Char) : List Char × Option (List Char) :=
  match cs.dropWhile (· ≠ d) with
  | [] => (cs.takeWhile (· ≠ d), none)
  | _ :: rest => (cs.takeWhile (· ≠ d), some rest)

/-- Blanks at the ends do not count, and upper case is as good as lower case. -/
def plainWord (cs : List Char) : List Char := (Text.trim cs).map Char.toLower

/-- Headers by name. -/
abbrev Headers := List (String × String)

/-- Sets a header; one that is there keeps its place. -/
def Headers.set (name value : String) : Headers → Headers
  | [] => [(name, value)]
  | h :: hs => if h.1 = name then (name, value) :: hs else h :: Headers.set name value hs

/-- Reads a block of headers; a line without a colon is none. -/
def Headers.ofBytes (bs : Bytes) : Headers :=
  (headerLines (bs.map headerChar)).foldl (fun hs line =>
    match cutAt ':' line with
    | (_, none) => hs
    | (name, some value) =>
      hs.set (String.ofList (plainWord name)) (String.ofList (Text.trim value))) []

/-- The character set that a parameter of a content type tells. -/
def charsetParameter? (parameter : List Char) : Option String :=
  let (key, value) := cutAt '=' parameter
  let value := Text.trim (value.getD [])
  if plainWord key = "charset".toList ∧ value ≠ [] then
    some (String.ofList ((value.dropWhile (· = '"')).reverse.dropWhile (· = '"')).reverse)
  else none

/-- The parts of a text between such characters. -/
def partsAt (d : Char) : List Char → List (List Char)
  | [] => [[]]
  | c :: rest =>
    if c = d then [] :: partsAt d rest
    else match partsAt d rest with
      | [] => [[c]]
      | p :: ps => (c :: p) :: ps

/-- The character set of a body. -/
def Headers.charset (hs : Headers) : String :=
  match hs.lookup "content-type" with
  | none => defaultCharset
  | some t => ((partsAt ';' t.toList).tail.findSome? charsetParameter?).getD defaultCharset

/-- What is at the front of a buffer. -/
inductive Front where
  /-- More bytes are needed. -/
  | incomplete
  /-- A block of headers without a length. -/
  | unmarked (headers : Headers) (rest : Bytes)
  /-- A length of too many digits. -/
  | tooLong (digits : Nat)
  | message (body : Bytes) (charset : String) (rest : Bytes)
  deriving Repr, Inhabited

/-- The front of a buffer. -/
def front (buffer : Bytes) : Front :=
  match cutAtEmptyLine buffer with
  | none => .incomplete
  | some (block, rest) =>
    let hs := Headers.ofBytes block
    let digits := ((hs.lookup "content-length").getD "").toList
    if digits = [] ∨ ¬ digits.all Char.isDigit then .unmarked hs rest
    else if Digits.limit < digits.length then .tooLong digits.length
    else
      let n := Digits.value digits
      if rest.length < n then .incomplete else .message (rest.take n) hs.charset (rest.drop n)

/-- What is left behind a block of headers is shorter. -/
theorem length_of_front_unmarked {buffer rest : Bytes} {hs : Headers}
    (h : front buffer = .unmarked hs rest) : rest.length < buffer.length := by
  unfold front at h
  split at h
  · simp at h
  · rename_i block r hcut
    have hlt := length_of_cutAtEmptyLine hcut
    simp only at h
    split at h
    · simp only [Front.unmarked.injEq] at h
      simpa [← h.2] using hlt
    · split at h
      · simp at h
      · split at h <;> simp at h

/-- What is left behind a message is shorter. -/
theorem length_of_front_message {buffer body rest : Bytes} {cs : String}
    (h : front buffer = .message body cs rest) : rest.length < buffer.length := by
  unfold front at h
  split at h
  · simp at h
  · rename_i block r hcut
    have hlt := length_of_cutAtEmptyLine hcut
    simp only at h
    split at h
    · simp at h
    · split at h
      · simp at h
      · split at h
        · simp at h
        · simp only [Front.message.injEq] at h
          have : rest.length ≤ r.length := by simp [← h.2.2]
          omega

/-- The headers of a body of so many bytes. -/
def header (length : Nat) : String :=
  s!"Content-Length: {length}\r\n" ++
    s!"Content-Type: application/vscode-jsonrpc; charset={defaultCharset}\r\n\r\n"

/-- A body with its headers. -/
def framed (body : String) : String := header body.utf8ByteSize ++ body

end EditorBridge.Rpc
