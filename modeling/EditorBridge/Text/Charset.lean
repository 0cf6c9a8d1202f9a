/-
Character sets by name.

A message may say in which character set its body is written.  Four are known, each
under several names; blanks, hyphens and upper case in a name do not matter.  Bytes
that a character set cannot read are refused with their place.  What any other name
stands for is left open.
-/
import EditorBridge.Text.Quoted
import EditorBridge.Text.Utf8

namespace EditorBridge.Text

/-- A character set that can be read. -/
inductive Charset where
  | utf8
  | latin1
  | ascii
  | utf16le
  deriving DecidableEq, Repr

/-- The name of a character set in messages. -/
def Charset.name : Charset → String
  | utf8 => "utf-8"
  | latin1 => "latin-1"
  | ascii => "ascii"
  | utf16le => "utf-16-le"

/-- A name reduced to lower-case letters and digits, with one underscore for each run of other
characters between them. -/
def plainName (s : String) : String :=
  String.ofList (go false (s.toList.dropWhile fun c => !isPart c))
where
  isPart (c : Char) : Bool := c.isAlphanum || c == '.'
  go (pending : Bool) : List Char → List Char
    | [] => []
    | c :: r =>
      if isPart c then
        if pending then '_' :: c.toLower :: go false r else c.toLower :: go false r
      else go true r

/-- The names of the known character sets. -/
def charsetNames : List (Charset × List String) := [
  (.utf8, ["utf_8", "utf8", "u8", "utf", "utf8_ucs2", "utf8_ucs4", "cp65001"]),
  (.latin1, ["latin_1", "latin1", "latin", "l1", "8859", "cp819", "iso8859", "iso8859_1",
    "iso_8859_1", "iso_8859_1_1987", "iso_ir_100", "csisolatin1", "ibm819"]),
  (.ascii, ["ascii", "us_ascii", "us", "646", "ansi_x3.4_1968", "ansi_x3_4_1968",
    "ansi_x3.4_1986", "cp367", "csascii", "ibm367", "iso646_us", "iso_646.irv_1991",
    "iso_ir_6"]),
  (.utf16le, ["utf_16_le", "utf_16le", "unicodelittleunmarked"])]

/-- The character set of a name. -/
def charset? (name : String) : Option Charset :=
  (charsetNames.find? fun e => e.2.contains (plainName name)).map (·.1)

/-- Why bytes cannot be read. -/
inductive DecodeError where
  | unknownCharset (name : String)
  /-- The bytes from `start` up to `stop`, of which `first` is the first one. -/
  | bytes (charset : Charset) (first : UInt8) (start stop : Nat) (reason : String)
  /-- What a character set that is none of the four says against the bytes. -/
  | foreign (class_ text : String)
  deriving DecidableEq, Repr

/-- The message of a refusal. -/
def DecodeError.message : DecodeError → String
  | unknownCharset n => "unknown encoding: " ++ n
  | bytes c b i j reason =>
    let place := if j = i + 1 then
        "byte 0x" ++ String.ofList (hex 2 b.toNat) ++ s!" in position {i}"
      else s!"bytes in position {i}-{j - 1}"
    quote c.name ++ " codec can't decode " ++ place ++ ": " ++ reason
  | foreign _ t => t

/-- Reads bytes that are all below 128. -/
def decodeAscii (bs : List UInt8) : Except DecodeError (List Char) := go 0 bs
where
  go (i : Nat) : List UInt8 → Except DecodeError (List Char)
    | [] => .ok []
    | b :: r =>
      if b < 0x80 then return Char.ofNat b.toNat :: (← go (i + 1) r)
      else .error (.bytes .ascii b i (i + 1) "ordinal not in range(128)")

/-- Reads 16-bit units, the low byte first; two surrogates make one character. -/
def decodeUtf16le (bs : List UInt8) : Except DecodeError (List Char) := go 0 bs
where
  bad (b : UInt8) (i j : Nat) (reason : String) : Except DecodeError (List Char) :=
    .error (.bytes .utf16le b i j reason)
  go (i : Nat) : List UInt8 → Except DecodeError (List Char)
    | [] => .ok []
    | [b] => bad b i (i + 1) "truncated data"
    | a :: b :: r =>
      let n := a.toNat + 256 * b.toNat
      if n < 0xd800 ∨ 0xe000 ≤ n then return Char.ofNat n :: (← go (i + 2) r)
      else if 0xdc00 ≤ n then bad a i (i + 2) "illegal encoding"
      else match r with
        | c :: d :: r =>
          let m := c.toNat + 256 * d.toNat
          if 0xdc00 ≤ m ∧ m < 0xe000 then
            return Char.ofNat (0x10000 + (n - 0xd800) * 0x400 + (m - 0xdc00)) :: (← go (i + 4) r)
          else bad a i (i + 2) "illegal UTF-16 surrogate"
        | r => bad a i (i + 2 + r.length) "unexpected end of data"

/-- Reads bytes in a character set. -/
def Charset.decode (c : Charset) (bs : List UInt8) : Except DecodeError (List Char) :=
  match c with
  | .utf8 => (Utf8.decode? bs).mapError fun f =>
      .bytes .utf8 (bs.getD f.start 0) f.start f.stop f.problem.text
  | .latin1 => .ok (bs.map fun b => Char.ofNat b.toNat)
  | .ascii => decodeAscii bs
  | .utf16le => decodeUtf16le bs

/-- Reads bytes in the character set of a name; `others` does so for the names of none of the
four.  No bytes are no characters in any of them, known or not. -/
def decodeNamed (others : String → List UInt8 → Except DecodeError (List Char)) (name : String)
    (bs : List UInt8) : Except DecodeError (List Char) :=
  match charset? name with
  | some c => c.decode bs
  | none => if bs.isEmpty then .ok [] else others name bs

end EditorBridge.Text
