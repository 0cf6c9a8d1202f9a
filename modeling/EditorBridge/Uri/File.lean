/-
Files as uris.

In the uri of a file every byte of the path that is not a letter, a digit or one of
five other characters is written as a percent sign and two digits.  Reading turns
these back; bytes that are no text become replacement characters.
-/
import EditorBridge.Uri.Basic

namespace EditorBridge.Uri

/-- The value of a hexadecimal digit. -/
def hexValue (c : Char) : Nat :=
  if c.isDigit then c.toNat - 48 else if 'a' ≤ c then c.toNat - 87 else c.toNat - 55

/-- The bytes of an ASCII text, every percent sign with two digits taken as one byte. -/
def unescapeBytes : List Char → List UInt8
  | '%' :: a :: b :: r =>
    if isHexDigit a && isHexDigit b then
      UInt8.ofNat (16 * hexValue a + hexValue b) :: unescapeBytes r
    else '%'.toUInt8 :: unescapeBytes (a :: b :: r)
  | c :: r => c.toUInt8 :: unescapeBytes r
  | [] => []

/-- A text without its percent signs.  Each run of ASCII characters is read for itself. -/
def unescape (cs : List Char) : List Char :=
  match _h : cs with
  | [] => []
  | c :: r =>
    if c.toNat < 0x80 then
      let more := r.takeWhile fun c => c.toNat < 0x80
      Text.Utf8.decodeLossy (unescapeBytes (c :: more)) ++ unescape (r.drop more.length)
    else c :: unescape r
termination_by cs.length
decreasing_by all_goals (simp only [List.length_drop, List.length_cons]; omega)

/-- Whether a byte stands for itself in the uri of a file. -/
def isPlainByte (b : UInt8) : Bool :=
  let c := Char.ofNat b.toNat
  c.isAlphanum || c == '_' || c == '.' || c == '-' || c == '~' || c == '/'

/-- One byte as it is written in the uri of a file. -/
def escapeByte (b : UInt8) : List Char :=
  if isPlainByte b then [Char.ofNat b.toNat]
  else '%' :: (Nat.toDigits 16 (b.toNat / 16) ++ Nat.toDigits 16 (b.toNat % 16)).map Char.toUpper

/-- A text as it is written in the uri of a file. -/
def escape (cs : List Char) : List Char := (Text.Utf8.encode cs).flatMap escapeByte

/-- The uri of a file. -/
def ofPath (p : FilePath) : Except Error Uri :=
  ofText ("file://" ++ String.ofList (escape p.toString.toList))

/-- A path that begins with the letter of a drive has it in lower case and no slash before,
and loses a line end behind it.  A line end elsewhere makes it a path like any other. -/
def lowerDrive : List Char → List Char
  | '/' :: d :: ':' :: r =>
    let rest := if r.getLast? == some '\n' then r.dropLast else r
    if d.isAlpha && !rest.contains '\n' then d.toLower :: ':' :: rest else '/' :: d :: ':' :: r
  | s => s

/-- The path of the file that a uri names.  A host becomes the first name of a path with two
slashes. -/
def toPath (u : Uri) : Except Error FilePath :=
  if !u.isFile then .error (.notAFile u.toString)
  else
    let path := unescape u.path.toList
    let netloc := unescape u.netloc.toList
    .ok <| .ofString <| String.ofList <|
      if netloc.isEmpty then lowerDrive path else '/' :: '/' :: netloc ++ path

end EditorBridge.Uri
