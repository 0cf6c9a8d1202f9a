/-
Resource locators of documents.

A uri has six parts.  Reading a text splits it by the delimiters of the general
syntax; writing puts the parts together again and leaves out delimiters in front of
nothing, so two texts may stand for one uri.  A text without a scheme is a file.
Two uris are the same when all their parts are.

How a uri without a host is written has changed with the library that writes it.  The
rule is a parameter (`Slashes`), and the documents of the editor go by the oldest one.
-/
import EditorBridge.FilePath
import EditorBridge.Text.Quoted

namespace EditorBridge

/-- A resource locator by its parts. -/
structure Uri where
  scheme : String
  netloc : String := ""
  path : String := ""
  /-- What follows a semicolon in the last segment of the path. -/
  params : String := ""
  query : String := ""
  fragment : String := ""
  deriving DecidableEq, Repr, Inhabited

namespace Uri

/-- The scheme of files. -/
def fileScheme : String := "file"

/-- Why a text is no uri, or a uri no file. -/
inductive Error where
  /-- Brackets around a host that do not match. -/
  | brackets
  /-- A host in brackets that is no address. -/
  | notAnAddress (host : String)
  /-- A host in brackets of a future kind that is not well formed. -/
  | futureAddress
  /-- An address of the older kind in brackets. -/
  | oldAddress
  /-- A host with a character that stands for one of the delimiters. -/
  | lookalike (netloc : String)
  /-- A uri of another scheme where a file is needed. -/
  | notAFile (uri : String)
  deriving DecidableEq, Repr

def Error.message : Error → String
  | brackets => "Invalid IPv6 URL"
  | notAnAddress h => Text.quote h ++ " does not appear to be an IPv4 or IPv6 address"
  | futureAddress => "IPvFuture address is invalid"
  | oldAddress => "An IPv4 address cannot be in brackets"
  | lookalike n => "netloc '" ++ n ++ "' contains invalid characters under NFKC normalization"
  | notAFile u => "Not a file uri: " ++ u

/-! ### Addresses in brackets -/

/-- One of the four numbers of an older address. -/
def isOctet (cs : List Char) : Bool :=
  !cs.isEmpty && cs.length ≤ 3 && cs.all Char.isDigit && (cs == ['0'] || cs.head? != some '0') &&
    cs.foldl (fun n c => 10 * n + (c.toNat - 48)) 0 ≤ 255

/-- An address of the older kind: four numbers with points between them. -/
def isOldAddress (cs : List Char) : Bool :=
  let ps := cs.splitOn '.'
  ps.length == 4 && ps.all isOctet

def isHexDigit (c : Char) : Bool :=
  c.isDigit || ('a' ≤ c && c ≤ 'f') || ('A' ≤ c && c ≤ 'F')

/-- One of the eight groups of an address. -/
def isGroup (cs : List Char) : Bool := !cs.isEmpty && cs.length ≤ 4 && cs.all isHexDigit

/-- An address of eight groups with colons between them.  Two colons in a row stand for groups
of zeros, once; an older address may stand for the last two groups. -/
def isNewAddress (cs : List Char) : Bool :=
  let parts := cs.splitOn ':'
  let last := parts.getLastD []
  if parts.length < 3 then false
  else if last.contains '.' && !isOldAddress last then false
  else
    let parts := if last.contains '.' then parts.dropLast ++ [['0'], ['0']] else parts
    if 9 < parts.length then false
    else
      let inner := (parts.drop 1).dropLast
      match inner.findIdx? List.isEmpty with
      | none => parts.length == 8 && parts.all isGroup
      | some k =>
        let skip := k + 1
        let high := parts.take skip
        let low := parts.drop (skip + 1)
        let high' := if high.head? == some [] then high.drop 1 else high
        let low' := if low.getLast? == some [] then low.dropLast else low
        (inner.filter List.isEmpty).length == 1 &&
          (high.head? != some [] || high'.isEmpty) && (low.getLast? != some [] || low'.isEmpty) &&
          high'.length + low'.length < 8 && high'.all isGroup && low'.all isGroup

/-- Whether an address names a zone, and names it well. -/
def zoneFits (cs : List Char) : Bool :=
  match cs.splitOn '%' with
  | [_] => true
  | [_, zone] => !zone.isEmpty
  | _ => false

/-- Checks what stands between brackets. -/
def checkBracketed (host : List Char) : Except Error Unit :=
  match host with
  | 'v' :: r =>
    let (version, rest) := r.span isHexDigit
    match rest with
    | '.' :: _ :: _ => if version.isEmpty then .error .futureAddress else .ok ()
    | _ => .error .futureAddress
  | _ =>
    if isOldAddress host then .error .oldAddress
    else if !host.contains '/' && zoneFits host && isNewAddress (host.takeWhile (· != '%')) then
      .ok ()
    else .error (.notAnAddress (String.ofList host))

/-- The characters that are read as a delimiter once texts are brought to their plain form. -/
def lookalikes : List Nat :=
  [0x2047, 0x2048, 0x2049, 0x2100, 0x2101, 0x2105, 0x2106, 0x2a74, 0xfe13, 0xfe16, 0xfe55, 0xfe56,
    0xfe5f, 0xfe6b, 0xff03, 0xff0f, 0xff1a, 0xff1f, 0xff20]

/-- Checks the part between the two slashes and the path. -/
def checkNetloc (netloc : List Char) : Except Error Unit := do
  let opens := netloc.contains '['
  let closes := netloc.contains ']'
  if opens != closes then throw .brackets
  if opens && closes then
    checkBracketed (((netloc.dropWhile (· != '[')).drop 1).takeWhile (· != ']'))

/-- Refuses a host with a character that only looks harmless. -/
def checkLookalikes (netloc : List Char) : Except Error Unit :=
  if netloc.any fun c => lookalikes.contains c.toNat then
    .error (.lookalike (String.ofList netloc))
  else .ok ()

/-! ### Reading and writing -/

/-- The schemes whose uris have a host, be it an empty one. -/
def withHost : List String :=
  ["", "ftp", "http", "gopher", "nntp", "telnet", "imap", "wais", "file", "mms", "https", "shttp",
    "snews", "prospero", "rtsp", "rtsps", "rtspu", "rsync", "svn", "svn+ssh", "sftp", "nfs", "git",
    "git+ssh", "ws", "wss"]

/-- The schemes in whose paths a semicolon begins parameters. -/
def withParams : List String :=
  ["", "ftp", "hdl", "prospero", "http", "imap", "https", "shttp", "rtsp", "rtsps", "rtspu", "sip",
    "sips", "mms", "sftp", "tel"]

def isSchemeChar (c : Char) : Bool := c.isAlphanum || c == '+' || c == '-' || c == '.'

/-- Splits off the scheme: a letter and characters of schemes up to the first colon. -/
def splitScheme (cs : List Char) : List Char × List Char :=
  let (s, r) := cs.span (· != ':')
  match s, r with
  | c :: _, ':' :: r =>
    if c.isAlpha && s.all isSchemeChar then (s.map Char.toLower, r) else ([], cs)
  | _, _ => ([], cs)

/-- Splits off the host, which two slashes announce. -/
def splitHost : List Char → List Char × List Char
  | '/' :: '/' :: r => r.span fun c => c != '/' && c != '?' && c != '#'
  | r => ([], r)

/-- Cuts at the first delimiter, which belongs to neither part. -/
def cut (d : Char) (cs : List Char) : List Char × List Char :=
  let (a, b) := cs.span (· != d)
  (a, b.drop 1)

/-- Cuts the last segment of a path at its first semicolon. -/
def splitParams (path : List Char) : List Char × List Char :=
  let (last, front) := path.reverse.span (· != '/')
  let (a, b) := cut ';' last.reverse
  (front.reverse ++ a, b)

/-- Blanks and control characters, which do not count in front of a uri. -/
def isControlOrSpace (c : Char) : Bool := c.toNat ≤ 0x20

/-- Tabs and line ends, which do not count anywhere in a uri. -/
def isUnsafe (c : Char) : Bool := c == '\t' || c == '\r' || c == '\n'

/-- Splits a text into the parts of a uri.  The scheme may be missing. -/
def split (text : String) : Except Error Uri := do
  let cs := (text.toList.dropWhile isControlOrSpace).filter fun c => !isUnsafe c
  let (scheme, cs) := splitScheme cs
  let (netloc, cs) := splitHost cs
  checkNetloc netloc
  let (cs, fragment) := cut '#' cs
  let (path, query) := cut '?' cs
  checkLookalikes netloc
  let scheme := String.ofList scheme
  let (path, params) := if withParams.contains scheme then splitParams path else (path, [])
  return {
    scheme := scheme
    netloc := String.ofList netloc
    path := String.ofList path
    params := String.ofList params
    query := String.ofList query
    fragment := String.ofList fragment }

/-- Parts that are given one by one and replace those of a text. -/
structure Parts where
  scheme : Option String := none
  netloc : Option String := none
  path : Option String := none
  query : Option String := none
  fragment : Option String := none
  deriving Repr, Inhabited

/-- Replaces the parts that are given; a uri that is left without a scheme is a file. -/
def withParts (u : Uri) (p : Parts) : Uri :=
  let u := { u with
    scheme := p.scheme.getD u.scheme
    netloc := p.netloc.getD u.netloc
    path := p.path.getD u.path
    query := p.query.getD u.query
    fragment := p.fragment.getD u.fragment }
  if u.scheme == "" then { u with scheme := fileScheme } else u

/-- Reads a uri from a text, some of whose parts may be given apart. -/
def ofText (text : String) (parts : Parts := {}) : Except Error Uri :=
  return (← split text).withParts parts

/-- The path with its parameters. -/
def fullPath (u : Uri) : String := if u.params == "" then u.path else u.path ++ ";" ++ u.params

/-- When the two slashes that announce a host are written for a uri that has none. -/
inductive Slashes where
  /-- If the scheme may have a host, unless the path begins with two slashes itself. -/
  | unlessDoubled
  /-- If the scheme may have a host, or the path begins with two slashes itself. -/
  | always
  /-- If the scheme may have a host and the path is not relative, or the path begins with two
  slashes itself. -/
  | unlessRelative
  deriving DecidableEq, Repr

/-- Whether the two slashes are written for a scheme and a path. -/
def Slashes.announce (rule : Slashes) (scheme path : String) : Bool :=
  let known := scheme != "" && withHost.contains scheme
  let doubled := path.startsWith "//"
  match rule with
  | .unlessDoubled => known && !doubled
  | .always => known || doubled
  | .unlessRelative => known && (path == "" || path.startsWith "/") || doubled

/-- The text of a uri. -/
def toText (rule : Slashes) (u : Uri) : String :=
  let path := u.fullPath
  let rooted := if path == "" || path.startsWith "/" then path else "/" ++ path
  let hier :=
    if u.netloc != "" || rule.announce u.scheme path then "//" ++ u.netloc ++ rooted else path
  (if u.scheme == "" then hier else u.scheme ++ ":" ++ hier) ++
    (if u.query == "" then "" else "?" ++ u.query) ++
    (if u.fragment == "" then "" else "#" ++ u.fragment)

/-- The text of a uri, which is the identity of its document on the wire. -/
def toString (u : Uri) : String := u.toText .unlessDoubled

instance : ToString Uri := ⟨toString⟩

/-- How a uri is shown in messages. -/
def shown (u : Uri) : String := "Uri(" ++ Text.quote u.toString ++ ")"

/-- Whether a uri names a file. -/
def isFile (u : Uri) : Bool := u.scheme == fileScheme

end Uri

end EditorBridge
