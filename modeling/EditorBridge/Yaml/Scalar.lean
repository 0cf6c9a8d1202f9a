/-
What scalars stand for.

`Tag.ofText` says what a plain scalar is by its looks, and `Tag.value` what a scalar
with a tag means.  Low lines between digits do not count.  Numbers may be written in
minutes and seconds: `1:30` is ninety.
-/
import EditorBridge.Text.Blank
import EditorBridge.Yaml.Tag

namespace EditorBridge.Yaml

/-- The words for true. -/
def yesWords : List String := ["yes", "true", "on"]

/-- The words for false. -/
def noWords : List String := ["no", "false", "off"]

/-- A word in small letters, with a capital at its front, and in capitals. -/
def spellings (w : String) : List String := [w, w.capitalize, w.toUpper]

/-- Drops a sign from the front of a text. -/
def dropSign : List Char → List Char
  | '-' :: r => r
  | '+' :: r => r
  | r => r

/-- A digit or a low line. -/
def isDigitOrLine (base : Nat) (c : Char) : Bool := Digits.isDigitIn base c || c == '_'

/-- The parts of a text between colons. -/
def atColons (s : List Char) : List (List Char) := s.splitOn ':'

/-- Whether digits are the minutes or the seconds of a number. -/
def isSixty : List Char → Bool
  | [a] => a.isDigit
  | [a, b] => a.isDigit && a.toNat < 54 && b.isDigit
  | _ => false

/-- Whether a text begins with a digit and has but digits and low lines. -/
def isNumeral : List Char → Bool
  | c :: r => c.isDigit && r.all (isDigitOrLine 10)
  | [] => false

/-- Whether a text looks like an integer. -/
def looksInteger (s : List Char) : Bool :=
  match dropSign s with
  | ['0'] => true
  | '0' :: 'b' :: r => !r.isEmpty && r.all (isDigitOrLine 2)
  | '0' :: 'x' :: r => !r.isEmpty && r.all (isDigitOrLine 16)
  | '0' :: r => r.all (isDigitOrLine 8)
  | r => match atColons r with
    | whole :: parts => isNumeral whole && parts.all isSixty
    | [] => false

/-- Whether a text is an exponent with a sign, or nothing. -/
def isExponent : List Char → Bool
  | [] => true
  | e :: sign :: r =>
    (e == 'e' || e == 'E') && (sign == '-' || sign == '+') && !r.isEmpty && r.all Char.isDigit
  | _ => false

/-- Whether digits, low lines and maybe an exponent follow. -/
def endsFraction (s : List Char) : Bool := isExponent (s.dropWhile (isDigitOrLine 10))

/-- Whether a text looks like a number with a point. -/
def looksFloat (s : List Char) : Bool :=
  let r := dropSign s
  let whole := r.takeWhile (· != '.')
  let behind := (r.drop whole.length).drop 1
  let word := String.ofList r
  if !r.contains '.' then false
  else if (spellings "inf").any fun w => word == "." ++ w then true
  else if [".nan", ".NaN", ".NAN"].contains (String.ofList s) then true
  else if whole.isEmpty then
    -- without digits in front of the point there is no sign, but a digit behind it
    begins '.' s && behind.head?.any Char.isDigit && endsFraction behind
  else match atColons whole with
    | [w] => isNumeral w && endsFraction behind
    | w :: parts => isNumeral w && parts.all isSixty && behind.all (isDigitOrLine 10)
    | [] => false

/-- One or two digits at the front of a text. -/
def oneOrTwo? (s : List Char) : Option (List Char × List Char) :=
  match s with
  | a :: b :: r =>
    if a.isDigit && b.isDigit then some ([a, b], r)
    else if a.isDigit then some ([a], b :: r)
    else none
  | [a] => if a.isDigit then some ([a], []) else none
  | [] => none

/-- Exactly that many digits at the front of a text. -/
def fixed? (n : Nat) (s : List Char) : Option (List Char × List Char) :=
  let ds := s.take n
  if ds.length = n ∧ ds.all Char.isDigit then some (ds, s.drop n) else none

/-- A character that has to be there. -/
def expect? (c : Char) : List Char → Option (List Char)
  | x :: r => if x = c then some r else none
  | [] => none

/-- The parts of a moment. -/
structure MomentParts where
  date : Date
  /-- Whether month and day have two digits each. -/
  wide : Bool
  /-- The time of day and the distance from universal time in seconds. -/
  time : Option (TimeOfDay × Option Int) := none

/-- A distance from universal time at the end of a text. -/
def zone? (s : List Char) : Option (Option Int) :=
  match s, s.dropWhile isBlank with
  | [], _ => some none
  | _, ['Z'] => some (some 0)
  | _, sign :: r =>
    if sign == '+' || sign == '-' then do
      let (hours, r) ← oneOrTwo? r
      let minutes ← match r with
        | [] => some []
        | ':' :: r => match fixed? 2 r with
          | some (m, []) => some m
          | _ => none
        | _ => none
      let n : Int := Digits.value hours * 3600 + Digits.value minutes * 60
      return some (if sign == '-' then -n else n)
    else none
  | _, [] => none

/-- A time of day with a distance from universal time, up to the end of a text. -/
def time? (s : List Char) : Option (TimeOfDay × Option Int) := do
  let (hour, r) ← oneOrTwo? s
  let (minute, r) ← fixed? 2 (← expect? ':' r)
  let (second, r) ← fixed? 2 (← expect? ':' r)
  let (fraction, r) := match r with
    | '.' :: r => (r.takeWhile Char.isDigit, r.dropWhile Char.isDigit)
    | r => ([], r)
  let t : TimeOfDay := {
    hour := Digits.value hour, minute := Digits.value minute, second := Digits.value second
    micro := Calendar.micros fraction }
  return (t, ← zone? r)

/-- The parts of a moment, which need not exist. -/
def momentParts? (s : List Char) : Option MomentParts := do
  let (year, r) ← fixed? 4 s
  let (month, r) ← oneOrTwo? (← expect? '-' r)
  let (day, r) ← oneOrTwo? (← expect? '-' r)
  let parts : MomentParts := {
    date := ⟨Digits.value year, Digits.value month, Digits.value day⟩
    wide := month.length == 2 && day.length == 2 }
  match r with
  | [] => return parts
  | c :: r' =>
    if c == 'T' || c == 't' then return { parts with time := some (← time? r') }
    else if isBlank c then return { parts with time := some (← time? (r.dropWhile isBlank)) }
    else none

/-- Whether a text looks like a moment. -/
def looksMoment (s : List Char) : Bool :=
  (momentParts? s).any fun p => p.wide || p.time.isSome

/-- What a plain scalar is by its looks. -/
def Tag.ofText (text : String) : Tag :=
  let s := text.toList
  if (yesWords ++ noWords).any fun w => (spellings w).contains text then .bool
  else if looksFloat s then .float
  else if looksInteger s then .int
  else if text == "<<" then .merge
  else if text == "" || text == "~" || (spellings "null").contains text then .null
  else if looksMoment s then .timestamp
  else if text == "=" then .value
  else if text == "!" || text == "&" || text == "*" then .unknown
  else .str

/-- An integer in a base. -/
def integerIn (base : Nat) (ds : List Char) : Except Error Int :=
  if ds.isEmpty || !ds.all (Digits.isDigitIn base) then .error (.noInteger base (String.ofList ds))
  else .ok (Digits.valueIn base ds)

/-- An integer in decimal digits. -/
def wholeNumber (ds : List Char) : Except Error Int :=
  let n := (ds.filter Char.isDigit).length
  match Text.parseInt? (String.ofList ds) with
  | some k => if Digits.limit < n then .error (.tooManyDigits n) else .ok k
  | none => .error (.noInteger 10 (String.ofList ds))

/-- The integer that a text is told to be. -/
def integer (text : String) : Except Error Int := do
  let s := text.toList.filter (· != '_')
  let r := dropSign s
  let n ← match r with
    | [] => .error .noNumber
    | ['0'] => pure 0
    | '0' :: 'b' :: r => integerIn 2 r
    | '0' :: 'x' :: r => integerIn 16 r
    | '0' :: r => match r with
      | 'o' :: r => integerIn 8 r
      | r => integerIn 8 ('0' :: r)
    | r => match atColons r with
      | [ds] => wholeNumber ds
      | parts => parts.foldlM (fun n part => do return 60 * n + (← wholeNumber part)) 0
  return if begins '-' s then -n else n

/-- The number that a text without sign tells in decimal digits, with a point and an exponent if
need be. -/
def decimal? (s : List Char) : Option Binary64 :=
  let whole := s.takeWhile Char.isDigit
  let r := s.drop whole.length
  let (fraction, r) := match r with
    | '.' :: r => (r.takeWhile Char.isDigit, r.dropWhile Char.isDigit)
    | r => ([], r)
  let exponent? : Option Int := match r with
    | [] => some 0
    | 'e' :: r =>
      let ds := dropSign r
      if ds.isEmpty || !ds.all Char.isDigit then none
      else
        let n : Int := Digits.value ds
        some (if begins '-' r then -n else n)
    | _ => none
  if whole.isEmpty && fraction.isEmpty then none
  else exponent?.map fun e =>
    Binary64.ofDecimal false (Digits.value (whole ++ fraction)) (e - fraction.length)

/-- The floating point number that a text without sign is told to be. -/
def unsignedFloat (s : List Char) : Except Error Binary64 :=
  let word := String.ofList s
  if word == "inf" || word == "infinity" then .ok (.infinity false)
  else if word == "nan" then .ok .nan
  else match decimal? s with
    | some x => .ok x
    | none => .error (.noFloat word)

/-- The floating point number that a text is told to be. -/
def floating (text : String) : Except Error Binary64 := do
  let s := (text.toList.filter (· != '_')).map Char.toLower
  let r := dropSign s
  let x ← match r with
    | [] => .error .noNumber
    | ['.', 'i', 'n', 'f'] => pure (.infinity false)
    | ['.', 'n', 'a', 'n'] => pure .nan
    | r => match atColons r with
      | [ds] => unsignedFloat ds
      | parts => do
        let digits ← parts.mapM unsignedFloat
        let scaled := digits.reverse.zipIdx.map fun (x, i) => x.timesNat (Nat.pow 60 i)
        pure (scaled.foldl Binary64.plus (.zero false))
  return if begins '-' s then x.negate else x

/-- The truth value that a text is told to be. -/
def boolean (text : String) : Except Error Bool :=
  let word := text.toLower
  if yesWords.contains word then .ok true
  else if noWords.contains word then .ok false
  else .error (.noBool word)

/-- The moment that a text is told to be. -/
def moment (text : String) : Except Error Moment :=
  match momentParts? text.toList with
  | none => .error .noMoment
  | some p =>
    let day := Calendar.dayProblem? p.date
    match p.time with
    | none => day.elim (.ok (.day p.date)) (.error ∘ .moment)
    | some (t, offset) =>
      let far := offset.filter fun n => 86400 ≤ n.natAbs
      match far, day <|> Calendar.timeProblem? t with
      | some n, _ => .error (.offset n)
      | none, some problem => .error (.moment problem)
      | none, none => .ok (.both p.date t offset)

/-- The digits of the encoding of bytes in 64 characters. -/
def sextet? (c : Char) : Option Nat :=
  if c.isUpper then some (c.toNat - 65)
  else if c.isLower then some (c.toNat - 71)
  else if c.isDigit then some (c.toNat + 4)
  else if c == '+' then some 62
  else if c == '/' then some 63
  else none

/-- Bytes from digits of six bits each, four at a time.  Signs at the end tell that there are
less of them; everything else does not count. -/
def bytesOf : (held : List Nat) → (signs : Nat) → List Char → Except Error (List UInt8)
  | held, _, [] => if held.isEmpty then .ok [] else .error .malformed
  | held, signs, c :: r =>
    match c == '=', sextet? c, held with
    | true, _, [a, b] =>
      if signs = 1 then .ok [UInt8.ofNat (4 * a + b / 16)] else bytesOf held (signs + 1) r
    | true, _, [a, b, d] =>
      .ok [UInt8.ofNat (4 * a + b / 16), UInt8.ofNat (b % 16 * 16 + d / 4)]
    | true, _, _ => bytesOf held signs r
    | false, none, _ => bytesOf held signs r
    | false, some x, [a, b, d] => do
      return UInt8.ofNat (4 * a + b / 16) :: UInt8.ofNat (b % 16 * 16 + d / 4) ::
        UInt8.ofNat (d % 4 * 64 + x) :: (← bytesOf [] 0 r)
    | false, some x, _ => bytesOf (held ++ [x]) 0 r

/-- The bytes that a text is told to be. -/
def binary (text : String) : Except Error (List UInt8) :=
  if text.toList.any fun c => 0x7f < c.toNat then .error .malformed else bytesOf [] 0 text.toList

/-- The value of a scalar with a tag. -/
def Tag.value? (text : String) : Tag → Except Error Value
  | null => .ok .null
  | bool => (boolean text).map .bool
  | int => (integer text).map .int
  | float => (floating text).map .float
  | str => .ok (.str text)
  | binary => (Yaml.binary text).map .bytes
  | timestamp => (moment text).map .moment
  | _ => .error .malformed

end EditorBridge.Yaml
