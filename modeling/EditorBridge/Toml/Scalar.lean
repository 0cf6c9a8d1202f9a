/-
The scalars of TOML: texts in quotes, numbers, days and times.

Every reader takes a text from its first character on and gives what it has read
together with the rest.
-/
import EditorBridge.Number.Digits
import EditorBridge.Value.Basic

namespace EditorBridge.Toml

/-- Why a text is no TOML. -/
inductive Error where
  | malformed
  /-- An integer of too many digits. -/
  | tooManyDigits (count : Nat)
  deriving DecidableEq, Repr

/-- Blanks within a line. -/
def isBlank (c : Char) : Bool := c == ' ' || c == '\t'

def skipBlanks (s : List Char) : List Char := s.dropWhile isBlank

/-- The control characters that cannot stand in a line. -/
def isControl (c : Char) : Bool := (c.toNat < 0x20 && c != '\t') || c.toNat == 0x7f

/-- Skips blanks, line ends and comments; `comment` says whether a comment has begun. -/
def skipGap (comment : Bool) : List Char → Except Error (List Char)
  | [] => .ok []
  | c :: r =>
    if c == '\n' then skipGap false r
    else if comment then if isControl c then .error .malformed else skipGap true r
    else if c == '#' then skipGap true r
    else if isBlank c then skipGap false r
    else .ok (c :: r)

/-- Skips a comment up to the end of its line. -/
def skipComment : List Char → Except Error (List Char)
  | '#' :: r =>
    let body := r.takeWhile (· != '\n')
    if body.any isControl then .error .malformed else .ok (r.drop body.length)
  | s => .ok s

/-- The character that a backslash and a letter stand for. -/
def letterEscape? : Char → Option Char
  | 'b' => some '\x08'
  | 't' => some '\t'
  | 'n' => some '\n'
  | 'f' => some '\x0c'
  | 'r' => some '\r'
  | '"' => some '"'
  | '\\' => some '\\'
  | _ => none

/-- The number of hexadecimal digits behind a backslash and a letter. -/
def hexEscape? : Char → Option Nat
  | 'u' => some 4
  | 'U' => some 8
  | _ => none

/-- The character with a code point in hexadecimal digits. -/
def charOfHex? (width : Nat) (s : List Char) : Option Char :=
  let ds := s.take width
  let n := Digits.valueIn 16 ds
  if ds.length = width ∧ ds.all (Digits.isDigitIn 16) ∧ n.isValidChar then some (Char.ofNat n)
  else none

/-- A backslash before the end of a line: both are dropped, and all blanks and line ends behind
them. -/
def joinLines? (s : List Char) : Option (List Char) :=
  match skipBlanks s with
  | [] => some []
  | '\n' :: r => some (r.dropWhile fun c => isBlank c || c == '\n')
  | _ => none

theorem length_skipBlanks_le (s : List Char) : (skipBlanks s).length ≤ s.length :=
  (List.dropWhile_suffix _).length_le

theorem length_joinLines?_le {s r : List Char} (h : joinLines? s = some r) :
    r.length ≤ s.length := by
  have hs := length_skipBlanks_le s
  unfold joinLines? at h
  split at h
  · simp_all
  · rename_i r' hr
    have := (List.dropWhile_suffix (l := r') fun c => isBlank c || c == '\n').length_le
    simp_all; omega
  · simp at h

/-- The characters up to the closing quote `q`.  A long text ends at three quotes and may have
line ends; backslashes count only in double quotes. -/
def readChars (q : Char) (long : Bool) (acc : List Char) (s : List Char) :
    Except Error (List Char × List Char) :=
  match s with
  | [] => .error .malformed
  | c :: r =>
    if c = q then
      if !long then .ok (acc.reverse, r)
      else match _hr : r with
        | c' :: c'' :: r' =>
          if c' = q ∧ c'' = q then .ok (acc.reverse, r') else readChars q long (c :: acc) r
        | _ => .error .malformed
    else if c = '\\' ∧ q = '"' then
      match _hr : r with
      | [] => .error .malformed
      | e :: r' =>
        if long && (isBlank e || e == '\n') then
          match h : joinLines? (e :: r') with
          | some rest =>
            have := length_joinLines?_le h
            readChars q long acc rest
          | none => .error .malformed
        else match hexEscape? e with
          | some width => match charOfHex? width r' with
            | some x => readChars q long (x :: acc) (r'.drop width)
            | none => .error .malformed
          | none => match letterEscape? e with
            | some x => readChars q long (x :: acc) r'
            | none => .error .malformed
    else if isControl c && !(long && c == '\n') then .error .malformed
    else readChars q long (c :: acc) r
termination_by s.length
decreasing_by
  all_goals simp_all only [List.length_cons, List.length_drop]
  all_goals omega

/-- At the end of a long text up to two more quotes belong to it. -/
def takeQuotes (q : Char) (cs s : List Char) : List Char × List Char :=
  let n := min 2 (s.takeWhile (· == q)).length
  (cs ++ List.replicate n q, s.drop n)

/-- A text on one line, from behind its opening quote on. -/
def readLine (q : Char) (s : List Char) : Except Error (String × List Char) := do
  let (cs, r) ← readChars q false [] s
  return (String.ofList cs, r)

/-- A text of several lines, from behind its opening quotes on.  A line end at the front does not
count. -/
def readLines (q : Char) (s : List Char) : Except Error (String × List Char) := do
  let (cs, r) ← readChars q true [] (match s with
    | '\n' :: r => r
    | r => r)
  let (cs, r) := takeQuotes q cs r
  return (String.ofList cs, r)

/-- More digits of a number; between two of them a low line may stand. -/
def moreDigits (isDigit : Char → Bool) : List Char → List Char × List Char
  | '_' :: c :: r =>
    if isDigit c then
      let (ds, rest) := moreDigits isDigit r
      (c :: ds, rest)
    else ([], '_' :: c :: r)
  | c :: r =>
    if isDigit c then
      let (ds, rest) := moreDigits isDigit r
      (c :: ds, rest)
    else ([], c :: r)
  | [] => ([], [])

/-- The digits at the front of a text, if there are any. -/
def digits? (isDigit : Char → Bool) : List Char → Option (List Char × List Char)
  | c :: r =>
    if isDigit c then
      let (ds, rest) := moreDigits isDigit r
      some (c :: ds, rest)
    else none
  | [] => none

/-- The base that the letter behind a leading zero tells. -/
def baseOf? : Char → Option Nat
  | 'x' => some 16
  | 'o' => some 8
  | 'b' => some 2
  | _ => none

/-- An integer in a base that is told. -/
def basedInteger? : List Char → Option (Value × List Char)
  | '0' :: b :: r => do
    let base ← baseOf? b
    let (ds, rest) ← digits? (Digits.isDigitIn base) r
    return (.int (Digits.valueIn base ds), rest)
  | _ => none

/-- A sign at the front of a text: whether it is a minus, and what follows. -/
def takeSign : List Char → Bool × List Char
  | '-' :: r => (true, r)
  | '+' :: r => (false, r)
  | r => (false, r)

/-- The digits in front of the point: a zero alone, or digits that begin with another one. -/
def wholePart? : List Char → Option (List Char × List Char)
  | '0' :: r => some (['0'], r)
  | r => digits? Char.isDigit r

/-- The digits behind the point, which is there only with them. -/
def fractionPart? : List Char → Option (List Char × List Char)
  | '.' :: r => digits? Char.isDigit r
  | _ => none

/-- The exponent, which is there only with digits. -/
def exponentPart? : List Char → Option (Int × List Char)
  | e :: r =>
    if e == 'e' || e == 'E' then do
      let (negative, r) := takeSign r
      let (ds, rest) ← digits? Char.isDigit r
      return (if negative then -(Digits.value ds : Int) else Digits.value ds, rest)
    else none
  | [] => none

/-- A decimal number: an integer, unless it has a fraction or an exponent. -/
def decimal? (s : List Char) : Option (Except Error (Value × List Char)) := do
  let (negative, r) := takeSign s
  let (whole, r) ← wholePart? r
  let (fraction, r) := (fractionPart? r).getD ([], r)
  let (exponent, r) := match exponentPart? r with
    | some (e, r) => (some e, r)
    | none => (none, r)
  if fraction.isEmpty && exponent.isNone then
    if Digits.limit < whole.length then return .error (.tooManyDigits whole.length)
    else
      let n : Int := Digits.value whole
      return .ok (.int (if negative then -n else n), r)
  else
    return .ok (.float (Binary64.ofDecimal negative (Digits.value (whole ++ fraction))
      (exponent.getD 0 - fraction.length)), r)

/-- The words that are numbers. -/
def numberWords : List (String × Binary64) := [
  ("inf", .infinity false), ("nan", .nan), ("+inf", .infinity false), ("-inf", .infinity true),
  ("+nan", .nan), ("-nan", .nan)]

/-- Drops a word from the front of a text. -/
def dropWord? (word : String) (s : List Char) : Option (List Char) :=
  if word.toList.isPrefixOf s then some (s.drop word.length) else none

/-- A number that is written as a word. -/
def numberWord? (s : List Char) : Option (Value × List Char) :=
  numberWords.findSome? fun (w, x) => (dropWord? w s).map fun r => (.float x, r)

/-- A number of exactly that many digits. -/
def fixed? (width : Nat) (s : List Char) : Option (Nat × List Char) :=
  let ds := s.take width
  if ds.length = width ∧ ds.all Char.isDigit then some (Digits.value ds, s.drop width) else none

/-- A character that has to be there. -/
def expect? (c : Char) : List Char → Option (List Char)
  | x :: r => if x = c then some r else none
  | [] => none

/-- The digits behind a point after the seconds; more than six of them are dropped. -/
def takeMicros (s : List Char) : Nat × List Char :=
  match s with
  | '.' :: r => match r.takeWhile Char.isDigit with
    | [] => (0, s)
    | ds => (Calendar.micros ds, r.drop ds.length)
  | s => (0, s)

/-- A time of day. -/
def timeOfDay? (s : List Char) : Option (TimeOfDay × List Char) := do
  let (hour, r) ← fixed? 2 s
  let (minute, r) ← fixed? 2 (← expect? ':' r)
  let (second, r) ← fixed? 2 (← expect? ':' r)
  let (micro, r) := takeMicros r
  let t : TimeOfDay := { hour, minute, second, micro }
  if (Calendar.timeProblem? t).isNone then some (t, r) else none

/-- A distance from universal time in seconds. -/
def offset? : List Char → Option (Int × List Char)
  | [] => none
  | c :: r =>
    if c == 'Z' || c == 'z' then some (0, r)
    else if c == '+' || c == '-' then do
      let (hour, r) ← fixed? 2 r
      let (minute, r) ← fixed? 2 (← expect? ':' r)
      if hour ≤ 23 ∧ minute ≤ 59 then
        let n : Int := hour * 3600 + minute * 60
        return (if c == '-' then -n else n, r)
      else none
    else none

/-- The three numbers of a day, which need not be one. -/
def dayNumbers? (s : List Char) : Option (Date × List Char) := do
  let (year, r) ← fixed? 4 s
  let (month, r) ← fixed? 2 (← expect? '-' r)
  let (day, r) ← fixed? 2 (← expect? '-' r)
  if 1 ≤ month ∧ month ≤ 12 ∧ 1 ≤ day ∧ day ≤ 31 then some (⟨year, month, day⟩, r) else none

/-- A time of day behind a day. -/
def timeBehind? : List Char → Option (TimeOfDay × List Char)
  | c :: r => if c == 'T' || c == 't' || c == ' ' then timeOfDay? r else none
  | [] => none

/-- A day, a time of day or both.  Numbers that look like a day have to be one. -/
def moment? (s : List Char) : Option (Except Error (Value × List Char)) :=
  match dayNumbers? s with
  | some (d, r) =>
    if (Calendar.dayProblem? d).isSome then some (.error .malformed)
    else match timeBehind? r with
      | none => some (.ok (.moment (.day d), r))
      | some (t, r) => match offset? r with
        | some (o, r) => some (.ok (.moment (.both d t (some o)), r))
        | none => some (.ok (.moment (.both d t none), r))
  | none => (timeOfDay? s).map fun (t, r) => .ok (.moment (.time t), r)

/-- A truth value, a moment or a number. -/
def readPlain (s : List Char) : Except Error (Value × List Char) :=
  match dropWord? "true" s, dropWord? "false" s with
  | some r, _ => .ok (.bool true, r)
  | _, some r => .ok (.bool false, r)
  | none, none =>
    match moment? s with
    | some r => r
    | none => match basedInteger? s with
      | some r => .ok r
      | none => match decimal? s with
        | some r => r
        | none => match numberWord? s with
          | some r => .ok r
          | none => .error .malformed

end EditorBridge.Toml
