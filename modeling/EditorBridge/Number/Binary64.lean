/-
Binary floating point numbers of 64 bits, kept as their bits.

Every question about such a number is answered in exact arithmetic on its sign,
its significand and its exponent: how it compares with another number, which
integer is left when its fraction is cut off, and which number is nearest to a
given quotient.  A tie goes to the even significand, quotients beyond the largest
finite number become infinite, and those below half of the smallest one zero.
-/

namespace EditorBridge

/-- A binary floating point number, given by its 64 bits: one for the sign, eleven for the
biased exponent and 52 for the fraction. -/
structure Binary64 where
  bits : UInt64
  deriving DecidableEq, Repr, Inhabited

namespace Binary64

/-- The bit that a normal number has in front of its fraction. -/
def hidden : Nat := 1 <<< 52

/-- Whether the sign bit is set. -/
def negative (x : Binary64) : Bool := x.bits.toNat >>> 63 = 1

/-- The biased exponent. -/
def field (x : Binary64) : Nat := x.bits.toNat >>> 52 % 2048

/-- The fraction, without the hidden bit. -/
def fraction (x : Binary64) : Nat := x.bits.toNat % hidden

/-- Puts a number together from its three parts. -/
def ofParts (negative : Bool) (field fraction : Nat) : Binary64 :=
  ⟨UInt64.ofNat ((if negative then 1 <<< 63 else 0) + field * hidden + fraction)⟩

/-- What a number stands for. -/
inductive Class where
  | nan
  | infinite
  | finite
  deriving DecidableEq, Repr

/-- What a number stands for. -/
def kind (x : Binary64) : Class :=
  if x.field = 2047 then (if x.fraction = 0 then .infinite else .nan) else .finite

/-- The significand `m` of a finite number `± m · 2 ^ e`. -/
def significand (x : Binary64) : Nat :=
  if x.field = 0 then x.fraction else hidden + x.fraction

/-- The exponent `e` of a finite number `± m · 2 ^ e`. -/
def exponent (x : Binary64) : Int := (max x.field 1 : Int) - 1075

/-- The magnitude of a finite number as a quotient. -/
def magnitude (x : Binary64) : Nat × Nat :=
  if 0 ≤ x.exponent then (x.significand <<< x.exponent.toNat, 1)
  else (x.significand, 1 <<< (-x.exponent).toNat)

def nan : Binary64 := ofParts false 2047 (1 <<< 51)

def infinity (negative : Bool) : Binary64 := ofParts negative 2047 0

def zero (negative : Bool) : Binary64 := ofParts negative 0 0

/-- `num / den` rounded to an integer, a tie going to the even one. -/
def roundEven (num den : Nat) : Nat :=
  let q := num / den
  let r := num % den
  if 2 * r < den then q else if den < 2 * r then q + 1 else if q % 2 = 0 then q else q + 1

/-- The exponent of the last place of the number nearest to `num / den`: such that the
quotient has 53 bits before the point, but never below the smallest exponent. -/
def lastPlace (num den : Nat) : Int :=
  let guess : Int := (Nat.log2 num : Int) - (Nat.log2 den : Int) - 52
  -- the logarithms leave the quotient between 2 ^ 51 and 2 ^ 53
  let low := if 0 ≤ guess then num < den <<< (guess.toNat + 52)
    else num <<< (-guess).toNat < den <<< 52
  max (if low then guess - 1 else guess) (-1074)

/-- The number nearest to `± num / den`, where `den` is not zero. -/
def ofRatio (negative : Bool) (num den : Nat) : Binary64 :=
  if num = 0 then zero negative
  else
    let e := lastPlace num den
    let m := if 0 ≤ e then roundEven num (den <<< e.toNat)
      else roundEven (num <<< (-e).toNat) den
    -- rounding up may reach the next power of two
    let (m, e) := if m = 2 * hidden then (hidden, e + 1) else (m, e)
    if m < hidden then ofParts negative 0 m
    else if 971 < e then infinity negative
    else ofParts negative (e + 1075).toNat (m - hidden)

/-- The number nearest to `± digits · 10 ^ scale`. -/
def ofDecimal (negative : Bool) (digits : Nat) (scale : Int) : Binary64 :=
  let places : Int := (Nat.toDigits 10 digits).length + scale
  if digits = 0 ∨ places < -330 then zero negative
  else if 310 < places then infinity negative
  else if 0 ≤ scale then ofRatio negative (digits * Nat.pow 10 scale.toNat) 1
  else ofRatio negative digits (Nat.pow 10 (-scale).toNat)

/-- The number nearest to an integer; `none` if the integer is too large. -/
def ofInt? (n : Int) : Option Binary64 :=
  let x := ofRatio (n < 0) n.natAbs 1
  if x.kind = .finite then some x else none

/-- The integer that is left when the fraction of a finite number is cut off. -/
def truncate? (x : Binary64) : Option Int :=
  match x.kind with
  | .finite =>
    let (n, d) := x.magnitude
    let q : Int := (n / d : Nat)
    some (if x.negative then -q else q)
  | _ => none

/-- A finite number as a quotient of integers. -/
def ratio (x : Binary64) : Int × Nat :=
  let (n, d) := x.magnitude
  (if x.negative then -n else n, d)

/-- Whether two numbers are equal: no number equals a NaN, and the two zeros are equal. -/
def same (x y : Binary64) : Bool :=
  match x.kind, y.kind with
  | .finite, .finite => x.ratio.1 * y.ratio.2 == y.ratio.1 * x.ratio.2
  | .infinite, .infinite => x.negative == y.negative
  | _, _ => false

/-- Whether a number equals an integer. -/
def sameInt (x : Binary64) (n : Int) : Bool :=
  x.kind == .finite && x.ratio.1 == n * x.ratio.2

/-- Whether a number is zero, of either sign. -/
def isZero (x : Binary64) : Bool := x.kind == .finite && x.significand == 0

/-- The number with the other sign. -/
def negate (x : Binary64) : Binary64 := ofParts (!x.negative) x.field x.fraction

/-- The number nearest to the sum of two numbers; what is not finite prevails. -/
def plus (x y : Binary64) : Binary64 :=
  match x.kind, y.kind with
  | .finite, .finite =>
    let num := x.ratio.1 * y.ratio.2 + y.ratio.1 * x.ratio.2
    ofRatio (num < 0) num.natAbs (x.ratio.2 * y.ratio.2)
  | .finite, _ => y
  | _, _ => x

/-- The number nearest to a multiple of a number. -/
def timesNat (x : Binary64) (n : Nat) : Binary64 :=
  match x.kind with
  | .finite => ofRatio x.negative (x.magnitude.1 * n) x.magnitude.2
  | _ => x

end Binary64

end EditorBridge
