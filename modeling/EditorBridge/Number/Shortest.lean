/-
The shortest decimal that reads back as a given floating point number.

The reals that round to a finite number `m · 2 ^ e` form an interval around it,
whose ends belong to it when `m` is even.  For one digit, two digits and so on,
the two neighbours of the number on the grid of decimals with that many digits are
tried; the first grid on which one of them lies in the interval gives the answer,
the nearer one if both do.  Seventeen digits are always enough.
-/
import EditorBridge.Number.Binary64

namespace EditorBridge

namespace Binary64

/-- Four times the lower end, the number and the upper end of the interval of the reals that
round to `m · 2 ^ e`, in units of `2 ^ e`.  Below a power of two the numbers are closer. -/
def intervalUnits (x : Binary64) : Nat × Nat × Nat :=
  let m := x.significand
  let low := if x.fraction = 0 ∧ 1 < x.field then 4 * m - 1 else 4 * m - 2
  (low, 4 * m, 4 * m + 2)

/-- The number of decimal digits of `num / den` before the point; zero or less if there are
none, counting the zeros behind the point. -/
def decimalExponent (num den : Nat) : Int :=
  -- the first power of ten above the quotient, searched from a safe lower bound
  let start : Int := ((Nat.log2 num : Int) - (Nat.log2 den : Int) - 1) * 30103 / 100000 - 1
  search start 8
where
  /-- The least exponent from `k` on whose power of ten exceeds the quotient. -/
  search (k : Int) : Nat → Int
    | 0 => k
    | n + 1 =>
      let above := if 0 ≤ k then num < den * Nat.pow 10 k.toNat
        else num * Nat.pow 10 (-k).toNat < den
      if above then k else search (k + 1) n

/-- The shortest digits of a positive finite number, as an integer `d` and a scale `s` with
the value `d · 10 ^ s`. -/
def shortest (x : Binary64) : Nat × Int :=
  let (lo, mid, hi) := x.intervalUnits
  -- all three as quotients over one denominator
  let up := if 0 ≤ x.exponent then 1 <<< x.exponent.toNat else 1
  let den := 4 * (if 0 ≤ x.exponent then 1 else 1 <<< (-x.exponent).toNat)
  let (lo, mid, hi) := (lo * up, mid * up, hi * up)
  let closed := x.significand % 2 = 0
  let top := decimalExponent mid den
  search den lo mid hi closed top 1 17
where
  /-- Tries grids of `n`, `n + 1`, … digits. -/
  search (den lo mid hi : Nat) (closed : Bool) (top : Int) (n : Nat) : Nat → Nat × Int
    | 0 => (0, 0)
    | left + 1 =>
      let s := top - n
      -- in units of the grid: numerators over a common denominator `g`
      let (k, g) := if 0 ≤ s then (1, den * Nat.pow 10 s.toNat) else (Nat.pow 10 (-s).toNat, den)
      let below := mid * k / g
      let inside (d : Nat) : Bool :=
        if closed then lo * k ≤ d * g && d * g ≤ hi * k else lo * k < d * g && d * g < hi * k
      let nearBelow := mid * k - below * g
      let nearAbove := (below + 1) * g - mid * k
      match inside below, inside (below + 1) with
      | true, true =>
        if nearBelow < nearAbove then (below, s)
        else if nearAbove < nearBelow then (below + 1, s)
        else if below % 2 = 0 then (below, s) else (below + 1, s)
      | true, false => (below, s)
      | false, true => (below + 1, s)
      | false, false => search den lo mid hi closed top (n + 1) left

/-- The digits of an integer. -/
def digitsOf (n : Nat) : List Char := Nat.toDigits 10 n

/-- An exponent with its sign and at least two digits. -/
def exponentChars (k : Int) : List Char :=
  let ds := digitsOf k.natAbs
  (if k < 0 then '-' else '+') :: (if ds.length < 2 then '0' :: ds else ds)

/-- Digits with the point after the first `point` of them, zeros being added as needed, or
with an exponent if the point lies too far to either side. -/
def place (ds : List Char) (point : Int) : List Char :=
  if -4 < point ∧ point ≤ 16 then
    if point ≤ 0 then '0' :: '.' :: (List.replicate (-point).toNat '0' ++ ds)
    else if point < ds.length then ds.take point.toNat ++ '.' :: ds.drop point.toNat
    else ds ++ List.replicate (point.toNat - ds.length) '0' ++ ['.', '0']
  else
    match ds with
    | [d] => d :: 'e' :: exponentChars (point - 1)
    | d :: r => d :: '.' :: r ++ 'e' :: exponentChars (point - 1)
    | [] => []

/-- The digits without the zeros at their end. -/
def dropEndZeros (ds : List Char) : List Char :=
  (ds.reverse.dropWhile (· == '0')).reverse

/-- The shortest text of a finite number that reads back as it.  It always has a point or an
exponent, so it never reads as an integer. -/
def finiteText (x : Binary64) : String :=
  let body :=
    if x.significand = 0 then ['0', '.', '0']
    else
      let (d, s) := x.shortest
      let ds := digitsOf d
      place (dropEndZeros ds) (ds.length + s)
  String.ofList (if x.negative then '-' :: body else body)

/-- The text of a number as it is shown in messages. -/
def text (x : Binary64) : String :=
  match x.kind with
  | .nan => "nan"
  | .infinite => if x.negative then "-inf" else "inf"
  | .finite => x.finiteText

end Binary64

end EditorBridge
