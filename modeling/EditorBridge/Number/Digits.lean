/-
Integers written in digits.

An integer may be read from at most `limit` decimal digits, and only one that has no
more of them may be written; in the bases that are powers of two there is no limit.
-/
namespace EditorBridge.Digits

/-- What a digit counts; letters count from ten on, whatever their case. -/
def valueOf? (c : Char) : Option Nat :=
  if c.isDigit then some (c.toNat - 48)
  else if 'a' ≤ c ∧ c ≤ 'z' then some (c.toNat - 87)
  else if 'A' ≤ c ∧ c ≤ 'Z' then some (c.toNat - 55)
  else none

/-- Whether a character is a digit in a base. -/
def isDigitIn (base : Nat) (c : Char) : Bool := (valueOf? c).any (· < base)

/-- The value of a run of digits in a base. -/
def valueIn (base : Nat) (ds : List Char) : Nat :=
  ds.foldl (fun n c => base * n + (valueOf? c).getD 0) 0

/-- The value of a run of decimal digits. -/
def value (ds : List Char) : Nat := ds.foldl (fun n c => 10 * n + (c.toNat - 48)) 0

/-- The most decimal digits an integer may have. -/
def limit : Nat := 4300

/-- The message about a text with more digits than that. -/
def excess (count : Nat) : String :=
  s!"Exceeds the limit ({limit} digits) for integer string conversion: value has {count} digits; " ++
    "use sys.set_int_max_str_digits() to increase the limit"

/-- Whether an integer has no more digits than that, so that it can be written. -/
def fit (n : Int) : Bool := (Nat.toDigits 10 n.natAbs).length ≤ limit

/-- The message about an integer that cannot be written. -/
def unwritten : String :=
  s!"Exceeds the limit ({limit} digits) for integer string conversion; " ++
    "use sys.set_int_max_str_digits() to increase the limit"

end EditorBridge.Digits
