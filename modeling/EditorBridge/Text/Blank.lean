/-
Blank characters and decimal digits of all scripts.

Numbers that arrive as text are read with the blanks around them removed and with
the digits of any script, so both classes are those of the Unicode character
database (version 14.0): the characters with bidirectional class or category of a
space, and category `Nd`.  Every script keeps its ten digits in one run, so the
digits are given by the code points of the zeros.
-/

namespace EditorBridge.Text

/-- Whether a character counts as white space. -/
def isBlank (c : Char) : Bool :=
  let n := c.toNat
  (0x9 ≤ n && n ≤ 0xd) || (0x1c ≤ n && n ≤ 0x20) || n == 0x85 || n == 0xa0 || n == 0x1680 ||
    (0x2000 ≤ n && n ≤ 0x200a) || n == 0x2028 || n == 0x2029 || n == 0x202f || n == 0x205f ||
    n == 0x3000

/-- The code points of the digit zero of every script that has decimal digits. -/
def zeros : List Nat :=
  [0x30, 0x660, 0x6f0, 0x7c0, 0x966, 0x9e6, 0xa66, 0xae6, 0xb66, 0xbe6, 0xc66, 0xce6, 0xd66, 0xde6,
  0xe50, 0xed0, 0xf20, 0x1040, 0x1090, 0x17e0, 0x1810, 0x1946, 0x19d0, 0x1a80, 0x1a90, 0x1b50,
  0x1bb0, 0x1c40, 0x1c50, 0xa620, 0xa8d0, 0xa900, 0xa9d0, 0xa9f0, 0xaa50, 0xabf0, 0xff10, 0x104a0,
  0x10d30, 0x11066, 0x110f0, 0x11136, 0x111d0, 0x112f0, 0x11450, 0x114d0, 0x11650, 0x116c0,
  0x11730, 0x118e0, 0x11950, 0x11c50, 0x11d50, 0x11da0, 0x16a60, 0x16ac0, 0x16b50, 0x1d7ce,
  0x1d7d8, 0x1d7e2, 0x1d7ec, 0x1d7f6, 0x1e140, 0x1e2f0, 0x1e950, 0x1fbf0]

/-- The value of a decimal digit of any script. -/
def digitValue? (c : Char) : Option Nat :=
  (zeros.find? fun z => z ≤ c.toNat && c.toNat < z + 10).map (c.toNat - ·)

/-- The text without the characters of a kind at its two ends. -/
def trimBoth (p : Char → Bool) (cs : List Char) : List Char :=
  ((cs.dropWhile p).reverse.dropWhile p).reverse

/-- The text without the blanks at its two ends. -/
def trim (cs : List Char) : List Char := trimBoth isBlank cs

/-- Whether a character may surround a number.  The four separators of ASCII are blanks, but
they may not. -/
def isPadding (c : Char) : Bool := isBlank c && !(0x1c ≤ c.toNat && c.toNat ≤ 0x1f)

/-- Reads an integer: blanks around it are dropped, a sign may come first, and single
underscores may stand between two digits. -/
def parseInt? (s : String) : Option Int :=
  match trimBoth isPadding s.toList with
  | '-' :: r => (digits r).map fun n => -(n : Int)
  | '+' :: r => (digits r).map fun n => (n : Int)
  | r => (digits r).map fun n => (n : Int)
where
  /-- The digits after a first one. -/
  more (acc : Nat) : List Char → Option Nat
    | [] => some acc
    | '_' :: c :: r => (digitValue? c).bind fun d => more (acc * 10 + d) r
    | c :: r => (digitValue? c).bind fun d => more (acc * 10 + d) r
  /-- A non-empty run of digits. -/
  digits : List Char → Option Nat
    | [] => none
    | c :: r => (digitValue? c).bind fun d => more d r

end EditorBridge.Text
