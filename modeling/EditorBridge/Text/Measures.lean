/-
How an editor measures a text.

A line keeps the break that ends it, so the lines of a text put together are the
text again (`flatten_splitLines`).  A break is one of the ten characters that end
a line in Unicode text, or a carriage return and a line feed together.  Columns and
offsets are counted in UTF-16 code units: a character of the basic plane is one unit,
every other character is two.
-/

namespace EditorBridge.Text

/-- Whether a character ends a line. -/
def isLineBreak (c : Char) : Bool :=
  c == '\n' || c == '\r' || c == '\x0b' || c == '\x0c' || c == '\x1c' || c == '\x1d' ||
    c == '\x1e' || c == '\u0085' || c == '\u2028' || c == '\u2029'

/-- The lines of a text, each with its break; the last one may have none. -/
def splitLines : List Char → List (List Char)
  | [] => []
  | '\r' :: '\n' :: r => ['\r', '\n'] :: splitLines r
  | c :: r =>
    if isLineBreak c then [c] :: splitLines r
    else match splitLines r with
      | [] => [[c]]
      | l :: ls => (c :: l) :: ls

/-- Nothing is lost: the lines put together are the text. -/
@[simp] theorem flatten_splitLines (cs : List Char) : (splitLines cs).flatten = cs := by
  fun_induction splitLines cs <;> simp_all

/-! ### Lengths in UTF-16 code units -/

/-- The number of UTF-16 code units of a character. -/
def units16 (c : Char) : Nat := if c.toNat > 0xffff then 2 else 1

/-- The number of UTF-16 code units of a text. -/
def length16 : List Char → Nat
  | [] => 0
  | c :: cs => units16 c + length16 cs

@[simp] theorem length16_nil : length16 [] = 0 := rfl

@[simp] theorem length16_cons (c : Char) (cs : List Char) :
    length16 (c :: cs) = units16 c + length16 cs := rfl

@[simp] theorem length16_append (a b : List Char) :
    length16 (a ++ b) = length16 a + length16 b := by
  induction a with
  | nil => simp
  | cons c a ih => simp [ih, Nat.add_assoc]

end EditorBridge.Text
