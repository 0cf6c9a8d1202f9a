/-
Integers that are too large for a floating point number.

An integer up to the largest floating point number is rounded to a finite one
(`Binary64.ofInt?_ne_none`).  So an integer that equals a floating point number is not too large,
and a given value that equals one that is too large is that integer itself
(`Value.Unread.huge_of_same`).
-/
import EditorBridge.Proofs.Value.Plain
import Mathlib

namespace EditorBridge

namespace Binary64

/-! ### The parts of a number -/

theorem hidden_eq : hidden = 2 ^ 52 := by decide

theorem field_ofParts {negative : Bool} {field fraction : Nat} (hfield : field < 2048)
    (hfraction : fraction < hidden) : (ofParts negative field fraction).field = field := by
  rw [hidden_eq] at hfraction
  unfold Binary64.field ofParts
  rw [UInt64.toNat_ofNat', hidden_eq, Nat.shiftRight_eq_div_pow]
  cases negative <;> simp <;> omega

theorem kind_ofParts {negative : Bool} {field fraction : Nat} (hfield : field < 2047)
    (hfraction : fraction < hidden) : (ofParts negative field fraction).kind = .finite := by
  unfold kind
  rw [field_ofParts (by omega) hfraction, if_neg (by omega)]

theorem significand_lt (x : Binary64) : x.significand < 2 ^ 53 := by
  have hfraction : x.fraction < hidden := Nat.mod_lt _ (by decide)
  rw [hidden_eq] at hfraction
  unfold significand
  rw [hidden_eq]
  split <;> omega

/-- The largest exponent of a finite number.  Powers with it are not to be evaluated. -/
@[irreducible]
def lastExponent : Nat := 971

theorem lastExponent_eq : lastExponent = 971 := by
  unfold lastExponent
  rfl

theorem exponent_le {x : Binary64} (h : x.kind = .finite) : x.exponent ≤ lastExponent := by
  have hfield : x.field < 2048 := Nat.mod_lt _ (by decide)
  have hne : x.field ≠ 2047 := by
    intro heq
    unfold kind at h
    rw [if_pos heq] at h
    split at h <;> cases h
  unfold exponent
  rw [lastExponent_eq]
  omega

/-- The largest finite number, which is an integer. -/
def largest : Nat := (2 ^ 53 - 1) * 2 ^ lastExponent

theorem magnitude_le {x : Binary64} (h : x.kind = .finite) : x.magnitude.1 ≤ largest := by
  have hsignificand : x.significand ≤ 2 ^ 53 - 1 := Nat.le_sub_one_of_lt x.significand_lt
  unfold magnitude largest
  split
  · have hexponent := exponent_le h
    rw [Nat.shiftLeft_eq]
    exact Nat.mul_le_mul hsignificand (Nat.pow_le_pow_right Nat.two_pos (by omega))
  · exact Nat.le_trans hsignificand (Nat.le_mul_of_pos_right _ (Nat.two_pow_pos _))

/-- **No floating point number equals an integer beyond the largest.** -/
theorem natAbs_le_of_sameInt {x : Binary64} {n : Int} (h : x.sameInt n = true) :
    n.natAbs ≤ largest := by
  unfold sameInt at h
  rw [Bool.and_eq_true, beq_iff_eq, beq_iff_eq] at h
  obtain ⟨hfinite, hratio⟩ := h
  have hden : 0 < x.ratio.2 := by
    unfold ratio magnitude
    dsimp only
    split
    · exact Nat.one_pos
    · rw [Nat.shiftLeft_eq, Nat.one_mul]
      exact Nat.two_pow_pos _
  have hnum : x.ratio.1.natAbs = x.magnitude.1 := by
    unfold ratio
    dsimp only
    split
    · rw [Int.natAbs_neg, Int.natAbs_natCast]
    · rw [Int.natAbs_natCast]
  calc n.natAbs ≤ n.natAbs * x.ratio.2 := Nat.le_mul_of_pos_right _ hden
    _ = (n * x.ratio.2).natAbs := by rw [Int.natAbs_mul, Int.natAbs_natCast]
    _ = x.magnitude.1 := by rw [← hratio, hnum]
    _ ≤ largest := magnitude_le hfinite

/-! ### Rounding an integer -/

theorem roundEven_le {num den bound : Nat} (hden : 0 < den) (h : num ≤ bound * den) :
    roundEven num den ≤ bound := by
  have hq : num / den ≤ bound := Nat.div_le_of_le_mul (by rwa [Nat.mul_comm])
  -- nothing is rounded up at the bound
  have hr : num / den = bound → num % den = 0 := by
    intro heq
    have hsplit := Nat.div_add_mod num den
    rw [heq, Nat.mul_comm] at hsplit
    omega
  unfold roundEven
  dsimp only
  split
  · exact hq
  · have hlt : num / den < bound := by
      refine Nat.lt_of_le_of_ne hq fun heq => ?_
      have := hr heq
      omega
    split
    · exact hlt
    · split <;> omega

/-- The last place of an integer is 52 binary places behind its first. -/
theorem lastPlace_one {k : Nat} (hk : k ≠ 0) : lastPlace k 1 = (k.log2 : Int) - 52 := by
  have hlog : Nat.log2 1 = 0 := by decide
  have hfirst : 2 ^ k.log2 ≤ k := Nat.log2_self_le hk
  have hhigh : (if 0 ≤ (k.log2 : Int) - 52 then k < 1 <<< (((k.log2 : Int) - 52).toNat + 52)
      else k <<< (-((k.log2 : Int) - 52)).toNat < 1 <<< 52) ↔ False := by
    rw [iff_false]
    split
    · rw [Nat.shiftLeft_eq, Nat.one_mul, show ((k.log2 : Int) - 52).toNat + 52 = k.log2 by omega]
      omega
    · have hpow : 2 ^ k.log2 * 2 ^ (-((k.log2 : Int) - 52)).toNat = 2 ^ 52 := by
        rw [← Nat.pow_add]
        congr 1
        omega
      rw [Nat.shiftLeft_eq, Nat.shiftLeft_eq, Nat.one_mul, ← hpow, Nat.not_lt]
      exact Nat.mul_le_mul_right _ hfirst
  unfold lastPlace
  simp only [hlog, Int.natCast_zero, Int.sub_zero, hhigh, if_false]
  omega

/-- An integer up to the largest number is rounded to a finite one. -/
theorem kind_ofRatio {negative : Bool} {k : Nat} (h : k ≤ largest) :
    (ofRatio negative k 1).kind = .finite := by
  unfold ofRatio
  split
  · exact kind_ofParts (by decide) (by decide)
  · rename_i hk
    have hfirst : 2 ^ k.log2 ≤ k := Nat.log2_self_le hk
    have hlast : k < 2 ^ (k.log2 + 1) := Nat.lt_log2_self
    have hlog : k.log2 < 53 + lastExponent := by
      have hlt : 2 ^ k.log2 < 2 ^ (53 + lastExponent) :=
        calc 2 ^ k.log2 ≤ largest := Nat.le_trans hfirst h
          _ < 2 ^ 53 * 2 ^ lastExponent := Nat.mul_lt_mul_of_pos_right (by decide) (Nat.two_pow_pos _)
          _ = 2 ^ (53 + lastExponent) := (Nat.pow_add 2 53 lastExponent).symm
      exact (Nat.pow_lt_pow_iff_right Nat.one_lt_two).1 hlt
    have hplace : lastPlace k 1 = (k.log2 : Int) - 52 := lastPlace_one hk
    generalize lastPlace k 1 = e at hplace
    dsimp only
    generalize hm : (if 0 ≤ e then roundEven k (1 <<< e.toNat)
      else roundEven (k <<< (-e).toNat) 1) = m
    have hmle : m ≤ 2 ^ 53 := by
      rw [← hm]
      split
      · rw [Nat.shiftLeft_eq, Nat.one_mul]
        refine roundEven_le (Nat.two_pow_pos _) ?_
        rw [← Nat.pow_add, show 53 + e.toNat = k.log2 + 1 by omega]
        exact Nat.le_of_lt hlast
      · refine roundEven_le Nat.one_pos ?_
        rw [Nat.mul_one, Nat.shiftLeft_eq,
          show 2 ^ 53 = 2 ^ (k.log2 + 1) * 2 ^ (-e).toNat by rw [← Nat.pow_add]; congr 1; omega]
        exact Nat.mul_le_mul_right _ (Nat.le_of_lt hlast)
    -- in the last binade an integer up to the largest is not rounded up to the next one
    have htop : e = lastExponent → m ≤ 2 ^ 53 - 1 := by
      intro heq
      rw [← hm, if_pos (by omega), show e.toNat = lastExponent by omega]
      rw [Nat.shiftLeft_eq, Nat.one_mul]
      exact roundEven_le (Nat.two_pow_pos _) h
    have hhidden := hidden_eq
    have hlast' := lastExponent_eq
    clear h hfirst hlast hm
    split
    · rw [if_neg (Nat.lt_irrefl _), if_neg (by omega)]
      exact kind_ofParts (by omega) (by omega)
    · split
      · exact kind_ofParts (by omega) ‹_›
      · rw [if_neg (by omega)]
        exact kind_ofParts (by omega) (by omega)

/-- **An integer up to the largest floating point number is not too large for one.** -/
theorem ofInt?_ne_none {n : Int} (h : n.natAbs ≤ largest) : ofInt? n ≠ none := by
  unfold ofInt?
  dsimp only
  rw [if_pos (kind_ofRatio h)]
  exact Option.some_ne_none _

theorem one_le_largest : 1 ≤ largest :=
  Nat.mul_pos (by decide) (Nat.two_pow_pos _)

end Binary64

namespace Value

/-- A value as it is given, before anything is read from it: it has no member of an enumeration
and no record in it. -/
inductive Unread : Value → Prop
  | null : Unread .null
  | bool (b : Bool) : Unread (.bool b)
  | int (n : Int) : Unread (.int n)
  | float (x : Binary64) : Unread (.float x)
  | str (s : String) : Unread (.str s)
  | bytes (bs : List UInt8) : Unread (.bytes bs)
  | moment (m : Moment) : Unread (.moment m)
  | thing (t s : String) : Unread (.thing t s)
  | list {items : List Value} (h : ∀ v ∈ items, Unread v) : Unread (.list items)
  | tuple {items : List Value} (h : ∀ v ∈ items, Unread v) : Unread (.tuple items)
  | set {items : List Value} (h : ∀ v ∈ items, Unread v) : Unread (.set items)
  | dict {entries : List (Value × Value)} (h : ∀ e ∈ entries, Unread e.2) : Unread (.dict entries)

mutual

/-- Whether an integer in a value is too large for a floating point number. -/
def huge : Value → Bool
  | .int n => (Binary64.ofInt? n).isNone
  | .list vs | .tuple vs | .set vs => hugeItem vs
  | .dict es => hugeEntry es
  | _ => false

def hugeItem : List Value → Bool
  | [] => false
  | v :: vs => v.huge || hugeItem vs

def hugeEntry : List (Value × Value) → Bool
  | [] => false
  | (_, v) :: es => v.huge || hugeEntry es

end

theorem hugeItem_eq (vs : List Value) : hugeItem vs = vs.any huge := by
  induction vs with
  | nil => rfl
  | cons v vs ih =>
    rw [List.any_cons, ← ih]
    rfl

theorem hugeEntry_eq (es : List (Value × Value)) : hugeEntry es = es.any fun e => e.2.huge := by
  induction es with
  | nil => rfl
  | cons e es ih =>
    rw [List.any_cons, ← ih]
    rfl

theorem huge_int (n : Int) : (int n).huge = (Binary64.ofInt? n).isNone := rfl

theorem huge_list (vs : List Value) : (list vs).huge = vs.any huge := hugeItem_eq vs

theorem huge_dict (es : List (Value × Value)) : (dict es).huge = es.any fun e => e.2.huge :=
  hugeEntry_eq es

theorem Plain.unread {v : Value} (h : v.Plain) : v.Unread := by
  induction h with
  | null => exact .null
  | bool b => exact .bool b
  | int n => exact .int n
  | float x => exact .float x
  | str s => exact .str s
  | moment m => exact .moment m
  | list _ ih => exact .list ih
  | dict _ _ ih => exact .dict ih

/-- **What equals an integer that is too large is one.** -/
theorem Unread.huge_of_same {n : Int} {v : Value} (hv : v.Unread)
    (hs : (Value.int n).same v = true) (h : (Value.int n).huge = true) : v.huge = true := by
  have hlarge : ¬n.natAbs ≤ Binary64.largest := fun hle =>
    Binary64.ofInt?_ne_none hle (by simpa [huge_int] using h)
  have hone := Binary64.one_le_largest
  cases hv with
  | int m =>
    obtain rfl : m = n := by simpa [same, asInt?] using hs
    exact h
  | bool b =>
    have hn : (if b then 1 else 0) = n := by simpa [same, asInt?] using hs
    refine absurd ?_ hlarge
    split at hn <;> omega
  | float x => exact absurd (Binary64.natAbs_le_of_sameInt (by simpa [same, asInt?] using hs)) hlarge
  | null | str | bytes | moment | thing | list | tuple | set | dict =>
    simp [same, asInt?] at hs

end Value

end EditorBridge
