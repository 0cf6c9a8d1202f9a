/-
Columns in characters and columns in code units.

The protocol counts the columns of a line in UTF-16 code units, a program in characters.  A
character has one unit or two, so a column in code units may lie within a character, and it may
lie in the break at the end of the line or behind it.  Each such column means the nearest place
in front of it that is between two characters of the content (`Row.boundaries`), and only such
places are told by a number of characters.

So the two translations are no inverses.  From characters to code units and back is the identity
on the content, and the other way round each column goes down to a boundary
(`Row.Translates`).  Everything else is read off these two: what stays where it is, and that a
second translation changes nothing.
-/
import EditorBridge.Proofs.Places
import Mathlib.Data.List.TakeWhile
import Mathlib.Order.Bounds.Basic
import Mathlib.Order.Monotone.Defs

namespace EditorBridge

open Text (length16)

namespace Row

/-- A row as it is read off a line: the break is all of its end, and the content has none of it. -/
structure Clean (r : Row) : Prop where
  ending : ∀ c ∈ r.ending, Lines.isBreakChar c = true
  content : ∀ c ∈ r.content.getLast?, Lines.isBreakChar c = false

/-- The columns in code units that are between two characters of the content, or at an end of it. -/
def boundaries (r : Row) : Set Nat := {b | ∃ n ≤ r.content.length, length16 (r.content.take n) = b}

/-- Two maps, from characters to code units and back, translate the columns of a row. -/
structure Translates (r : Row) (toUnits toChars : Nat → Nat) : Prop where
  /-- Places in the content are told by their number of characters. -/
  back : ∀ n ≤ r.content.length, toChars (toUnits n) = n
  /-- A column in code units goes down to a boundary. -/
  down : ∀ p, IsGreatest {b ∈ r.boundaries | b ≤ p} (toUnits (toChars p))
  fixed : ∀ b ∈ r.boundaries, toUnits (toChars b) = b
  again : ∀ p, toUnits (toChars (toUnits (toChars p))) = toUnits (toChars p)
  units_mono : Monotone toUnits
  chars_mono : Monotone toChars

variable {r : Row}

theorem index_le_length (r : Row) (p : Nat) : r.index p ≤ r.content.length := Nat.findGreatest_le _

theorem index_mono (r : Row) : Monotone r.index := fun p q h => by
  rw [← Lines.charsWithin_eq, ← Lines.charsWithin_eq]
  exact Lines.charsWithin_mono (Int.ofNat_le.2 h) r.content

/-- Every character has a code unit, so more characters have more of them. -/
theorem length16_take_lt {cs : List Char} {m n : Nat} (h : m < n) (hn : n ≤ cs.length) :
    length16 (cs.take m) < length16 (cs.take n) := by
  have htake : cs.take n = cs.take m ++ (cs.drop m).take (n - m) := by
    rw [← List.take_add, Nat.add_sub_cancel' (Nat.le_of_lt h)]
  have hmore := Document.length_le_length16 ((cs.drop m).take (n - m))
  rw [List.length_take, List.length_drop] at hmore
  rw [htake, Text.length16_append]
  omega

/-- **Characters to code units and back** is the identity on the content. -/
theorem index_length16_take {n : Nat} (h : n ≤ r.content.length) :
    r.index (length16 (r.content.take n)) = n := by
  refine Nat.findGreatest_eq_iff.2 ⟨h, fun _ => Nat.le_refl _, fun m hlt hm => ?_⟩
  exact Nat.not_le.2 (length16_take_lt hlt hm)

/-- **Code units to characters and back** goes down to a boundary. -/
theorem isGreatest_length16_take_index (r : Row) (p : Nat) :
    IsGreatest {b ∈ r.boundaries | b ≤ p} (length16 (r.content.take (r.index p))) := by
  refine ⟨⟨⟨_, r.index_le_length p, rfl⟩, ?_⟩, ?_⟩
  · have hle := Lines.length16_take_charsWithin (Int.natCast_nonneg p) r.content
    rw [Lines.charsWithin_eq] at hle
    exact Int.ofNat_le.1 hle
  · rintro b ⟨⟨n, hn, rfl⟩, hle⟩
    have hindex := r.index_mono hle
    rw [index_length16_take hn] at hindex
    exact Document.length16_take_mono r.content hindex

/-- Maps that undo each other so far translate columns. -/
theorem Translates.of_down {toUnits toChars : Nat → Nat}
    (hback : ∀ n ≤ r.content.length, toChars (toUnits n) = n)
    (hdown : ∀ p, IsGreatest {b ∈ r.boundaries | b ≤ p} (toUnits (toChars p)))
    (hunits : Monotone toUnits) (hchars : Monotone toChars) : r.Translates toUnits toChars := by
  have hfixed (b : Nat) (hb : b ∈ r.boundaries) : toUnits (toChars b) = b :=
    (hdown b).unique ⟨⟨hb, Nat.le_refl b⟩, fun _ h => h.2⟩
  exact ⟨hback, hdown, hfixed, fun p => hfixed _ (hdown p).1.1, hunits, hchars⟩

/-- The content of a row and the break behind it, for columns in characters. -/
theorem translates (r : Row) : r.Translates (fun n => length16 (r.whole.take n)) r.index := by
  have htake {n : Nat} (h : n ≤ r.content.length) : r.whole.take n = r.content.take n :=
    List.take_append_of_le_length h
  refine .of_down (fun n hn => ?_) (fun p => ?_)
    (fun m n h => Document.length16_take_mono r.whole h) r.index_mono
  · rw [htake hn, index_length16_take hn]
  · rw [htake (r.index_le_length p)]
    exact r.isGreatest_length16_take_index p

end Row

namespace Lines

variable {ls : Lines} {i : Int} {l : List Char}

/-- Every line is a clean row. -/
theorem toRow_clean (l : List Char) : (toRow l).Clean := by
  have hsplit : l.reverse = l.reverse.takeWhile isBreakChar ++ l.reverse.dropWhile isBreakChar :=
    List.takeWhile_append_dropWhile.symm
  refine ⟨fun c hc => ?_, fun c hc => ?_⟩
  · have hl : l = content l ++ (l.reverse.takeWhile isBreakChar).reverse := by
      rw [content, ← List.reverse_append, ← hsplit, List.reverse_reverse]
    have hending : l.drop (content l).length = (l.reverse.takeWhile isBreakChar).reverse := by
      conv => lhs; arg 2; rw [hl]
      exact List.drop_left
    change c ∈ l.drop (content l).length at hc
    rw [hending, List.mem_reverse] at hc
    exact List.mem_takeWhile_imp hc
  · change c ∈ (content l).getLast? at hc
    have hhead := List.head?_dropWhile_not isBreakChar l.reverse
    rw [content, List.getLast?_reverse] at hc
    rwa [Option.mem_def.1 hc] at hhead

/-- Only lines in front of the end are found. -/
theorem line?_lt (h : ls.line? i = some l) : ¬(ls.length : Int) ≤ i := by
  unfold line? at h
  split at h
  · have := (List.getElem?_eq_some_iff.1 h).1
    omega
  · omega

theorem toUtf16?_eq (h : ls.line? i = some l) (n : Nat) :
    ls.toUtf16? ⟨i, n⟩ = some ⟨i, length16 (l.take n)⟩ := by
  simp [toUtf16?, if_neg (line?_lt h), h, upTo]

theorem fromUtf16?_eq (h : ls.line? i = some l) (n : Nat) :
    ls.fromUtf16? ⟨i, n⟩ = some ⟨i, (toRow l).index n⟩ := by
  rw [← charsWithin_eq]
  simp [fromUtf16?, if_neg (line?_lt h), h, indexInLine, toRow]

/-- **Columns correspond**: the columns of every line are translated, and positions behind the last
line stay as they are. -/
theorem columns_correspond (ls : Lines) :
    (∀ i l, ls.line? i = some l → ∃ r : Row, r.whole = l ∧ r.Clean ∧
      ∃ toUnits toChars : Nat → Nat, r.Translates toUnits toChars ∧
        ∀ n : Nat, ls.toUtf16? ⟨i, n⟩ = some ⟨i, toUnits n⟩ ∧
          ls.fromUtf16? ⟨i, n⟩ = some ⟨i, toChars n⟩) ∧
    ∀ p : Position, ls.length ≤ p.line → ls.toUtf16? p = some p ∧ ls.fromUtf16? p = some p := by
  refine ⟨fun i l h => ?_, fun p h => ⟨if_pos h, if_pos h⟩⟩
  have htranslates := (toRow l).translates
  rw [whole_toRow] at htranslates
  exact ⟨toRow l, whole_toRow l, toRow_clean l, _, _, htranslates, fun n =>
    ⟨toUtf16?_eq h n, fromUtf16?_eq h n⟩⟩

/-- A character with two code units, between two others and in front of a break. -/
theorem columns_correspond_paired :
    line? [['a', '😀', 'b', '\r', '\n']] 0 = some ['a', '😀', 'b', '\r', '\n'] ∧
    ∃ r : Row, r.whole = ['a', '😀', 'b', '\r', '\n'] ∧ r.Clean ∧
      ∃ toUnits toChars : Nat → Nat, r.Translates toUnits toChars ∧
        toUnits 2 = 3 ∧ toChars 3 = 2 ∧ toChars 2 = 1 ∧ toUnits 5 = 6 ∧ toChars 6 = 3 := by
  obtain ⟨r, hr, hclean, toUnits, toChars, h, hmaps⟩ :=
    (columns_correspond [['a', '😀', 'b', '\r', '\n']]).1 0 _ rfl
  have hunits (n m : Nat) (hm : toUtf16? [['a', '😀', 'b', '\r', '\n']] ⟨0, n⟩ = some ⟨0, m⟩) :
      toUnits n = m := by
    rw [(hmaps n).1] at hm
    exact Int.ofNat_inj.1 (Position.mk.inj (Option.some.inj hm)).2
  have hchars (n m : Nat) (hm : fromUtf16? [['a', '😀', 'b', '\r', '\n']] ⟨0, n⟩ = some ⟨0, m⟩) :
      toChars n = m := by
    rw [(hmaps n).2] at hm
    exact Int.ofNat_inj.1 (Position.mk.inj (Option.some.inj hm)).2
  exact ⟨rfl, r, hr, hclean, toUnits, toChars, h, hunits 2 3 (by decide), hchars 3 2 (by decide),
    hchars 2 1 (by decide), hunits 5 6 (by decide), hchars 6 3 (by decide)⟩

end Lines

end EditorBridge
