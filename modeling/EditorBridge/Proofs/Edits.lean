/-
Edits within the limits of the protocol.

A position whose line and column are not negative always means a place in the text, and a
position that comes later means a place that is not before it.  So an edit within the
limits can be made, its record can be sent, and whoever makes the recorded change on a
copy of the text has the text of the document afterwards.
-/
import EditorBridge.Proofs.Mirror

namespace EditorBridge

open Text (length16 splitLines)

/-- The largest number of the protocol. -/
def limit : Int := 2147483647

/-! ### Places in a text -/

namespace Lines

theorem charsWithin_le_length (units : Int) (cs : List Char) :
    charsWithin units cs ≤ cs.length := by
  induction cs generalizing units with
  | nil => exact Nat.le_refl 0
  | cons c cs ih =>
    unfold charsWithin
    dsimp only
    split
    · exact Nat.zero_le _
    · exact Nat.succ_le_succ (ih _)

theorem charsWithin_mono {a b : Int} (h : a ≤ b) (cs : List Char) :
    charsWithin a cs ≤ charsWithin b cs := by
  induction cs generalizing a b with
  | nil => exact Nat.le_refl 0
  | cons c cs ih =>
    unfold charsWithin
    dsimp only
    by_cases ha : a - Text.units16 c < 0
    · rw [if_pos ha]
      exact Nat.zero_le _
    · rw [if_neg ha, if_neg (by omega)]
      exact Nat.succ_le_succ (ih (by omega))

theorem content_length_le (line : List Char) : (content line).length ≤ line.length := by
  unfold content
  rw [List.length_reverse]
  exact Nat.le_trans (List.dropWhile_suffix _).length_le (by simp)

theorem indexInLine_le_length (line : List Char) (c : Int) : indexInLine line c ≤ line.length :=
  Nat.le_trans (charsWithin_le_length c _) (content_length_le line)

/-- How far the first lines go. -/
theorem flatten_take_length_mono (ls : Lines) {i j : Nat} (h : i ≤ j) :
    (ls.take i).flatten.length ≤ (ls.take j).flatten.length := by
  rw [← Nat.add_sub_cancel' h, List.take_add, List.flatten_append, List.length_append]
  exact Nat.le_add_right _ _

theorem flatten_take_succ_length {ls : Lines} {i : Nat} {l : List Char} (h : ls[i]? = some l) :
    (ls.take (i + 1)).flatten.length = (ls.take i).flatten.length + l.length := by
  rw [List.take_add_one, h]
  simp

end Lines

namespace Document

variable {d : Document} {p q : Position}

/-- A position that is not behind the text is in a line. -/
theorem indexAt?_of_lt {l : List Char} (h : 0 ≤ p.line) (hl : d.lines[p.line.toNat]? = some l) :
    d.indexAt? p = some ((d.lines.take p.line.toNat).flatten.length +
      Lines.indexInLine l p.character) := by
  have hlt : p.line.toNat < d.lines.length := (List.getElem?_eq_some_iff.1 hl).1
  simp only [indexAt?, Lines.line?, Lines.upTo, if_pos h, hl]
  rw [if_neg (by omega)]
  rfl

theorem indexAt?_of_ge (h : (d.lines.length : Int) ≤ p.line) :
    d.indexAt? p = some d.text.length := if_pos h

/-- What is in front of a line, and the line up to a column, is in the text. -/
theorem flatten_take_le {n : Nat} {l : List Char} (hl : d.lines[n]? = some l) (c : Int) :
    (d.lines.take n).flatten.length + Lines.indexInLine l c ≤
      (d.lines.take (n + 1)).flatten.length := by
  rw [Lines.flatten_take_succ_length hl]
  exact Nat.add_le_add_left (Lines.indexInLine_le_length l c) _

/-- **Every position that is not negative means a place**, and a later one no earlier place. -/
theorem exists_indexAt? (hp : 0 ≤ p.line) : ∃ i, d.indexAt? p = some i ∧ i ≤ d.text.length := by
  by_cases h : (d.lines.length : Int) ≤ p.line
  · exact ⟨_, indexAt?_of_ge h, Nat.le_refl _⟩
  · have hl := List.getElem?_eq_getElem (l := d.lines) (i := p.line.toNat) (by omega)
    refine ⟨_, indexAt?_of_lt hp hl, Nat.le_trans (flatten_take_le hl _) ?_⟩
    have hall := Lines.flatten_take_length_mono d.lines (i := p.line.toNat + 1)
      (j := d.lines.length) (by omega)
    rwa [List.take_length, lines, Text.flatten_splitLines] at hall

theorem indexAt?_mono {i j : Nat} (hp : 0 ≤ p.line) (h : p.notAfter q = true)
    (hi : d.indexAt? p = some i) (hj : d.indexAt? q = some j) : i ≤ j := by
  have hpq : p.line < q.line ∨ p.line = q.line ∧ p.character ≤ q.character := by
    simp [Position.notAfter, Position.before] at h
    omega
  by_cases hq : (d.lines.length : Int) ≤ q.line
  · obtain ⟨i', hi', hle⟩ := exists_indexAt? (d := d) hp
    rw [indexAt?_of_ge hq] at hj
    rw [hi'] at hi
    cases hi
    cases hj
    exact hle
  · have hl := List.getElem?_eq_getElem (l := d.lines) (i := p.line.toNat) (by omega)
    have hm := List.getElem?_eq_getElem (l := d.lines) (i := q.line.toNat) (by omega)
    rw [indexAt?_of_lt hp hl] at hi
    rw [indexAt?_of_lt (by omega) hm] at hj
    cases hi
    cases hj
    rcases hpq with hlt | ⟨heq, hle⟩
    · refine Nat.le_trans (flatten_take_le hl _) (Nat.le_trans ?_ (Nat.le_add_right _ _))
      exact Lines.flatten_take_length_mono _ (by omega)
    · simp only [heq]
      exact Nat.add_le_add_left (Lines.charsWithin_mono hle _) _

/-! ### One edit -/

/-- Only the text decides what a position means. -/
theorem indexAt?_congr {d' : Document} (h : d'.text = d.text) : d'.indexAt? p = d.indexAt? p := by
  unfold indexAt? lines
  rw [h]

/-- The lines of the end of a range come no earlier. -/
theorem stop_line (r : Range) (h : 0 ≤ r.start.line) : 0 ≤ r.stop.line := by
  have hle := r.start_notAfter_stop
  simp [Position.notAfter, Position.before] at hle
  omega

/-- An edit can be made, and changes nothing but the text; the same change of a copy gives the
same text. -/
theorem splice?_eq {r : Range} (h : 0 ≤ r.start.line) (text : List Char) :
    d.splice? r text = some { d with text := Delta.apply d.text (.part r text) } := by
  obtain ⟨i, hi, -⟩ := exists_indexAt? (d := d) h
  obtain ⟨j, hj, -⟩ := exists_indexAt? (d := d) (stop_line r h)
  have hcopy : (opened default d.text "" 0).text = d.text := rfl
  have happly : Delta.apply d.text (.part r text) =
      d.text.take i ++ text ++ d.text.drop (max i j) := by
    simp [Delta.apply, splice?, indexAt?_congr hcopy, hi, hj, replaceText, hcopy]
  rw [happly]
  simp [splice?, hi, hj, replaceText]

theorem length16_take_mono (cs : List Char) {i j : Nat} (h : i ≤ j) :
    length16 (cs.take i) ≤ length16 (cs.take j) := by
  rw [← Nat.add_sub_cancel' h, List.take_add, Text.length16_append]
  exact Nat.le_add_right _ _

theorem length16_take_le (cs : List Char) (i : Nat) : length16 (cs.take i) ≤ length16 cs := by
  conv => rhs; rw [← List.take_append_drop i cs, Text.length16_append]
  exact Nat.le_add_right _ _

/-- **The record of an edit within the limits is within the limits**, and tells of that edit. -/
theorem changeOf?_eq {r : Range} (hstart : r.start.InLimits) (hstop : r.stop.InLimits)
    (hlen : (length16 d.text : Int) ≤ limit) (text : List Char) :
    ∃ c, d.changeOf? r text = some c ∧ c.InLimits ∧ c.range = r ∧ c.text = text := by
  obtain ⟨i, hi, -⟩ := exists_indexAt? (d := d) hstart.1.1
  obtain ⟨j, hj, -⟩ := exists_indexAt? (d := d) hstop.1.1
  have hij := indexAt?_mono hstart.1.1 r.start_notAfter_stop hi hj
  have hmono := length16_take_mono d.text hij
  have hle := length16_take_le d.text j
  refine ⟨⟨r, length16 (d.text.take i), length16 (d.text.take j) - length16 (d.text.take i), text⟩,
    by simp [changeOf?, offsetAt?, hi, hj], ⟨hstart, hstop, ?_, ?_⟩, rfl, rfl⟩
  · show (0 : Int) ≤ length16 (d.text.take j) - length16 (d.text.take i)
    omega
  · show (length16 (d.text.take j) : Int) - length16 (d.text.take i) ≤ 2147483647
    unfold limit at hlen
    omega

/-! ### The whole text -/

theorem length_splitLines_le (cs : List Char) : (splitLines cs).length ≤ cs.length := by
  fun_induction splitLines cs with
  | case1 => exact Nat.le_refl 0
  | case2 r ih => simp; omega
  | case3 c r _ _ ih => simpa using ih
  | case4 c r _ _ h ih => simp
  | case5 c r _ _ l ls h ih =>
    rw [h] at ih
    simp at ih ⊢
    omega

theorem length_le_length16 (cs : List Char) : cs.length ≤ length16 cs := by
  induction cs with
  | nil => exact Nat.le_refl 0
  | cons c cs ih =>
    have hc : 1 ≤ Text.units16 c := by
      unfold Text.units16
      split <;> omega
    simp only [List.length_cons, Text.length16_cons]
    omega

theorem length16_getLast_le (ls : Lines) : length16 (ls.getLastD []) ≤ length16 ls.flatten := by
  rcases List.eq_nil_or_concat ls with rfl | ⟨ls, l, rfl⟩
  · exact Nat.le_refl 0
  · simp

/-- The range of the whole text is within the limits if the text is. -/
theorem fullRange_inLimits (h : (length16 d.text : Int) ≤ limit) :
    d.fullRange.start.InLimits ∧ d.fullRange.stop.InLimits := by
  have hlines := Nat.le_trans (length_splitLines_le d.text) (length_le_length16 d.text)
  have hlast := length16_getLast_le d.lines
  rw [lines, Text.flatten_splitLines] at hlast
  have hend : d.endPosition.InLimits := by
    unfold endPosition
    unfold limit at h
    split
    · exact ⟨⟨by simp, by simp [lines]; omega⟩, by simp, by simp⟩
    · rename_i hne
      have hpos : 0 < d.lines.length := by
        refine List.length_pos_iff.2 fun hnil => hne ?_
        have htext := Text.flatten_splitLines d.text
        rw [show splitLines d.text = [] from hnil] at htext
        simp [endsWithBreak, ← htext]
      refine ⟨⟨?_, ?_⟩, ?_, ?_⟩
      all_goals simp [lines] at *
      all_goals omega
  have hzero : (⟨0, 0⟩ : Position).InLimits := by simp [Position.InLimits]
  unfold fullRange Range.between
  split
  · exact ⟨hzero, hend⟩
  · exact ⟨hend, hzero⟩

end Document

/-! ### Several edits -/

/-- An edit as a change of a text. -/
def asDelta (e : Range × List Char) : Delta := .part e.1 e.2

/-- Edits are within the limits, and so are the texts that they are made on and the last one. -/
def EditsFit (text : List Char) : List (Range × List Char) → Prop
  | [] => (length16 text : Int) ≤ limit
  | e :: es => (length16 text : Int) ≤ limit ∧ (e.1.start.InLimits ∧ e.1.stop.InLimits) ∧
    EditsFit ((asDelta e).apply text) es

end EditorBridge
