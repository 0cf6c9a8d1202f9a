/-
Places in a text, as the protocol counts them.

The protocol knows three line breaks: a line feed, a carriage return, and both together.  A
text is read here as rows with their breaks, and what a position means is said by that
alone: a column is as many characters as have that many code units at most, and never more
than there are in front of the break.

An editor's document knows more line breaks than that.  Inside a row of the protocol each
of them begins a new line, so that all positions behind it mean something else.  Only at
the very end of a text does it make no difference, because nothing is behind it
(`indexAt?_eq_place_iff`).
-/
import EditorBridge.Proofs.Edits
import Mathlib.Data.Nat.Find

namespace EditorBridge

open Text (length16 splitLines isLineBreak units16)
open Lines (isBreakChar)

/-! ### Rows -/

/-- A line as the protocol has it: what it says, and the break that ends it, if one does. -/
structure Row where
  content : List Char := []
  ending : List Char := []
  deriving DecidableEq, Repr

namespace Row

/-- A line with its break. -/
def whole (r : Row) : List Char := r.content ++ r.ending

/-- The rows of a text.  Behind the last break there is one more. -/
def ofText : List Char → List Row
  | [] => [{}]
  | '\r' :: '\n' :: cs => { ending := ['\r', '\n'] } :: ofText cs
  | c :: cs =>
    if isBreakChar c then { ending := [c] } :: ofText cs
    else match ofText cs with
      | [] => [{ content := [c] }]
      | r :: rs => { r with content := c :: r.content } :: rs

/-- How many characters of a row are in front of a column. -/
def index (r : Row) (column : Nat) : Nat :=
  Nat.findGreatest (fun n => length16 (r.content.take n) ≤ column) r.content.length

end Row

namespace Position

/-- The place in a text that a position means. -/
def place (p : Position) (text : List Char) : Nat :=
  match (Row.ofText text)[p.line.toNat]? with
  | none => text.length
  | some r => (((Row.ofText text).take p.line.toNat).flatMap Row.whole).length +
      r.index p.character.toNat

end Position

/-! ### Columns -/

namespace Lines

theorem charsWithin_cons_of_lt {units : Int} {c : Char} {cs : List Char} (h : units < units16 c) :
    charsWithin units (c :: cs) = 0 := by
  unfold charsWithin
  exact if_pos (by omega)

theorem charsWithin_cons_of_le {units : Int} {c : Char} {cs : List Char} (h : units16 c ≤ units) :
    charsWithin units (c :: cs) = charsWithin (units - units16 c) cs + 1 := by
  conv => lhs; unfold charsWithin
  exact if_neg (by omega)

theorem length16_take_charsWithin {units : Int} (h : 0 ≤ units) (cs : List Char) :
    (length16 (cs.take (charsWithin units cs)) : Int) ≤ units := by
  induction cs generalizing units with
  | nil => simpa [charsWithin] using h
  | cons c cs ih =>
    by_cases hc : units < units16 c
    · rw [charsWithin_cons_of_lt hc]
      simpa using h
    · rw [charsWithin_cons_of_le (by omega), List.take_succ_cons, Text.length16_cons]
      have hrest : 0 ≤ units - units16 c := by omega
      have := ih hrest
      omega

theorem lt_length16_take {units : Int} {cs : List Char} {n : Nat} (h : charsWithin units cs < n)
    (hn : n ≤ cs.length) : units < length16 (cs.take n) := by
  induction cs generalizing units n with
  | nil =>
    simp only [List.length_nil, Nat.le_zero] at hn
    omega
  | cons c cs ih =>
    obtain ⟨n, rfl⟩ : ∃ m, n = m + 1 := ⟨n - 1, by omega⟩
    rw [List.take_succ_cons, Text.length16_cons]
    by_cases hc : units < units16 c
    · omega
    · rw [charsWithin_cons_of_le (by omega)] at h
      have hrest : charsWithin (units - units16 c) cs < n := by omega
      have := ih hrest (by simpa using hn)
      omega

/-- **A column means as many characters as fit in front of it.** -/
theorem charsWithin_eq (r : Row) (column : Nat) :
    charsWithin column r.content = r.index column := by
  refine (Nat.findGreatest_eq_iff.2 ⟨charsWithin_le_length _ _, fun _ => ?_, fun n hlt hle => ?_⟩).symm
  · have := length16_take_charsWithin (Int.natCast_nonneg column) r.content
    omega
  · have := lt_length16_take hlt hle
    omega

end Lines

namespace Row

variable {text : List Char} {r : Row} {c : Char}

theorem index_zero (r : Row) : r.index 0 = 0 := by
  rw [← Lines.charsWithin_eq]
  cases hr : r.content with
  | nil => rfl
  | cons c cs =>
    refine Lines.charsWithin_cons_of_lt ?_
    unfold units16
    split <;> decide

/-! ### Rows and the text -/

theorem ofText_ne_nil (text : List Char) : ofText text ≠ [] := by
  fun_cases ofText text <;> simp_all

/-- Nothing is lost. -/
theorem flatMap_whole_ofText (text : List Char) : (ofText text).flatMap whole = text := by
  fun_induction ofText text <;> simp_all [whole]

/-- Where a row begins; a row that is not there begins at the end of the text. -/
def start (text : List Char) (n : Nat) : Nat := (((ofText text).take n).flatMap whole).length

theorem start_of_ge {n : Nat} (h : (ofText text).length ≤ n) : start text n = text.length := by
  rw [start, List.take_of_length_le h, flatMap_whole_ofText]

theorem ofText_cons_of_not_break (hc : isBreakChar c = false) {rs : List Row}
    (h : ofText text = r :: rs) :
    ofText (c :: text) = { r with content := c :: r.content } :: rs := by
  have hne : ∀ cs, c = '\r' → text = '\n' :: cs → False := by
    rintro cs rfl -
    cases hc
  rw [ofText.eq_3 _ _ hne, if_neg (by simp [hc]), h]

theorem start_cons_of_not_break (hc : isBreakChar c = false) (n : Nat) :
    start (c :: text) (n + 1) = start text (n + 1) + 1 := by
  obtain ⟨r, rs, hr⟩ := List.exists_cons_of_ne_nil (ofText_ne_nil text)
  simp only [start, ofText_cons_of_not_break hc hr, hr, List.take_succ_cons, List.flatMap_cons,
    whole, List.length_append, List.length_cons]
  omega

theorem start_cons_of_break (hc : isBreakChar c = true)
    (hne : ∀ cs, c = '\r' → text = '\n' :: cs → False) (n : Nat) :
    start (c :: text) (n + 1) = start text n + 1 := by
  rw [start, ofText.eq_3 _ _ hne, if_pos hc]
  simp only [start, List.take_succ_cons, List.flatMap_cons, whole, List.length_append,
    List.length_cons, List.length_nil]
  omega

theorem start_cons_of_pair (n : Nat) :
    start ('\r' :: '\n' :: text) (n + 1) = start text n + 2 := by
  simp only [start, ofText, List.take_succ_cons, List.flatMap_cons, whole, List.length_append,
    List.length_cons, List.length_nil]
  omega

/-- Only the last row may have no break. -/
theorem ending_ne_nil {r' : Row} {rs : List Row} (h : ofText text = r :: r' :: rs) :
    r.ending ≠ [] := by
  fun_induction ofText text generalizing r r' rs with
  | case1 => cases h
  | case2 cs ih =>
    obtain ⟨rfl, -⟩ := List.cons.inj h
    exact List.cons_ne_nil _ _
  | case3 c cs _ hc ih =>
    obtain ⟨rfl, -⟩ := List.cons.inj h
    exact List.cons_ne_nil _ _
  | case4 c cs _ hc hnil => exact absurd hnil (ofText_ne_nil cs)
  | case5 c cs _ hc r₀ rs₀ hcs ih =>
    cases h
    have hr := ih hcs
    exact hr

end Row

/-- The first column of a line means the beginning of its row. -/
theorem Position.place_of_column_zero {p : Position} (h : p.character = 0) (text : List Char) :
    p.place text = Row.start text p.line.toNat := by
  unfold place
  split
  · rename_i hnone
    exact (Row.start_of_ge (List.getElem?_eq_none_iff.1 hnone)).symm
  · rw [h]
    show _ + Row.index _ 0 = _
    rw [Row.index_zero]
    rfl

/-! ### Lines and rows -/

namespace Lines

variable {text : List Char} {l : List Char} {c : Char}

/-- A line of a document as a row. -/
def toRow (l : List Char) : Row := ⟨content l, l.drop (content l).length⟩

theorem isPrefix_content (l : List Char) : content l <+: l := by
  have h := List.dropWhile_suffix isBreakChar (l := l.reverse)
  exact List.reverse_suffix.1 (by rwa [content, List.reverse_reverse])

theorem whole_toRow (l : List Char) : (toRow l).whole = l :=
  List.prefix_iff_eq_append.1 (isPrefix_content l)

theorem content_cons (hc : isBreakChar c = false) (l : List Char) :
    content (c :: l) = c :: content l := by
  simp only [content, List.reverse_cons, List.dropWhile_append, List.dropWhile_cons, hc,
    Bool.false_eq_true, if_false]
  split <;> simp_all

theorem toRow_cons (hc : isBreakChar c = false) (l : List Char) :
    toRow (c :: l) = { toRow l with content := c :: content l } := by
  simp [toRow, content_cons hc]

end Lines

/-- A text has no line break but those of the protocol, except for its last character. -/
def PlainBreaks (text : List Char) : Prop :=
  ∀ c ∈ text.dropLast, isLineBreak c = true → isBreakChar c = true

namespace PlainBreaks

variable {text : List Char} {c : Char}

theorem tail (h : PlainBreaks (c :: text)) : PlainBreaks text := by
  intro c' hc'
  refine h c' ?_
  cases text with
  | nil => cases hc'
  | cons => exact List.mem_cons_of_mem _ hc'

theorem head (h : PlainBreaks (c :: text)) (hc : isLineBreak c = true)
    (hb : isBreakChar c = false) : text = [] := by
  cases text with
  | nil => rfl
  | cons c' cs =>
    have hbreak := h c (by simp) hc
    rw [hb] at hbreak
    cases hbreak

theorem cons (h : PlainBreaks text) (hc : isLineBreak c = true → isBreakChar c = true) :
    PlainBreaks (c :: text) := by
  intro c' hc'
  cases text with
  | nil => cases hc'
  | cons =>
    rcases List.mem_cons.1 hc' with rfl | hc'
    · exact hc
    · exact h c' hc'

end PlainBreaks

theorem isBreakChar_of_not_lineBreak {c : Char} (h : ¬isLineBreak c = true) :
    isBreakChar c = false := by
  simp only [isLineBreak, Bool.or_eq_true, not_or] at h
  simp [isBreakChar, h]

theorem splitLines_eq_nil {text : List Char} (h : splitLines text = []) : text = [] := by
  rw [← Text.flatten_splitLines text, h]
  rfl

/-- The rows of a text are its lines, and behind the last break there may be one more. -/
theorem Row.ofText_of_plainBreaks {text : List Char} (h : PlainBreaks text) :
    ofText text = (splitLines text).map Lines.toRow ∨
      ofText text = (splitLines text).map Lines.toRow ++ [({} : Row)] := by
  have hlast {c : Char} (hc : isBreakChar c = false) : ofText [c] = [Lines.toRow [c]] := by
    rw [ofText_cons_of_not_break hc (r := {}) rfl, Lines.toRow_cons hc]
    rfl
  fun_induction splitLines text with
  | case1 => exact .inr rfl
  | case2 cs ih =>
    have hpair : Lines.toRow ['\r', '\n'] = { ending := ['\r', '\n'] } := by decide
    rw [ofText, List.map_cons, hpair]
    exact (ih h.tail.tail).imp (congrArg _) (congrArg _)
  | case3 c cs hne hc ih =>
    cases hb : isBreakChar c with
    | true =>
      have hrow : Lines.toRow [c] = { ending := [c] } := by simp [Lines.toRow, Lines.content, hb]
      rw [ofText.eq_3 _ _ hne, if_pos hb, List.map_cons, hrow]
      exact (ih h.tail).imp (congrArg _) (congrArg _)
    | false =>
      cases h.head hc hb
      exact .inl (hlast hb)
  | case4 c cs hne hc hnil ih =>
    cases splitLines_eq_nil hnil
    exact .inl (hlast (isBreakChar_of_not_lineBreak hc))
  | case5 c cs hne hc l ls hl ih =>
    have hb := isBreakChar_of_not_lineBreak hc
    rw [List.map_cons, Lines.toRow_cons hb]
    rw [hl] at ih
    exact (ih h.tail).imp (ofText_cons_of_not_break hb) (ofText_cons_of_not_break hb)

/-- The starts of lines and rows tell whether there are other line breaks. -/
theorem plainBreaks_of_starts {text : List Char}
    (h : ∀ n, ((splitLines text).take n).flatten.length = Row.start text n) : PlainBreaks text := by
  fun_induction splitLines text with
  | case1 => exact fun c hc => absurd hc List.not_mem_nil
  | case2 cs ih =>
    refine ((ih fun n => ?_).cons fun _ => rfl).cons fun _ => rfl
    have hn := h (n + 1)
    rw [Row.start_cons_of_pair] at hn
    simpa using hn
  | case3 c cs hne hc ih =>
    cases hb : isBreakChar c with
    | true =>
      refine (ih fun n => ?_).cons fun _ => hb
      have hn := h (n + 1)
      rw [Row.start_cons_of_break hb hne] at hn
      simpa [Nat.add_comm] using hn
    | false =>
      -- The line ends behind its first character.  No row does, unless nothing follows.
      have hstart := h 1
      rw [Row.start_cons_of_not_break hb] at hstart
      obtain ⟨r, rs, hr⟩ := List.exists_cons_of_ne_nil (Row.ofText_ne_nil cs)
      have hwhole : r.content = [] ∧ r.ending = [] := by
        simpa [Row.start, hr, Row.whole] using hstart
      have hcs := Row.flatMap_whole_ofText cs
      cases rs with
      | nil =>
        rw [hr] at hcs
        have hnil : cs = [] := by simpa [Row.whole, hwhole] using hcs.symm
        rw [hnil]
        exact fun c hc => absurd hc List.not_mem_nil
      | cons => exact absurd hwhole.2 (Row.ending_ne_nil hr)
  | case4 c cs hne hc hnil ih =>
    rw [splitLines_eq_nil hnil]
    exact fun c hc => absurd hc List.not_mem_nil
  | case5 c cs hne hc l ls hl ih =>
    have hb := isBreakChar_of_not_lineBreak hc
    rw [hl] at ih
    refine (ih fun n => ?_).cons fun hc' => absurd hc' hc
    cases n with
    | zero => rfl
    | succ n =>
      have hn := h (n + 1)
      rw [Row.start_cons_of_not_break hb] at hn
      simp only [List.take_succ_cons, List.flatten_cons, List.length_append, List.length_cons] at hn ⊢
      omega

/-! ### What positions mean -/

namespace Document

variable {d : Document} {p : Position}

/-- The first column of a line means the beginning of the line. -/
theorem indexAt?_of_column_zero (hl : 0 ≤ p.line) (hc : p.character = 0) :
    d.indexAt? p = some (d.lines.take p.line.toNat).flatten.length := by
  by_cases h : (d.lines.length : Int) ≤ p.line
  · rw [indexAt?_of_ge h, List.take_of_length_le (by omega), lines, Text.flatten_splitLines]
  · have hline := List.getElem?_eq_getElem (l := d.lines) (i := p.line.toNat) (by omega)
    rw [indexAt?_of_lt hl hline, hc]
    have hzero := (Lines.charsWithin_eq (Lines.toRow d.lines[p.line.toNat]) 0).trans (Row.index_zero _)
    exact congrArg some (congrArg _ hzero)

section Rows

variable {more : List Row} (h : Row.ofText d.text = d.lines.map Lines.toRow ++ more)
include h

theorem start_of_rows {n : Nat} (hn : n ≤ d.lines.length) :
    Row.start d.text n = (d.lines.take n).flatten.length := by
  have hwhole : Row.whole ∘ Lines.toRow = id := funext Lines.whole_toRow
  rw [Row.start, h, List.take_append_of_le_length (by simpa using hn), ← List.map_take,
    List.flatMap_map, show (fun l => (Lines.toRow l).whole) = id from hwhole, List.flatMap_id]

/-- Lines that are rows give positions the meaning that rows give them. -/
theorem indexAt?_of_rows (hmore : more = [] ∨ more = [({} : Row)]) (hl : 0 ≤ p.line)
    (hc : 0 ≤ p.character) : d.indexAt? p = some (p.place d.text) := by
  by_cases hlast : (d.lines.length : Int) ≤ p.line
  · rw [indexAt?_of_ge hlast, Position.place]
    split
    · rfl
    · rename_i r hr
      -- Only the row behind the last break is left, and it is at the end of the text.
      rw [h, List.getElem?_append_right (by simp; omega)] at hr
      rcases hmore with rfl | rfl
      · cases hr
      · have hline : p.line.toNat = d.lines.length := by
          have hlt := (List.getElem?_eq_some_iff.1 hr).1
          simp at hlt
          omega
        have hrow : r = {} := by simpa [hline] using hr.symm
        have hstart := start_of_rows h (Nat.le_refl _)
        rw [List.take_length, lines, Text.flatten_splitLines] at hstart
        rw [hrow, hline]
        exact congrArg some hstart.symm
  · have hlt : p.line.toNat < d.lines.length := by omega
    have hline := List.getElem?_eq_getElem hlt
    have hrow : (Row.ofText d.text)[p.line.toNat]? = some (Lines.toRow d.lines[p.line.toNat]) := by
      rw [h, List.getElem?_append_left (by simpa using hlt), List.getElem?_map, hline]
      rfl
    have hindex := Lines.charsWithin_eq (Lines.toRow d.lines[p.line.toNat]) p.character.toNat
    rw [Int.toNat_of_nonneg hc] at hindex
    rw [indexAt?_of_lt hl hline, Position.place, hrow, ← start_of_rows h (Nat.le_of_lt hlt)]
    exact congrArg some (congrArg _ hindex)

end Rows

/-- **Positions mean what the protocol says** exactly if a text has no line break but those of
the protocol, except for its last character. -/
theorem indexAt?_eq_place_iff : (∀ p : Position, 0 ≤ p.line → 0 ≤ p.character →
    d.indexAt? p = some (p.place d.text)) ↔ PlainBreaks d.text := by
  refine ⟨fun h => plainBreaks_of_starts fun n => ?_, fun h p hl hc => ?_⟩
  · have hp := h ⟨n, 0⟩ (Int.natCast_nonneg n) (Int.le_refl 0)
    rw [indexAt?_of_column_zero (Int.natCast_nonneg n) rfl, Position.place_of_column_zero rfl] at hp
    exact Option.some.inj hp
  · rcases Row.ofText_of_plainBreaks h with hrows | hrows
    · exact indexAt?_of_rows (hrows.trans (List.append_nil _).symm) (.inl rfl) hl hc
    · exact indexAt?_of_rows hrows (.inr rfl) hl hc

/-- A vertical tab is no line break of the protocol, so there is no second line behind it. -/
theorem indexAt?_ne_place_of_verticalTab :
    (opened default ['a', '\x0b', 'b'] "plaintext" 1).indexAt? ⟨1, 0⟩ = some 2 ∧
      Position.place ⟨1, 0⟩ ['a', '\x0b', 'b'] = 3 := by
  decide

end Document

end EditorBridge
