/-
Replacing the whole text of a document.

The range of the whole document ends at a position that is put together from the lines: behind
the last line if the text ends with a carriage return or a line feed, and otherwise behind as
many code units as the last line has.  Lines end at more characters than those two, so in the
second case the last line may well end with a break, but then the break is counted as content
everywhere.  That is why the end of the range is always the end of the text
(`indexAt?_endPosition`), whatever the text ends with.

So replacing that range takes away all of the text, and the one record of it says so.
-/
import EditorBridge.Proofs.Columns
import EditorBridge.Proofs.Editor.Halfway

namespace EditorBridge

open Act (Ends)
open Text (length16)

/-! ### Lines and columns at the end -/

namespace Lines

variable {l : List Char}

/-- A line that does not end with a carriage return or a line feed is all content. -/
theorem content_eq_self (h : ∀ c ∈ l.getLast?, isBreakChar c = false) : content l = l := by
  rw [← List.head?_reverse] at h
  cases hl : l.reverse with
  | nil => rw [List.reverse_eq_nil_iff.1 hl]; rfl
  | cons c cs =>
    have hc := h c (by rw [hl]; rfl)
    rw [content, hl, List.dropWhile_cons_of_neg (by simp [hc]), ← hl, List.reverse_reverse]

/-- As many code units as a line has lead behind its last character. -/
theorem indexInLine_length16 (h : content l = l) : indexInLine l (length16 l) = l.length := by
  have hindex := Row.index_length16_take (r := { content := l }) (n := l.length) (Nat.le_refl _)
  rw [List.take_length, ← charsWithin_eq] at hindex
  rw [indexInLine, h, hindex]

end Lines

namespace Document

variable {x : Document}

/-- A text that does not end with a break has a last line, and that is all content. -/
theorem exists_last_line (h : x.endsWithBreak = false) :
    ∃ front l, x.lines = front ++ [l] ∧ Lines.content l = l := by
  have htext : x.lines.flatten = x.text := Text.flatten_splitLines x.text
  unfold endsWithBreak at h
  rcases List.eq_nil_or_concat x.lines with hnil | ⟨front, l, hl⟩
  · rw [hnil] at htext
    simp [← htext] at h
  · rw [List.concat_eq_append] at hl
    refine ⟨front, l, hl, Lines.content_eq_self fun c hc => ?_⟩
    rw [hl, List.flatten_concat] at htext
    rw [← htext, List.getLast?_append, Option.mem_def.1 hc] at h
    exact h

/-- **The whole document ends where the text ends.** -/
theorem indexAt?_endPosition (x : Document) : x.indexAt? x.endPosition = some x.text.length := by
  unfold endPosition
  cases h : x.endsWithBreak with
  | true => exact indexAt?_of_ge (Int.le_refl _)
  | false =>
    obtain ⟨front, l, hl, hcontent⟩ := exists_last_line h
    have hline : ((x.lines.length : Int) - 1).toNat = front.length := by simp [hl]
    have hlast : x.lines[((x.lines.length : Int) - 1).toNat]? = some l := by simp [hl]
    have htext : front.flatten ++ l = x.text := by
      rw [← List.flatten_concat, ← hl, lines, Text.flatten_splitLines]
    rw [if_neg Bool.false_ne_true, indexAt?_of_lt (by simp [hl]) hlast, hline]
    simp [hl, Lines.indexInLine_length16 hcontent, ← htext]

/-- The range of a whole document goes from the first position to the last. -/
theorem fullRange_eq (x : Document) :
    x.fullRange.start = ⟨0, 0⟩ ∧ x.fullRange.stop = x.endPosition := by
  have horder : Position.notAfter ⟨0, 0⟩ x.endPosition = true := by
    have hend : 0 ≤ x.endPosition.line ∧ 0 ≤ x.endPosition.character := by
      unfold endPosition
      cases h : x.endsWithBreak with
      | true => simp
      | false =>
        obtain ⟨front, l, hl, -⟩ := exists_last_line h
        simp [hl]
    simp [Position.notAfter, Position.before]
    omega
  rw [fullRange, Range.between, dif_pos horder]
  exact ⟨rfl, rfl⟩

/-! ### The edit of the whole text -/

/-- The record of an edit of the whole text. -/
def wholeChange (x : Document) (text : List Char) : ContentChange :=
  ⟨x.fullRange, 0, length16 x.text, text⟩

/-- An edit of the whole text takes everything away, and is recorded so. -/
theorem edits?_fullRange (x : Document) (text : List Char) :
    x.edits? [(x.fullRange, text)] = some ([x.wholeChange text], { x with text := text }) := by
  obtain ⟨hstart, hstop⟩ := x.fullRange_eq
  have hfirst : x.indexAt? x.fullRange.start = some 0 := by
    rw [hstart, indexAt?_of_column_zero (Int.le_refl 0) rfl]
    rfl
  have hlast : x.indexAt? x.fullRange.stop = some x.text.length := by
    rw [hstop, indexAt?_endPosition]
  simp [edits?, changeOf?, offsetAt?, splice?, hfirst, hlast, replaceText, wholeChange]

end Document

namespace Workbench

variable {w : Workbench} {n : Name} {d : DocumentId}

/-- **Replacing everything** leaves exactly the new text, and its one record covers all of the old
one; and the range of every document ends where its text ends. -/
theorem replaceAll_replaces (text : List Char) (hn : w.Names d n) (hd : d < w.documents.size) :
    Ends (replaceAll n text) w (fun r w' => (w'.doc d).text = text ∧
      ∃ c x, Announced w d x [c] r w' ∧ c.range = (w.doc d).fullRange ∧ c.text = text ∧
        c.offset = 0 ∧ c.length = length16 (w.doc d).text) ∧
    ∀ x : Document, x.fullRange.start = ⟨0, 0⟩ ∧
      x.indexAt? x.fullRange.stop = some x.text.length := by
  refine ⟨.bind ((resolve_names hn).mono fun r w' h => ?_), fun x => ⟨x.fullRange_eq.1, ?_⟩⟩
  · obtain ⟨rfl, rfl⟩ := h
    have hself : w'.Names d (.document d) := rfl
    have hedit := edit_announces hself hd ((w'.doc d).edits?_fullRange text)
    refine .read ?_
    show Ends (edit (.document d) [((w'.doc d).fullRange, text)]) w' _
    refine hedit.mono fun r w'' h => ?_
    have htext : (w''.doc d).text = text := by rw [h.1]
    exact ⟨htext, _, _, h, rfl, rfl, rfl, rfl⟩
  · rw [x.fullRange_eq.2, x.indexAt?_endPosition]

/-- A workbench with one document, whose last line ends with a vertical tab. -/
private def tabbed : Workbench :=
  { documents := #[.opened default ['a', '\n', '😀', '\x0b'] "plaintext" 1] }

/-- A text with a break that is no end of a line of the protocol is replaced, four code units and
the tab's one. -/
theorem replaceAll_replaces_tabbed : tabbed.Names 0 (.document 0) ∧ 0 < tabbed.documents.size ∧
    Ends (replaceAll (.document 0) ['b']) tabbed fun r w' => (w'.doc 0).text = ['b'] ∧
      ∃ c x, Announced tabbed 0 x [c] r w' ∧ c.offset = 0 ∧ c.length = 5 := by
  have hname : tabbed.Names 0 (.document 0) := rfl
  refine ⟨hname, by decide, (replaceAll_replaces ['b'] hname (by decide)).1.mono fun r w' h => ?_⟩
  obtain ⟨htext, c, x, ha, -, -, hoffset, hlength⟩ := h
  exact ⟨htext, c, x, ha, hoffset, hlength.trans (by decide)⟩

end Workbench

end EditorBridge
