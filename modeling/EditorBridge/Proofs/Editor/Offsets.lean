/-
Edits by places and edits by offsets.

An edit is recorded twice over: as a range of lines and columns, and as an offset with a length
in UTF-16 code units.  The editor makes it by the first, and whoever keeps the code units of the
text may make it by the second (`ContentChange.onUnits`).

Both are the same edit because a later position never means an earlier place: so the text is
what is in front of the start, what is taken away, and what is behind the end, and the record
measures the first two (`describes_changeOf?`).  A run of edits is such a step for each of them,
on the text that the ones before it left, and the code units follow the text step by step.
-/
import EditorBridge.Proofs.Editor.Halfway

namespace EditorBridge

open Act (Ends)

/-! ### Code units -/

namespace Text

/-- The UTF-16 code units of a character: itself, or two that share its bits. -/
def codeUnits (c : Char) : List UInt16 :=
  if c.toNat > 0xffff then
    [.ofNat (0xd800 + (c.toNat - 0x10000) / 0x400), .ofNat (0xdc00 + (c.toNat - 0x10000) % 0x400)]
  else [.ofNat c.toNat]

/-- The UTF-16 code units of a text. -/
def encode16 (cs : List Char) : List UInt16 := cs.flatMap codeUnits

example : encode16 ['a', '😀'] = [0x61, 0xd83d, 0xde00] := by decide

@[simp] theorem encode16_append (a b : List Char) :
    encode16 (a ++ b) = encode16 a ++ encode16 b := List.flatMap_append

/-- The length of a text is the number of its code units. -/
@[simp] theorem length_encode16 (cs : List Char) : (encode16 cs).length = length16 cs := by
  have hunits (c : Char) : (codeUnits c).length = units16 c := by
    unfold codeUnits units16
    split <;> rfl
  induction cs with
  | nil => rfl
  | cons c cs ih => rw [encode16, List.flatMap_cons, List.length_append, ← encode16, ih, hunits]; rfl

end Text

open Text (length16 encode16)

/-- The recorded change, made on code units: as many as were taken away, behind the offset, are
replaced. -/
def ContentChange.onUnits (us : List UInt16) (c : ContentChange) : List UInt16 :=
  us.take c.offset.toNat ++ encode16 c.text ++ us.drop (c.offset + c.length).toNat

/-! ### Records and edits -/

namespace Document

variable {x y : Document} {p q : Position} {e : Range × List Char} {c : ContentChange}
  {es : List (Range × List Char)} {cs : List ContentChange}

/-- **Offsets** grow with positions. -/
theorem offsetAt?_mono (x : Document) (hp : 0 ≤ p.line) (h : p.notAfter q = true) :
    ∃ i j, x.offsetAt? p = some i ∧ x.offsetAt? q = some j ∧ i ≤ j := by
  have hq : 0 ≤ q.line := by
    simp [Position.notAfter, Position.before] at h
    omega
  obtain ⟨i, hi, -⟩ := exists_indexAt? (d := x) hp
  obtain ⟨j, hj, -⟩ := exists_indexAt? (d := x) hq
  exact ⟨_, _, by rw [offsetAt?, hi]; rfl, by rw [offsetAt?, hj]; rfl,
    length16_take_mono x.text (indexAt?_mono hp h hi hj)⟩

/-- A record describes an edit that leads from one document to another: it measures what is in front
of the text that was taken away, and that text. -/
def Describes (c : ContentChange) (x : Document) (e : Range × List Char) (y : Document) : Prop :=
  x.splice? e.1 e.2 = some y ∧ (c.range, c.text) = e ∧
    ∃ front removed back, x.text = front ++ removed ++ back ∧ y.text = front ++ e.2 ++ back ∧
      c.offset = length16 front ∧ c.length = length16 removed

/-- Records describe edits, each on the text that the ones before it left. -/
inductive Described : Document → List (Range × List Char) → List ContentChange → Document → Prop
  | done {x : Document} : Described x [] [] x
  | edit {x y z : Document} {e : Range × List Char} {es : List (Range × List Char)}
    {c : ContentChange} {cs : List ContentChange} (hc : Describes c x e y)
    (h : Described y es cs z) : Described x (e :: es) (c :: cs) z

/-- What is measured of an edit is what it does. -/
theorem describes_changeOf? (hpos : 0 ≤ e.1.start.line) (hc : x.changeOf? e.1 e.2 = some c)
    (hy : x.splice? e.1 e.2 = some y) : Describes c x e y := by
  obtain ⟨i, hi, -⟩ := exists_indexAt? (d := x) hpos
  obtain ⟨j, hj, -⟩ := exists_indexAt? (d := x) (stop_line e.1 hpos)
  have hij : i ≤ j := indexAt?_mono hpos e.1.start_notAfter_stop hi hj
  have htake : x.text.take j = x.text.take i ++ (x.text.drop i).take (j - i) := by
    rw [← List.take_add, Nat.add_sub_cancel' hij]
  have hrecord : c = ⟨e.1, length16 (x.text.take i),
      length16 (x.text.take j) - length16 (x.text.take i), e.2⟩ := by
    simp only [changeOf?, offsetAt?, hi, hj] at hc
    exact (Option.some.inj hc).symm
  have hmade : y.text = x.text.take i ++ e.2 ++ x.text.drop j := by
    simp only [splice?, hi, hj] at hy
    rw [← Option.some.inj hy, replaceText, Nat.max_eq_right hij]
  refine ⟨hy, by rw [hrecord], x.text.take i, (x.text.drop i).take (j - i), x.text.drop j, ?_, hmade,
    by rw [hrecord], ?_⟩
  · rw [← htake, List.take_append_drop]
  · rw [hrecord, htake, Text.length16_append]
    push_cast
    omega

/-- **What is recorded of edits describes them**, and they can be made. -/
theorem exists_described (hpos : ∀ e ∈ es, 0 ≤ e.1.start.line) :
    ∃ cs y, x.edits? es = some (cs, y) ∧ Described x es cs y := by
  cases he : x.edits? es with
  | none =>
    obtain ⟨y, before, e, after, _, rfl, -, hl⟩ := edits?_eq_none.1 he
    have hline := hpos e (by simp)
    omega
  | some r =>
    obtain ⟨cs, y⟩ := r
    refine ⟨cs, y, rfl, ?_⟩
    induction es generalizing x cs with
    | nil => cases he; exact .done
    | cons e es ih =>
      obtain ⟨hpos, hes⟩ := List.forall_mem_cons.1 hpos
      obtain ⟨c, t, cs', hc, hs, hrest, rfl⟩ := edits?_cons he
      exact .edit (describes_changeOf? hpos hc hs) (ih hes cs' hrest)

/-- Code units follow one edit. -/
theorem Describes.onUnits (h : Describes c x e y) :
    c.onUnits (encode16 x.text) = encode16 y.text := by
  obtain ⟨-, htext, front, removed, back, hx, hy, hoffset, hlength⟩ := h
  have hstop : (c.offset + c.length).toNat = (encode16 (front ++ removed)).length := by
    rw [hoffset, hlength, Text.length_encode16, Text.length16_append]
    omega
  have hstart : c.offset.toNat = (encode16 front).length := by
    rw [hoffset, Text.length_encode16]
    rfl
  have hput : c.text = e.2 := congrArg Prod.snd htext
  rw [ContentChange.onUnits, hstop, hstart, hx, hy, hput, Text.encode16_append (front ++ removed),
    List.drop_left, Text.encode16_append front, List.append_assoc (encode16 front), List.take_left,
    Text.encode16_append, Text.encode16_append]

/-- **Code units follow the text**: whoever replaces them as recorded has those of the new text. -/
theorem Described.onUnits (h : Described x es cs y) :
    cs.foldl ContentChange.onUnits (encode16 x.text) = encode16 y.text := by
  induction h with
  | done => rfl
  | edit hc _ ih => rw [List.foldl_cons, hc.onUnits, ih]

/-- No record has an offset or a length below zero. -/
theorem Described.nonneg (h : Described x es cs y) : ∀ c ∈ cs, 0 ≤ c.offset ∧ 0 ≤ c.length := by
  induction h with
  | done => simp
  | edit hc _ ih =>
    obtain ⟨-, -, _, _, _, -, -, hoffset, hlength⟩ := hc
    exact List.forall_mem_cons.2 ⟨by omega, ih⟩

end Document

namespace Workbench

variable {w : Workbench} {n : Name} {d : DocumentId} {edits : List (Range × List Char)}

/-- **Ranges and offsets describe the same edits.**  Each record of an edit measures the text that
the edit took away, and the code units of the text follow the records. -/
theorem edit_describes (hn : w.Names d n) (hd : d < w.documents.size)
    (hpos : ∀ e ∈ edits, 0 ≤ e.1.start.line) :
    Ends (edit n edits) w (fun r w' => ∃ cs x, Document.Described (w.doc d) edits cs x ∧
        Announced w d x cs r w' ∧ (∀ c ∈ cs, 0 ≤ c.offset ∧ 0 ≤ c.length) ∧
        cs.foldl ContentChange.onUnits (encode16 (w.doc d).text) = encode16 (w'.doc d).text) ∧
      ∀ (x : Document) (p q : Position), 0 ≤ p.line → p.notAfter q = true →
        ∃ i j, x.offsetAt? p = some i ∧ x.offsetAt? q = some j ∧ i ≤ j := by
  obtain ⟨cs, x, he, hx⟩ := Document.exists_described (x := w.doc d) hpos
  refine ⟨(edit_announces hn hd he).mono fun r w' h => ⟨cs, x, hx, h, hx.nonneg, ?_⟩,
    fun x p q => x.offsetAt?_mono⟩
  rw [h.1]
  exact hx.onUnits

/-- A workbench with one document, in which a character has two code units. -/
private def paired : Workbench :=
  { documents := #[.opened default ['x', '😀', 'y', '\n', 'z'] "plaintext" 1] }

/-- That character is replaced, and something is put behind the last line. -/
private def behind : List (Range × List Char) :=
  [(.between ⟨0, 1⟩ ⟨0, 3⟩, ['é']), (.between ⟨7, 2⟩ ⟨7, 0⟩, ['!'])]

/-- The code units of a text with a pair follow two edits of it. -/
theorem edit_describes_paired : paired.Names 0 (.document 0) ∧ 0 < paired.documents.size ∧
    (∀ e ∈ behind, 0 ≤ e.1.start.line) ∧
    Ends (edit (.document 0) behind) paired fun _ w' => ∃ cs : List ContentChange,
      cs.foldl ContentChange.onUnits [0x78, 0xd83d, 0xde00, 0x79, 0x0a, 0x7a] =
        encode16 (w'.doc 0).text := by
  have hname : paired.Names 0 (.document 0) := rfl
  have hpos : ∀ e ∈ behind, 0 ≤ e.1.start.line := by decide
  have hunits : encode16 (paired.doc 0).text = [0x78, 0xd83d, 0xde00, 0x79, 0x0a, 0x7a] := by
    decide +kernel
  refine ⟨hname, by decide, hpos, (edit_describes hname (by decide) hpos).1.mono fun r w' h => ?_⟩
  obtain ⟨cs, _, -, -, -, h⟩ := h
  exact ⟨cs, hunits ▸ h⟩

end Workbench

end EditorBridge
