/-
Edits that are made half way.

The edits of one change are made one after the other on the live text, and where an edit goes
is found out only when its turn comes.  So an edit in a line that is not there, counted from the
end, stops the change after the edits in front of it were made: the text keeps them, while the
version stays and nobody hears of anything (`edit_goes`).  Whether that happens depends on the
lines that the edits in front have left, not on the document alone.

If no edit stops the change, all of them are one deed.  Then only a listener that asks for the
end of the program keeps the editor from saying what it did, and that is after the deed.
-/
import EditorBridge.Proofs.Editor.Lifecycle

namespace EditorBridge

open Act (Ends Gives)

namespace Document

variable {x y : Document} {p : Position} {r : Range} {text : List Char}
  {es : List (Range × List Char)}

/-- Only a line further from the end than there are lines is not there. -/
theorem indexAt?_eq_none : x.indexAt? p = none ↔ p.line < -(x.lines.length : Int) := by
  constructor
  · intro h
    by_contra hp
    by_cases hpos : 0 ≤ p.line
    · obtain ⟨i, hi, -⟩ := exists_indexAt? (d := x) hpos
      cases h.symm.trans hi
    · have hlt : x.lines.length - p.line.natAbs < x.lines.length := by omega
      have hle : p.line.natAbs ≤ x.lines.length := by omega
      simp only [indexAt?, Lines.line?, if_neg hpos, if_pos hle,
        List.getElem?_eq_getElem hlt] at h
      rw [if_neg (by omega)] at h
      cases h
  · intro h
    have hle : ¬p.line.natAbs ≤ x.lines.length := by omega
    simp only [indexAt?, Lines.line?, if_neg (show ¬(0 : Int) ≤ p.line by omega), if_neg hle]
    rw [if_neg (by omega)]
    rfl

/-- Nothing but the line of its start decides whether an edit can be made. -/
theorem changeOf?_eq_none :
    x.changeOf? r text = none ↔ r.start.line < -(x.lines.length : Int) := by
  have hstop : r.start.line ≤ r.stop.line := by
    have hle := r.start_notAfter_stop
    simp [Position.notAfter, Position.before] at hle
    omega
  rw [← indexAt?_eq_none]
  cases hi : x.indexAt? r.start with
  | none => simp [changeOf?, offsetAt?, hi]
  | some i =>
    have hj : x.indexAt? r.stop ≠ none := fun hj => by
      have hline := indexAt?_eq_none.1 hj
      rw [indexAt?_eq_none.2 (by omega)] at hi
      cases hi
    obtain ⟨j, hj⟩ := Option.ne_none_iff_exists'.1 hj
    simp [changeOf?, offsetAt?, hi, hj]

/-- Edits stop at one in a line that is not there, and those in front of it lead to `y`. -/
def Stops (x : Document) (es : List (Range × List Char)) (y : Document) : Prop :=
  ∃ before e after cs, es = before ++ e :: after ∧ x.edits? before = some (cs, y) ∧
    e.1.start.line < -(y.lines.length : Int)

/-- Edits are all made unless they stop. -/
theorem edits?_eq_none : x.edits? es = none ↔ ∃ y, x.Stops es y := by
  induction es generalizing x with
  | nil => simp [edits?, Stops]
  | cons e es ih =>
    cases hc : x.changeOf? e.1 e.2 with
    | none =>
      simp only [edits?, hc, Option.bind_eq_bind, Option.bind_none, true_iff]
      exact ⟨x, [], e, es, [], rfl, rfl, changeOf?_eq_none.1 hc⟩
    | some c =>
      obtain ⟨t, ht⟩ := exists_splice? hc
      have hrest : x.edits? (e :: es) = none ↔ edits? { x with text := t } es = none := by
        simp only [edits?, hc, ht, Option.bind_eq_bind, Option.bind_some]
        cases edits? { x with text := t } es <;> simp
      rw [hrest, ih]
      constructor
      · rintro ⟨y, before, e', after, cs, rfl, hb, hl⟩
        refine ⟨y, e :: before, e', after, c :: cs, rfl, ?_, hl⟩
        simp only [edits?, hc, ht, Option.bind_eq_bind, Option.bind_some, hb]
        rfl
      · rintro ⟨y, before, e', after, cs, hes, hb, hl⟩
        cases before with
        | nil =>
          cases hes
          cases hb
          rw [changeOf?_eq_none.2 hl] at hc
          cases hc
        | cons _ before =>
          cases hes
          obtain ⟨_, t', cs', -, ht', hb, -⟩ := edits?_cons hb
          cases ht.symm.trans ht'
          exact ⟨y, before, e', after, cs', rfl, hb, hl⟩

/-- There is one record for each edit, in the order of the edits. -/
theorem edits?_records {cs : List ContentChange} (h : x.edits? es = some (cs, y)) :
    cs.map (fun c => (c.range, c.text)) = es := by
  induction es generalizing x cs with
  | nil => cases h; rfl
  | cons e es ih =>
    obtain ⟨c, t, cs', hc, -, hes, rfl⟩ := edits?_cons h
    obtain ⟨hr, htext⟩ := changeOf?_range hc
    rw [List.map_cons, ih hes, hr, htext]

end Document

namespace Workbench

variable {w w' : Workbench} {n : Name} {d : DocumentId} {edits : List (Range × List Char)}
  {x y : Document} {cs : List ContentChange}

/-- A name of a document leads to it. -/
theorem resolve_names (hn : w.Names d n) :
    Ends (resolve n) w fun r w' => r = .ok d ∧ w' = w := by
  refine (resolve_ends n w).mono fun r w' h => ?_
  obtain ⟨rfl, hr⟩ := h
  cases r with
  | error f => exact absurd hn (hr d)
  | ok d' => exact ⟨by rw [hn.unique hr], rfl⟩

/-! ### Edits that can all be made -/

/-- Nothing but a request to end the program comes out of telling. -/
theorem Deed.tell_isExit (δ : Deed) (w : Workbench) :
    Ends δ.tell w fun s _ => ∀ f, s = .error f → f.isExit = true := by
  refine .read (.bind ((Event.callEach_keeps (I := fun _ => True) (fun _ _ w _ =>
    (Ends.gives _ w).mono fun _ _ _ => trivial) trivial).mono fun r w' h => ?_))
  cases r with
  | error f => exact fun f' hf => h.1 f' (by cases hf; rfl)
  | ok rs =>
    refine (logFailures_ends logger rs w').mono fun r w'' hl => ?_
    rw [hl.1]
    exact nofun

/-- The change that edits are, once they are all made. -/
def changed (d : DocumentId) (x : Document) (cs : List ContentChange) : Deed :=
  ⟨.changed, d, { x with version := x.version + 1 }, cs⟩

/-- Edits that can all be made are one deed, and the editor says what it recorded. -/
theorem edit_makes (hn : w.Names d n) (hd : d < w.documents.size)
    (he : (w.doc d).edits? edits = some (cs, x)) :
    Ends (edit n edits) w fun r w' => ∃ s, Gives (changed d x cs).tell
      (w.withDoc d { x with version := x.version + 1 }) s w' ∧ r = s.map fun _ => (d, cs) := by
  refine .read (.traced (.bind ((resolve_names hn).mono fun r w' h => ?_)))
  obtain ⟨rfl, rfl⟩ := h
  refine .bind ((applyEdits_do hd).mono fun r w₁ h => ?_)
  rw [he] at h
  obtain ⟨rfl, rfl⟩ := h
  refine .bind ((onDocument_ends (Q := fun r y => r = .ok () ∧
    y = { x with version := x.version + 1 }) ?_).mono fun r w₂ h => ?_)
  · rw [doc_withDoc hd]
    exact .change ⟨rfl, rfl⟩
  · obtain ⟨y, ⟨rfl, rfl⟩, rfl⟩ := h
    rw [withDoc_withDoc]
    refine Ends.bind (a := (changed d x cs).tell) ((Ends.gives _ _).mono fun s w₃ h => ?_)
    cases s with
    | ok _ => exact .pure ⟨_, h, rfl⟩
    | error f => exact ⟨_, h, rfl⟩

/-! ### Edits that stop -/

theorem applyEdit_stops {e : Range × List Char} (h : (w.doc d).changeOf? e.1 e.2 = none) :
    Ends (applyEdit d e) w fun r w' => r = .error .noSuchLine ∧ w' = w := by
  refine .read (.bind (.ofExcept ?_))
  rw [show (w.documents.getD d default).changeOf? e.1 e.2 = none from h]
  exact ⟨rfl, rfl⟩

/-- The edits in front of the one that stops them are made on the live document. -/
theorem applyEdits_stop (hd : d < w.documents.size) (h : (w.doc d).Stops edits y) :
    Ends (edits.mapM (applyEdit d)) w fun r w' => r = .error .noSuchLine ∧ w' = w.withDoc d y := by
  obtain ⟨before, e, after, cs, rfl, hb, hl⟩ := h
  rw [List.mapM_append]
  refine .bind ((applyEdits_do hd).mono fun r w₁ h => ?_)
  rw [hb] at h
  obtain ⟨rfl, rfl⟩ := h
  rw [List.mapM_cons]
  have hstop : ((w.withDoc d y).doc d).changeOf? e.1 e.2 = none := by
    rw [doc_withDoc hd]
    exact Document.changeOf?_eq_none.2 hl
  refine .bind (.bind ((applyEdit_stops hstop).mono fun r w₂ h => ?_))
  obtain ⟨rfl, rfl⟩ := h
  exact ⟨rfl, rfl⟩

theorem edit_stops (hn : w.Names d n) (hd : d < w.documents.size)
    (h : (w.doc d).Stops edits y) :
    Ends (edit n edits) w fun r w' => r = .error .noSuchLine ∧ w' = w.withDoc d y := by
  refine .read (.traced (.bind ((resolve_names hn).mono fun r w' hr => ?_)))
  obtain ⟨rfl, rfl⟩ := hr
  refine .bind ((applyEdits_stop hd h).mono fun r w₁ hr => ?_)
  obtain ⟨rfl, rfl⟩ := hr
  exact ⟨rfl, rfl⟩

/-! ### Both -/

/-- A document has another text and the next version, and everybody was told once; the editor says
what it recorded, unless somebody asked for the end of the program. -/
def Announced (w : Workbench) (d : DocumentId) (x : Document) (cs : List ContentChange)
    (r : Except Failure (DocumentId × List ContentChange)) (w' : Workbench) : Prop :=
  w'.doc d = { w.doc d with text := x.text, version := (w.doc d).version + 1 } ∧
    ∃ s, Gives (changed d x cs).tell ((changed d x cs).put w) s w' ∧
      (r = s.map fun _ => (d, cs)) ∧ ∀ f, s = .error f → f.isExit = true

/-- Edits that can all be made are announced together. -/
theorem edit_announces (hn : w.Names d n) (hd : d < w.documents.size)
    (he : (w.doc d).edits? edits = some (cs, x)) :
    Ends (edit n edits) w (Announced w d x cs) := by
  refine (edit_makes hn hd he).mono fun r w' h => ?_
  obtain ⟨s, hs, hr⟩ := h
  refine ⟨?_, s, hs, hr, fun f => hs.elim ((changed d x cs).tell_isExit _) f⟩
  have hdoc := (hs.elim ((unmoved_tell (changed d x cs)).ends _)).doc d
  rw [hdoc, doc_withDoc hd, Document.edits?_text he]

/-- All edits were made, each has its record, and they are announced together. -/
def Whole (w : Workbench) (d : DocumentId) (edits : List (Range × List Char))
    (r : Except Failure (DocumentId × List ContentChange)) (w' : Workbench) : Prop :=
  ∃ cs x, (w.doc d).edits? edits = some (cs, x) ∧ cs.map (fun c => (c.range, c.text)) = edits ∧
    Announced w d x cs r w'

/-- The edits in front of one in a line that is not there were made, and nothing else happened. -/
def Half (w : Workbench) (d : DocumentId) (edits : List (Range × List Char))
    (r : Except Failure (DocumentId × List ContentChange)) (w' : Workbench) : Prop :=
  ∃ y, (w.doc d).Stops edits y ∧ r = .error .noSuchLine ∧
    w' = w.withDoc d { w.doc d with text := y.text } ∧ (w' = w ↔ y.text = (w.doc d).text)

/-- **Edits are made as a whole or half way**, and half way leaves no trace only if those that were
made come to nothing together. -/
theorem edit_goes (edits : List (Range × List Char)) (hn : w.Names d n)
    (hd : d < w.documents.size) :
    Ends (edit n edits) w fun r w' => Whole w d edits r w' ∨ Half w d edits r w' := by
  cases he : (w.doc d).edits? edits with
  | none =>
    obtain ⟨y, hy⟩ := Document.edits?_eq_none.1 he
    have htext : y = { w.doc d with text := y.text } := by
      obtain ⟨_, _, _, _, -, hb, -⟩ := hy
      exact Document.edits?_text hb
    refine (edit_stops hn hd hy).mono fun r w' h => .inr ⟨y, hy, h.1, ?_, ?_⟩
    · rw [h.2, ← htext]
    · rw [h.2]
      constructor
      · intro hw
        rw [← doc_withDoc hd y, hw]
      · intro ht
        rw [ht] at htext
        rw [htext]
        exact withDoc_self
  | some p =>
    obtain ⟨cs, x⟩ := p
    exact (edit_announces hn hd he).mono fun r w' h =>
      .inl ⟨cs, x, he, Document.edits?_records he, h⟩

/-- A workbench with one document. -/
private def lettered : Workbench := { documents := #[.opened default ['b'] "plaintext" 1] }

/-- A letter in front, and one in a line that is not there. -/
private def astray : List (Range × List Char) :=
  [(.between ⟨0, 0⟩ ⟨0, 0⟩, ['a']), (.between ⟨-5, 0⟩ ⟨-5, 0⟩, ['c'])]

/-- Edits of which the second one is in a line that is not there stay half made. -/
theorem edit_goes_astray : lettered.Names 0 (.document 0) ∧ 0 < lettered.documents.size ∧
    Ends (edit (.document 0) astray) lettered (Half lettered 0 astray) := by
  have hname : lettered.Names 0 (.document 0) := rfl
  have hnot : (lettered.doc 0).edits? astray = none := by decide +kernel
  refine ⟨hname, by decide, (edit_goes astray hname (by decide)).mono fun r w' h => ?_⟩
  rcases h with ⟨_, _, he, -⟩ | h
  · cases hnot.symm.trans he
  · exact h

/-- **An edit that fails may have changed the text**: its first part was made. -/
theorem not_edit_atomic : ∃ r w', Gives (edit (.document 0) astray) lettered r w' ∧
    r.isOk = false ∧ (lettered.doc 0).text = ['b'] ∧ (w'.doc 0).text = ['a', 'b'] ∧
    (w'.doc 0).version = (lettered.doc 0).version :=
  ⟨_, _, ⟨{}, rfl, rfl⟩, by decide +kernel, by decide +kernel, by decide +kernel, by decide +kernel⟩

end Workbench

end EditorBridge
