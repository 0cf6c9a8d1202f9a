/-
What an operation does to a document, and what everybody hears of it.

An operation of the editor that comes to something does one deed: it puts one document into
its new state and then lets everybody hear of it.  Nothing else is done, whoever listens
and however listeners fail (`Operation.act_does`).  An operation that comes to nothing
lets nobody hear of anything; an edit may fail half way, and then the text keeps the part
that was made.
-/
import EditorBridge.Proofs.Faithful

namespace EditorBridge

open Act (Ends Gives)

namespace Document

variable {x y : Document} {r : Range} {text : List Char} {e : Range × List Char}

/-- The records of edits that are made one after the other, and the document afterwards. -/
def edits? (x : Document) : List (Range × List Char) → Option (List ContentChange × Document)
  | [] => some ([], x)
  | e :: es => do
    let c ← x.changeOf? e.1 e.2
    let y ← x.splice? e.1 e.2
    let (cs, z) ← y.edits? es
    return (c :: cs, z)

/-- The document after recorded edits are made once more. -/
def replay? (x : Document) (cs : List ContentChange) : Option Document :=
  cs.foldlM (fun y c => y.splice? c.range c.text) x

/-- An edit that can be measured can be made, and changes the text only. -/
theorem exists_splice? {c : ContentChange} (h : x.changeOf? r text = some c) :
    ∃ t, x.splice? r text = some { x with text := t } := by
  simp only [changeOf?, offsetAt?, Option.bind_eq_bind, Option.bind_eq_some_iff,
    Option.map_eq_some_iff] at h
  obtain ⟨_, ⟨i, hi, rfl⟩, _, ⟨j, hj, rfl⟩, -⟩ := h
  exact ⟨_, by simp only [splice?, hi, hj]; rfl⟩

theorem changeOf?_range {c : ContentChange} (h : x.changeOf? r text = some c) :
    c.range = r ∧ c.text = text := by
  simp only [changeOf?, Option.bind_eq_bind, Option.bind_eq_some_iff] at h
  obtain ⟨_, -, _, -, h⟩ := h
  cases h
  exact ⟨rfl, rfl⟩

theorem edits?_cons {es : List (Range × List Char)} {cs : List ContentChange}
    (h : x.edits? (e :: es) = some (cs, y)) : ∃ c t cs', x.changeOf? e.1 e.2 = some c ∧
      x.splice? e.1 e.2 = some { x with text := t } ∧
      edits? { x with text := t } es = some (cs', y) ∧ cs = c :: cs' := by
  simp only [edits?, Option.bind_eq_bind, Option.bind_eq_some_iff] at h
  obtain ⟨c, hc, z, hz, ⟨cs', z'⟩, hes, h⟩ := h
  obtain ⟨t, ht⟩ := exists_splice? hc
  cases ht.symm.trans hz
  cases h
  exact ⟨c, t, cs', hc, ht, hes, rfl⟩

/-- Edits change the text only. -/
theorem edits?_text {es : List (Range × List Char)} {cs : List ContentChange}
    (h : x.edits? es = some (cs, y)) : y = { x with text := y.text } := by
  induction es generalizing x cs with
  | nil => cases h; rfl
  | cons e es ih =>
    obtain ⟨_, t, _, -, -, hes, -⟩ := edits?_cons h
    have hy := ih hes
    exact hy

/-- **The records of edits tell what was done**: whoever makes them once more has the document as
it is after the edits. -/
theorem replay?_edits? {es : List (Range × List Char)} {cs : List ContentChange}
    (h : x.edits? es = some (cs, y)) : x.replay? cs = some y := by
  induction es generalizing x cs with
  | nil => cases h; rfl
  | cons e es ih =>
    obtain ⟨c, t, cs', hc, ht, hes, rfl⟩ := edits?_cons h
    obtain ⟨hr, htext⟩ := changeOf?_range hc
    rw [replay?, List.foldlM_cons, hr, htext, ht]
    exact ih hes

end Document

namespace Workbench

variable {w w' : Workbench} {n : Name} {d : DocumentId}

/-- What was done to a document. -/
structure Deed where
  occasion : Occasion
  document : DocumentId
  /-- The document afterwards. -/
  result : Document
  /-- The records of an edit. -/
  changes : List ContentChange := []

namespace Deed

/-- The documents are as they are after the deed. -/
def put (δ : Deed) (w : Workbench) : Workbench :=
  match δ.occasion with
  | .opened => w.withNew δ.result.uri δ.result
  | .changed | .saved => w.withDoc δ.document δ.result
  | .closed => w.withoutDoc δ.document

/-- Who is to hear of it. -/
def event (δ : Deed) (w : Workbench) : Event Listener :=
  match δ.occasion with
  | .opened => w.onOpen
  | .changed => w.onChange
  | .saved => w.onSave
  | .closed => w.onClose

/-- How a listener hears of it. -/
def hear (δ : Deed) : Listener → Act Workbench Unit :=
  match δ.occasion with
  | .opened => hearOpened δ.document
  | .changed => hearChanged δ.document δ.changes
  | .saved => hearSaved δ.document
  | .closed => hearClosed δ.document

/-- Everybody hears of it. -/
def tell (δ : Deed) : Act Workbench Unit := do
  fire (δ.event (← Act.state)) δ.hear

end Deed

namespace Operation

/-- What an operation does, if it comes to something. -/
inductive Does (w : Workbench) : Operation → Deed → Prop
  | opening {o : Opening} {u : Uri} (hu : o.Means w u) (hl : w.shelf.lookup u = none) :
    Does w (opening o) ⟨.opened, w.documents.size, o.document u, []⟩
  | edit {n : Name} {edits : List (Range × List Char)} {d : DocumentId} {cs : List ContentChange}
    {x : Document} (hn : w.Names d n) (he : (w.doc d).edits? edits = some (cs, x)) :
    Does w (edit n edits) ⟨.changed, d, { x with version := x.version + 1 }, cs⟩
  | insert {n : Name} {p : Position} {text : List Char} {d : DocumentId} {cs : List ContentChange}
    {x : Document} (hn : w.Names d n)
    (he : (w.doc d).edits? [(.between p p, text)] = some (cs, x)) :
    Does w (insert n p text) ⟨.changed, d, { x with version := x.version + 1 }, cs⟩
  | replaceAll {n : Name} {text : List Char} {d : DocumentId} {cs : List ContentChange}
    {x : Document} (hn : w.Names d n)
    (he : (w.doc d).edits? [((w.doc d).fullRange, text)] = some (cs, x)) :
    Does w (replaceAll n text) ⟨.changed, d, { x with version := x.version + 1 }, cs⟩
  | save {n : Name} {d : DocumentId} (hn : w.Names d n) :
    Does w (save n) ⟨.saved, d, (w.doc d).save, []⟩
  | close {n : Name} {d : DocumentId} (hn : w.Names d n) :
    Does w (close n) ⟨.closed, d, { w.doc d with closed := true }, []⟩

/-- The name of the document that something is done to. -/
def name? : Operation → Option Name
  | edit n _ | insert n _ _ | replaceAll n _ | save n | close n => some n
  | _ => none

/-- An operation does one thing at most. -/
theorem Does.unique {x : Operation} {δ δ' : Deed} (h : x.Does w δ) (h' : x.Does w δ') : δ = δ' := by
  have hedits {x y : Document} {es : List (Range × List Char)} {cs cs' : List ContentChange}
      {d d' : DocumentId} (hd : d = d') (he : (w.doc d).edits? es = some (cs, x))
      (he' : (w.doc d').edits? es = some (cs', y)) :
      (⟨.changed, d, { x with version := x.version + 1 }, cs⟩ : Deed) =
        ⟨.changed, d', { y with version := y.version + 1 }, cs'⟩ := by
    subst hd
    cases he.symm.trans he'
    rfl
  cases h with
  | opening hu hl =>
    cases h' with
    | opening hu' _ => rw [hu.unique hu']
  | edit hn he =>
    cases h' with
    | edit hn' he' => exact hedits (hn.unique hn') he he'
  | insert hn he =>
    cases h' with
    | insert hn' he' => exact hedits (hn.unique hn') he he'
  | replaceAll hn he =>
    cases h' with
    | replaceAll hn' he' =>
      cases hn.unique hn'
      exact hedits rfl he he'
  | save hn =>
    cases h' with
    | save hn' => rw [hn.unique hn']
  | close hn =>
    cases h' with
    | close hn' => rw [hn.unique hn']

/-- Something is done to a document. -/
def OfDocuments : Operation → Prop
  | opening _ | edit _ _ | insert _ _ _ | replaceAll _ _ | save _ | close _ => True
  | _ => False

end Operation

/-- The text of a document is another one, and that is all. -/
def Retexted (w w' : Workbench) : Prop :=
  ∃ d text, w' = w.withDoc d { w.doc d with text := text }

theorem Retexted.refl (w : Workbench) : Retexted w w := ⟨0, (w.doc 0).text, withDoc_self.symm⟩

/-- A deed is done and everybody hears of it; whoever ends that ends the operation. -/
def Deed.Told {α : Type} (δ : Deed) (w : Workbench) (r : Except Failure α)
    (w' : Workbench) : Prop :=
  ∃ s, Gives δ.tell (δ.put w) s w' ∧ ∀ f, s = .error f → r = .error f

/-- What an operation comes to: one deed that everybody hears of, or none that anybody hears of. -/
def Operation.Comes {α : Type} (x : Operation) (w : Workbench) (r : Except Failure α)
    (w' : Workbench) : Prop :=
  (∃ δ, x.Does w δ ∧ δ.Told w r w') ∨ (∀ δ, ¬x.Does w δ) ∧ Retexted w w'

theorem Operation.Comes.congr {α : Type} {r : Except Failure α} {x y : Operation}
    (h : x.Comes w r w') (hxy : ∀ δ, y.Does w δ ↔ x.Does w δ) : y.Comes w r w' := by
  simpa only [Operation.Comes, hxy] using h

theorem Operation.Comes.ignore {α : Type} {a : Act Workbench α} {x : Operation}
    (h : Ends a w (x.Comes w)) : Ends (do let _ ← a) w (x.Comes w) := by
  refine .bind (h.mono fun r w' h => ?_)
  have hforgotten {β : Type} {r' : Except Failure β} (hr : ∀ f, r = .error f → r' = .error f) :
      x.Comes w r' w' :=
    h.imp_left fun ⟨δ, hδ, s, hs, hf⟩ => ⟨δ, hδ, s, hs, fun f h => hr f (hf f h)⟩
  cases r with
  | error f => exact hforgotten fun f h => by cases h; rfl
  | ok _ => exact .pure (hforgotten nofun)

/-- Everybody hears, and then the operation is over. -/
theorem Deed.tells {α : Type} {x : α} (δ : Deed) {w₁ : Workbench} (h : w₁ = δ.put w) :
    Ends (do δ.tell; return x) w₁ (δ.Told w) := by
  subst h
  refine .bind ((Ends.gives δ.tell (δ.put w)).mono fun s w' h => ?_)
  cases s with
  | ok _ => exact .pure ⟨_, h, nofun⟩
  | error f => exact ⟨_, h, fun f h => by cases h; rfl⟩

/-! ### Edits -/

theorem applyEdit_does (d : DocumentId) (e : Range × List Char) (w : Workbench) :
    Ends (applyEdit d e) w fun r w' => match (w.doc d).changeOf? e.1 e.2 with
      | some c => r = .ok c ∧ ∃ x, (w.doc d).splice? e.1 e.2 = some x ∧ w' = w.withDoc d x
      | none => (∃ f, r = .error f) ∧ w' = w := by
  refine .read (.bind (.ofExcept ?_))
  cases hc : (w.doc d).changeOf? e.1 e.2 with
  | none =>
    rw [show (w.documents.getD d default).changeOf? e.1 e.2 = none from hc]
    exact ⟨⟨_, rfl⟩, rfl⟩
  | some c =>
    rw [show (w.documents.getD d default).changeOf? e.1 e.2 = some c from hc]
    obtain ⟨t, ht⟩ := Document.exists_splice? hc
    have hmade : Ends (onDocument d (Document.splice e.1 e.2)) w fun r w' =>
        r = .ok () ∧ w' = w.withDoc d { w.doc d with text := t } := by
      refine (onDocument_ends (Q := fun r x => r = .ok () ∧ x = { w.doc d with text := t })
        ?_).mono fun r w' h => ?_
      · refine .traced (.read (.bind (.ofExcept ?_)))
        rw [Option.bind_none, ht]
        exact .change ⟨rfl, rfl⟩
      · obtain ⟨x, ⟨rfl, rfl⟩, rfl⟩ := h
        exact ⟨rfl, rfl⟩
    refine .bind (hmade.mono fun r w' h => ?_)
    obtain ⟨rfl, rfl⟩ := h
    exact .pure ⟨rfl, _, ht, rfl⟩

/-- **Edits** are all made, or the first one that cannot be made is the last one. -/
theorem applyEdits_do {edits : List (Range × List Char)} (hd : d < w.documents.size) :
    Ends (edits.mapM (applyEdit d)) w fun r w' => match (w.doc d).edits? edits with
      | some (cs, x) => r = .ok cs ∧ w' = w.withDoc d x
      | none => (∃ f, r = .error f) ∧ ∃ t, w' = w.withDoc d { w.doc d with text := t } := by
  induction edits generalizing w with
  | nil =>
    rw [List.mapM_nil]
    exact .pure ⟨rfl, withDoc_self.symm⟩
  | cons e es ih =>
    rw [List.mapM_cons]
    refine .bind ((applyEdit_does d e w).mono fun r w₁ h => ?_)
    cases hc : (w.doc d).changeOf? e.1 e.2 with
    | none =>
      rw [hc] at h
      obtain ⟨⟨f, rfl⟩, rfl⟩ := h
      simp only [Document.edits?, hc]
      exact ⟨⟨f, rfl⟩, _, withDoc_self.symm⟩
    | some c =>
      rw [hc] at h
      obtain ⟨rfl, x, hx, rfl⟩ := h
      obtain ⟨t, ht⟩ := Document.exists_splice? hc
      cases ht.symm.trans hx
      simp only [Document.edits?, hc, ht, Option.bind_eq_bind, Option.bind_some]
      refine .bind ((ih (by simpa using hd)).mono fun r w₂ h => ?_)
      rw [doc_withDoc hd] at h
      cases hes : ({ w.doc d with text := t } : Document).edits? es with
      | none =>
        rw [hes] at h
        obtain ⟨⟨f, rfl⟩, t', rfl⟩ := h
        exact ⟨⟨f, rfl⟩, t', withDoc_withDoc _ _⟩
      | some r =>
        obtain ⟨cs, z⟩ := r
        rw [hes] at h
        obtain ⟨rfl, rfl⟩ := h
        exact .pure ⟨rfl, withDoc_withDoc _ _⟩

/-! ### The operations -/

namespace Operation

variable {x : Operation}

/-- An edit is one deed, if all of it can be made. -/
theorem edit_does (n : Name) (edits : List (Range × List Char))
    (hd : ∀ d, w.Names d n → d < w.documents.size) :
    Ends (Workbench.edit n edits) w ((edit n edits).Comes w) := by
  refine .read (.traced (.bind ((resolve_ends n w).mono fun r w' h => ?_)))
  obtain ⟨rfl, hn⟩ := h
  cases r with
  | error f => exact .inr ⟨fun δ h => by cases h with | edit h => exact hn _ h, .refl w'⟩
  | ok d =>
    have hn : w'.Names d n := hn
    have hlt := hd d hn
    refine .bind ((applyEdits_do hlt).mono fun r w₁ h => ?_)
    cases he : (w'.doc d).edits? edits with
    | none =>
      rw [he] at h
      obtain ⟨⟨f, rfl⟩, t, rfl⟩ := h
      refine .inr ⟨fun δ h => ?_, d, t, rfl⟩
      cases h with
      | edit hn' he' =>
        cases hn.unique hn'
        cases he.symm.trans he'
    | some p =>
      obtain ⟨cs, z⟩ := p
      rw [he] at h
      obtain ⟨rfl, rfl⟩ := h
      refine .bind ((onDocument_ends (Q := fun r x => r = .ok () ∧
        x = { z with version := z.version + 1 }) ?_).mono fun r w₂ h => ?_)
      · rw [doc_withDoc hlt]
        exact .change ⟨rfl, rfl⟩
      · obtain ⟨x, ⟨rfl, rfl⟩, rfl⟩ := h
        rw [withDoc_withDoc]
        refine (Deed.tells ⟨.changed, d, { z with version := z.version + 1 }, cs⟩ rfl).mono
          fun _ _ h => .inl ⟨_, .edit hn he, h⟩

/-- To put a text somewhere is to edit, and so is to replace the whole text. -/
theorem does_insert {p : Position} {text : List Char} {δ : Deed} :
    Does w (insert n p text) δ ↔ Does w (edit n [(.between p p, text)]) δ :=
  ⟨fun h => by cases h with | insert hn he => exact .edit hn he,
    fun h => by cases h with | edit hn he => exact .insert hn he⟩

theorem does_replaceAll {text : List Char} {δ : Deed} (hn : w.Names d n) :
    Does w (replaceAll n text) δ ↔ Does w (edit (.document d) [((w.doc d).fullRange, text)]) δ := by
  constructor
  · intro h
    cases h with
    | replaceAll hn' he =>
      cases hn.unique hn'
      exact .edit rfl he
  · intro h
    cases h with
    | edit hd he =>
      cases hd
      exact .replaceAll hn he

theorem replaceAll_does (n : Name) (text : List Char)
    (hd : ∀ d, w.Names d n → d < w.documents.size) :
    Ends (Workbench.replaceAll n text) w ((replaceAll n text).Comes w) := by
  refine .bind ((resolve_ends n w).mono fun r w' h => ?_)
  obtain ⟨rfl, hn⟩ := h
  cases r with
  | error f => exact .inr ⟨fun δ h => by cases h with | replaceAll h => exact hn _ h, .refl w'⟩
  | ok d =>
    refine .read ((edit_does (.document d) _ ?_).mono fun r w'' h => ?_)
    · rintro _ rfl
      exact hd d hn
    · exact h.congr fun δ => does_replaceAll hn

theorem save_does (n : Name) :
    Ends (Workbench.save n) w ((save n).Comes w) := by
  refine .read (.traced (.bind ((resolve_ends n w).mono fun r w' h => ?_)))
  obtain ⟨rfl, hn⟩ := h
  cases r with
  | error f => exact .inr ⟨fun δ h => by cases h with | save h => exact hn _ h, .refl w'⟩
  | ok d =>
    refine .bind ((onDocument_ends (Q := fun r x => r = .ok () ∧ x = (w'.doc d).save)
      (.change ⟨rfl, rfl⟩)).mono fun r w₂ h => ?_)
    obtain ⟨x, ⟨rfl, rfl⟩, rfl⟩ := h
    exact (Deed.tells ⟨.saved, d, (w'.doc d).save, []⟩ rfl).mono
      fun _ _ h => .inl ⟨_, .save hn, h⟩

theorem close_does (n : Name) :
    Ends (Workbench.close n) w ((close n).Comes w) := by
  refine .read (.traced (.bind ((resolve_ends n w).mono fun r w' h => ?_)))
  obtain ⟨rfl, hn⟩ := h
  cases r with
  | error f => exact .inr ⟨fun δ h => by cases h with | close h => exact hn _ h, .refl w'⟩
  | ok d =>
    refine .read (.change_bind (.bind ((onDocument_ends (Q := fun r x => r = .ok () ∧
      x = { w'.doc d with closed := true }) (.change ⟨rfl, rfl⟩)).mono fun r w₂ h => ?_)))
    obtain ⟨x, ⟨rfl, rfl⟩, rfl⟩ := h
    exact (Deed.tells ⟨.closed, d, { w'.doc d with closed := true }, []⟩ rfl).mono
      fun _ _ h => .inl ⟨_, .close hn, h⟩

/-- A document is opened unless there is one of that name. -/
theorem openDocument_does (o : Opening) :
    Ends (openDocument o) w ((opening o).Comes w) := by
  have hrest (u : Uri) (hu : o.Means w u) :
      Ends (openAt o u) w ((opening o).Comes w) := by
    unfold openAt
    refine .read ?_
    cases hl : w.shelf.lookup u with
    | some d =>
      refine .pure (.inr ⟨fun δ h => ?_, .refl w⟩)
      cases h with
      | opening hu' hl' =>
        cases hu.unique hu'
        cases hl.symm.trans hl'
    | none =>
      refine .read (.change_bind ?_)
      exact (Deed.tells ⟨.opened, w.documents.size, o.document u, []⟩ rfl).mono
        fun _ _ h => .inl ⟨_, .opening hu hl, h⟩
  refine .read (.traced ?_)
  cases hn : o.name with
  | text s =>
    refine .bind (.ofExcept ?_)
    cases hu : readUri s with
    | ok u => exact hrest u (by simp [Opening.Means, hn, hu])
    | error f =>
      refine .inr ⟨fun δ h => ?_, .refl w⟩
      cases h with
      | opening hu' => simp [Opening.Means, hn, hu] at hu'
  | uri u => exact hrest u (by simp [Opening.Means, hn])
  | document d => exact hrest (w.doc d).uri (by simp [Opening.Means, hn])

/-- **Every operation on documents does one deed that everybody hears of, or none.** -/
theorem act_does {x : Operation} (hx : x.OfDocuments)
    (hd : ∀ n d, x.name? = some n → w.Names d n → d < w.documents.size) :
    Ends x.act w (x.Comes w) := by
  cases x with
  | opening o => exact Comes.ignore (openDocument_does o)
  | edit n edits => exact Comes.ignore (edit_does n edits (hd n · rfl))
  | insert n p text =>
    have hedit := edit_does n [(.between p p, text)] (hd n · rfl)
    exact Comes.ignore (hedit.mono fun _ _ h => h.congr fun δ => does_insert)
  | replaceAll n text => exact Comes.ignore (replaceAll_does n text (hd n · rfl))
  | save n => exact Comes.ignore (save_does n)
  | close n => exact Comes.ignore (close_does n)
  | _ => cases hx

end Operation

end Workbench

end EditorBridge
