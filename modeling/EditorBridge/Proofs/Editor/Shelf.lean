/-
The shelf of open documents.

Open documents are found by their uris.  An operation puts one document on the shelf,
replaces one, or takes one away, and the others stay as they are.
-/
import EditorBridge.Proofs.Editor.Operations
import EditorBridge.Proofs.Lists

namespace EditorBridge

open Text (length16)

namespace Workbench

variable {w w' : Workbench} {d : DocumentId}

/-- Open documents are there, are told apart by their names on the wire, and fit. -/
structure Orderly (w : Workbench) : Prop where
  filed : ∀ u d, w.shelf.lookup u = some d → d < w.documents.size ∧ (w.doc d).uri = u
  apart : ∀ d d', w.Shelved d → w.Shelved d' →
    (w.doc d).identity = (w.doc d').identity → d = d'
  fits : ∀ d, w.Shelved d → (w.doc d).VersionFits ∧ (length16 (w.doc d).text : Int) ≤ limit

/-- Documents stay where they are when the relay does something. -/
theorem Orderly.congr (h : Orderly w) (hd : w'.documents = w.documents) (hs : w'.shelf = w.shelf) :
    Orderly w' := by
  have hdoc : w'.doc = w.doc := by
    funext d
    rw [doc, doc, hd]
  have hshelved : w'.Shelved = w.Shelved := by
    funext d
    rw [Shelved, Shelved, hdoc, hs]
  refine ⟨?_, ?_, ?_⟩
  · rw [hd, hs, hdoc]
    exact h.filed
  · rw [hshelved, hdoc]
    exact h.apart
  · rw [hshelved, hdoc]
    exact h.fits

theorem doc_withNew_of_lt (h : d < w.documents.size) (u : Uri) (x : Document) :
    (w.withNew u x).doc d = w.doc d := by
  simp [doc, withNew, Array.getElem?_push, Nat.ne_of_lt h]

theorem lookup_withNew (u v : Uri) (x : Document) : (w.withNew u x).shelf.lookup v =
    (w.shelf.lookup v).or (if v = u then some w.documents.size else none) := by
  have hone : List.lookup v [(u, w.documents.size)] =
      if v = u then some w.documents.size else none := by
    by_cases h : v = u
    · simp [h]
    · simp [List.lookup_cons, beq_false_of_ne h, h]
  rw [← hone]
  exact List.lookup_append

theorem Orderly.shelved_lt (ho : Orderly w) (h : w.Shelved d) : d < w.documents.size :=
  (ho.filed _ d h).1

/-- What is open after a document was opened. -/
theorem shelved_withNew {u : Uri} {x : Document} (ho : Orderly w)
    (h : (w.withNew u x).Shelved d) :
    (d = w.documents.size ∧ (w.withNew u x).doc d = x) ∨
      w.Shelved d ∧ (w.withNew u x).doc d = w.doc d := by
  have hlookup := h
  rw [Shelved, lookup_withNew] at hlookup
  cases hl : w.shelf.lookup ((w.withNew u x).doc d).uri with
  | some d' =>
    rw [hl] at hlookup
    cases hlookup
    have hdoc := doc_withNew_of_lt (ho.filed _ _ hl).1 u x
    rw [hdoc] at hl
    exact .inr ⟨hl, hdoc⟩
  | none =>
    rw [hl, Option.none_or] at hlookup
    split at hlookup
    · cases hlookup
      exact .inl ⟨rfl, doc_withNew_size u x⟩
    · cases hlookup

theorem Orderly.withNew {u : Uri} {x : Document} (ho : Orderly w) (hx : x.uri = u)
    (hapart : ∀ d, w.Shelved d → (w.doc d).identity ≠ x.identity)
    (hfits : x.VersionFits ∧ (length16 x.text : Int) ≤ limit) : Orderly (w.withNew u x) := by
  refine ⟨fun v d h => ?_, fun d d' h h' heq => ?_, fun d h => ?_⟩
  · rw [lookup_withNew] at h
    cases hl : w.shelf.lookup v with
    | some d' =>
      rw [hl] at h
      cases h
      obtain ⟨hlt, hv⟩ := ho.filed v d hl
      rw [doc_withNew_of_lt hlt]
      exact ⟨Nat.lt_of_lt_of_le hlt (by simp [Workbench.withNew]), hv⟩
    | none =>
      rw [hl, Option.none_or] at h
      split at h
      · rename_i hvu
        cases h
        rw [doc_withNew_size, hvu]
        exact ⟨by simp [Workbench.withNew], hx⟩
      · cases h
  · rcases shelved_withNew ho h with ⟨hd, hdoc⟩ | ⟨hs, hdoc⟩ <;>
      rcases shelved_withNew ho h' with ⟨hd', hdoc'⟩ | ⟨hs', hdoc'⟩ <;>
      rw [hdoc, hdoc'] at heq
    · rw [hd, hd']
    · exact absurd heq.symm (hapart d' hs')
    · exact absurd heq (hapart d hs)
    · exact ho.apart d d' hs hs' heq
  · rcases shelved_withNew ho h with ⟨hd, hdoc⟩ | ⟨hs, hdoc⟩ <;> rw [hdoc]
    · exact hfits
    · exact ho.fits d hs

/-- A document stays where it is when it is changed. -/
theorem doc_withDoc_cases {x : Document} (hd : d < w.documents.size) (d' : DocumentId) :
    (d' = d ∧ (w.withDoc d x).doc d' = x) ∨ (d' ≠ d ∧ (w.withDoc d x).doc d' = w.doc d') := by
  by_cases h : d' = d
  · subst h
    exact .inl ⟨rfl, doc_withDoc hd x⟩
  · exact .inr ⟨h, doc_withDoc_of_ne (Ne.symm h) x⟩

theorem shelved_withDoc {x : Document} (hd : d < w.documents.size) (hx : x.uri = (w.doc d).uri)
    (d' : DocumentId) : (w.withDoc d x).Shelved d' ↔ w.Shelved d' := by
  unfold Shelved
  rcases doc_withDoc_cases (x := x) hd d' with ⟨rfl, h⟩ | ⟨-, h⟩
  · rw [h, hx]
    rfl
  · rw [h]
    rfl

theorem identity_withDoc {x : Document} (hd : d < w.documents.size) (hx : x.uri = (w.doc d).uri)
    (d' : DocumentId) : ((w.withDoc d x).doc d').identity = (w.doc d').identity := by
  rcases doc_withDoc_cases (x := x) hd d' with ⟨rfl, h⟩ | ⟨-, h⟩
  · rw [h, Document.identity, hx]
    rfl
  · rw [h]

theorem Orderly.withDoc {x : Document} (ho : Orderly w) (hd : d < w.documents.size)
    (hx : x.uri = (w.doc d).uri) (hfits : x.VersionFits ∧ (length16 x.text : Int) ≤ limit) :
    Orderly (w.withDoc d x) := by
  refine ⟨fun v d' h => ?_, fun d' d'' h h' heq => ?_, fun d' h => ?_⟩
  · obtain ⟨hlt, hv⟩ := ho.filed v d' h
    refine ⟨by simpa using hlt, ?_⟩
    rcases doc_withDoc_cases (x := x) hd d' with ⟨rfl, h⟩ | ⟨-, h⟩ <;> rw [h]
    · rw [hx, hv]
    · exact hv
  · rw [shelved_withDoc hd hx] at h h'
    rw [identity_withDoc hd hx, identity_withDoc hd hx] at heq
    exact ho.apart d' d'' h h' heq
  · rw [shelved_withDoc hd hx] at h
    rcases doc_withDoc_cases (x := x) hd d' with ⟨rfl, h'⟩ | ⟨-, h'⟩ <;> rw [h']
    · exact hfits
    · exact ho.fits d' h

/-- An open document is the only one with its name. -/
theorem Orderly.eq_of_identity (ho : Orderly w) (hd : w.Shelved d) (d' : DocumentId)
    (hd' : w.Shelved d') (heq : (w.doc d').identity = (w.doc d).identity) :
    w.doc d' = w.doc d := by
  rw [ho.apart d' d hd' hd heq]

/-- What is open after a document was closed. -/
theorem shelved_withoutDoc (ho : Orderly w) (hd : w.Shelved d) {d' : DocumentId} :
    (w.withoutDoc d).Shelved d' ↔ d' ≠ d ∧ w.Shelved d' := by
  have hlt := ho.shelved_lt hd
  have hlookup (v : Uri) := lookup_filter_ne w.shelf (w.doc d).uri v
  unfold Shelved
  rcases doc_withDoc_cases (w := { w with shelf := w.shelf.filter (·.1 ≠ (w.doc d).uri) })
    (x := { w.doc d with closed := true }) hlt d' with ⟨rfl, h⟩ | ⟨hne, h⟩
  · rw [show (w.withoutDoc d').doc d' = _ from h]
    show List.lookup (w.doc d').uri (w.shelf.filter _) = _ ↔ _
    rw [hlookup, if_pos rfl]
    exact ⟨nofun, fun h => absurd rfl h.1⟩
  · rw [show (w.withoutDoc d).doc d' = w.doc d' from h]
    show List.lookup (w.doc d').uri (w.shelf.filter _) = _ ↔ _
    rw [hlookup]
    by_cases hu : (w.doc d').uri = (w.doc d).uri
    · rw [if_pos hu, hu]
      refine ⟨nofun, fun h => ?_⟩
      have hd' := h.2
      rw [show w.shelf.lookup (w.doc d).uri = some d from hd] at hd'
      exact absurd (Option.some.inj hd').symm hne
    · rw [if_neg hu]
      exact ⟨fun h => ⟨hne, h⟩, fun h => h.2⟩

theorem doc_withoutDoc_of_ne {d' : DocumentId} (h : d ≠ d') :
    (w.withoutDoc d).doc d' = w.doc d' :=
  doc_withDoc_of_ne (w := { w with shelf := w.shelf.filter (·.1 ≠ (w.doc d).uri) }) h _

theorem Orderly.withoutDoc (ho : Orderly w) (hd : w.Shelved d) : Orderly (w.withoutDoc d) := by
  have hs {d' : DocumentId} (h : (w.withoutDoc d).Shelved d') :
      w.Shelved d' ∧ (w.withoutDoc d).doc d' = w.doc d' := by
    obtain ⟨hne, h⟩ := (shelved_withoutDoc ho hd).1 h
    exact ⟨h, doc_withoutDoc_of_ne (Ne.symm hne)⟩
  refine ⟨fun v d' h => ?_, fun d' d'' h h' heq => ?_, fun d' h => ?_⟩
  · have hlookup : (w.withoutDoc d).shelf.lookup v =
        if v = (w.doc d).uri then none else w.shelf.lookup v := lookup_filter_ne ..
    rw [hlookup] at h
    split at h
    · cases h
    · rename_i hv
      obtain ⟨hlt, hu⟩ := ho.filed v d' h
      have hne : d ≠ d' := fun e => hv (by rw [← hu, e])
      rw [doc_withoutDoc_of_ne hne]
      exact ⟨by simpa [Workbench.withoutDoc] using hlt, hu⟩
  · rw [(hs h).2, (hs h').2] at heq
    exact ho.apart d' d'' (hs h).1 (hs h').1 heq
  · rw [(hs h).2]
    exact ho.fits d' (hs h).1

end Workbench

end EditorBridge
