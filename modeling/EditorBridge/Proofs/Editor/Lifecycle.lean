/-
The life of a document.

The shelf holds at most one document of a resource, under its own name, and none that is
closed.  A document begins with its opening, which nobody hears of twice, and as long as
nobody names it directly after it was closed, changes and saves follow and its closing is
the last thing that is heard of it (`History.documentLives`).

An operation does not ask whether the document it was handed is closed.  So a closed one
can be changed, saved, and closed once more; and what is closed is taken off the shelf by
name, so that closing it once more takes away whichever document has the name by then.
The invariant `Kept` says of a document that is neither closed nor on the shelf that this
has happened.
-/
import EditorBridge.Proofs.Editor.Deeds

namespace EditorBridge

open Act (Ends Keeps)

namespace Workbench

variable {w w' : Workbench} {d d' : DocumentId} {x : Operation} {δ : Deed}

/-! ### What a deed is -/

/-- A document is on the shelf under its own name, and is not closed. -/
def Filed (w : Workbench) : Prop :=
  ∀ u d, w.shelf.lookup u = some d →
    d < w.documents.size ∧ (w.doc d).uri = u ∧ (w.doc d).closed = false

/-- A document that has a name is on the shelf, if it is not named directly. -/
theorem Names.shelved {n : Name} (hw : w.Filed) (h : w.Names d n) :
    n = .document d ∨ w.Shelved d := by
  have hfound {u : Uri} (h : w.shelf.lookup u = some d) : w.Shelved d := by
    rw [Shelved, (hw u d h).2.1]
    exact h
  cases n with
  | text s =>
    obtain ⟨u, -, h⟩ := h
    exact .inr (hfound h)
  | uri u => exact .inr (hfound h)
  | document d' => exact .inl (by rw [show d' = d from h])

/-- **A deed** opens a new document, or goes on with one that has a name. -/
theorem Operation.Does.cases (h : x.Does w δ) :
    (δ.occasion = .opened ∧ δ.document = w.documents.size ∧
      w.shelf.lookup δ.result.uri = none ∧ δ.result.closed = false) ∨
    ∃ n, x.name? = some n ∧ w.Names δ.document n ∧ δ.result.uri = (w.doc δ.document).uri ∧
      ((δ.occasion = .changed ∨ δ.occasion = .saved) ∧
          δ.result.closed = (w.doc δ.document).closed ∨
        δ.occasion = .closed ∧ x = .close n) := by
  have hedited {es : List (Range × List Char)} {d : DocumentId} {cs : List ContentChange}
      {y : Document} (he : (w.doc d).edits? es = some (cs, y)) :
      y.uri = (w.doc d).uri ∧ y.closed = (w.doc d).closed := by
    rw [Document.edits?_text he]
    exact ⟨rfl, rfl⟩
  cases h with
  | opening hu hl => exact .inl ⟨rfl, rfl, hl, rfl⟩
  | edit hn he | insert hn he | replaceAll hn he =>
    exact .inr ⟨_, rfl, hn, (hedited he).1, .inl ⟨.inl rfl, (hedited he).2⟩⟩
  | save hn => exact .inr ⟨_, rfl, hn, rfl, .inl ⟨.inr rfl, rfl⟩⟩
  | close hn => exact .inr ⟨_, rfl, hn, rfl, .inr ⟨rfl, rfl⟩⟩

/-! ### What happened -/

/-- Documents and the shelf are as they were. -/
def Unmoved (w w' : Workbench) : Prop := w'.documents = w.documents ∧ w'.shelf = w.shelf

instance : IsPreorder Workbench Unmoved where
  refl _ := ⟨rfl, rfl⟩
  trans _ _ _ h h' := ⟨h'.1.trans h.1, h'.2.trans h.2⟩

theorem Unmoved.doc (h : Unmoved w w') (d : DocumentId) : w'.doc d = w.doc d := by
  rw [Workbench.doc, Workbench.doc, h.1]

/-- Listeners move no documents. -/
instance unmoved_tell (δ : Deed) : Keeps Unmoved δ.tell := by
  have hobserve (n : Nat) (o : Occasion) (d : DocumentId) : Keeps Unmoved (observe n o d) :=
    .of_ends fun w => (observe_ends n o d w).mono fun _ _ h => by
      obtain ⟨_, rfl⟩ := h
      exact ⟨rfl, rfl⟩
  have hrelay (n : Nat) (call : String) (argument : Value) (a : Relay → Act (Tracker × Link) Unit) :
      Keeps Unmoved (relay n call argument a) :=
    .of_ends fun w => (relay_ends (H := fun _ => True) fun _ => trivial).mono fun _ _ h => by
      obtain ⟨_, -, rfl⟩ := h
      exact ⟨rfl, rfl⟩
  have hhear (k : Listener) : Keeps Unmoved (δ.hear k) := by
    unfold Deed.hear
    cases δ.occasion <;> cases k
    all_goals first
      | exact hobserve _ _ _
      | exact .andThen fun _ => hrelay _ _ _ _
  have hcalls (ks : List Listener) :
      Keeps Unmoved (Event.callEach (fun _ => return true) δ.hear ks) := inferInstance
  refine .of_ends fun w => .read (.bind (((hcalls _).ends w).mono fun r w' h => ?_))
  cases r with
  | error f => exact h
  | ok rs => exact (logFailures_ends logger rs w').mono fun _ _ hl => hl.2 ▸ h

/-- Something that was asked for: where, what, and what was done if it came to something. -/
structure Moment where
  workbench : Workbench
  operation : Operation
  deed? : Option Deed

namespace Moment

/-- A document is named directly though it is closed. -/
def Stale (d : DocumentId) (m : Moment) : Prop :=
  m.operation.name? = some (.document d) ∧ (m.workbench.doc d).closed = true

/-- A closed document of a resource is closed once more. -/
def Recloses (u : Uri) (m : Moment) : Prop :=
  ∃ d, m.operation = .close (.document d) ∧ (m.workbench.doc d).closed = true ∧
    (m.workbench.doc d).uri = u

/-- What is heard of a document. -/
def occasion? (d : DocumentId) (m : Moment) : Option Occasion :=
  m.deed?.bind fun δ => if δ.document = d then some δ.occasion else none

/-- What is heard is what the operation lets everybody hear of: its deed, once and by the event of
its occasion; if there is none, nobody is told anything. -/
def Heard (m : Moment) : Prop :=
  Ends m.operation.act m.workbench fun r w' =>
    match m.deed? with
    | some δ => δ.Told m.workbench r w'
    | none => Retexted m.workbench w'

end Moment

/-- What was heard of a document. -/
def occasions (d : DocumentId) (past : List Moment) : List Occasion :=
  past.filterMap (Moment.occasion? d)

/-- Everything that was done in an editor since there were no documents.  A document is named by its
name, or directly if there is one. -/
inductive History : Workbench → List Moment → Prop
  | fresh {w : Workbench} (hd : w.documents = #[]) (hs : w.shelf = []) : History w []
  | does {w : Workbench} {past : List Moment} (h : History w past) (x : Operation)
    (hx : x.OfDocuments) (hd : ∀ d, x.name? = some (.document d) → d < w.documents.size)
    (δ : Deed) (hδ : x.Does w δ) (j : Journal) :
    History (x.act ⟨j, w⟩).2.state (past ++ [⟨w, x, some δ⟩])
  | fails {w : Workbench} {past : List Moment} (h : History w past) (x : Operation)
    (hx : x.OfDocuments) (hd : ∀ d, x.name? = some (.document d) → d < w.documents.size)
    (hn : ∀ δ, ¬x.Does w δ) (j : Journal) :
    History (x.act ⟨j, w⟩).2.state (past ++ [⟨w, x, none⟩])
  /-- Listeners come and go, queries are answered, time passes. -/
  | meanwhile {w : Workbench} {past : List Moment} (h : History w past) {w' : Workbench}
    (h' : Unmoved w w') : History w' past

/-! ### Lives -/

/-- A document is opened once, first, and is closed exactly if its closing was heard of. -/
def Begun (os : List Occasion) (closed : Bool) : Prop :=
  ∃ rest, os = .opened :: rest ∧ .opened ∉ rest ∧ (.closed ∈ rest ↔ closed = true)

/-- Changes and saves follow the opening, and nothing follows the closing. -/
def Life (os : List Occasion) (closed : Bool) : Prop :=
  ∃ rest, (∀ o ∈ rest, o = .changed ∨ o = .saved) ∧
    os = .opened :: rest ++ if closed then [.closed] else []

/-- What is heard of a document after its opening. -/
theorem Begun.add {os : List Occasion} {closed closed' : Bool} {o : Occasion} (h : Begun os closed)
    (ho : o ≠ .opened) (hc : closed' = true ↔ closed = true ∨ o = .closed) :
    Begun (os ++ [o]) closed' := by
  obtain ⟨rest, rfl, hopened, hclosed⟩ := h
  refine ⟨rest ++ [o], rfl, ?_, ?_⟩
  · simpa [hopened] using ho.symm
  · rw [List.mem_append, List.mem_singleton, hclosed, hc, eq_comm (a := o)]

theorem Life.add {os : List Occasion} {o : Occasion} (h : Life os false)
    (ho : o = .changed ∨ o = .saved) : Life (os ++ [o]) false := by
  obtain ⟨rest, hrest, rfl⟩ := h
  refine ⟨rest ++ [o], fun o' ho' => ?_, by simp⟩
  rcases List.mem_append.1 ho' with ho' | ho'
  · exact hrest o' ho'
  · exact List.mem_singleton.1 ho' ▸ ho

theorem Life.close {os : List Occasion} (h : Life os false) : Life (os ++ [.closed]) true := by
  obtain ⟨rest, hrest, rfl⟩ := h
  exact ⟨rest, hrest, by simp⟩

variable {past : List Moment} {m : Moment}

theorem occasions_append (d : DocumentId) (past : List Moment) (m : Moment) :
    occasions d (past ++ [m]) = occasions d past ++ (m.occasion? d).toList := by
  rw [occasions, List.filterMap_append, occasions]
  cases h : m.occasion? d <;> simp [h]

/-- What holds of every document in an editor. -/
structure Kept (w : Workbench) (past : List Moment) : Prop where
  filed : w.Filed
  /-- A resource has one place on the shelf. -/
  once : (w.shelf.map (·.1)).Nodup
  unheard : ∀ d, w.documents.size ≤ d → occasions d past = []
  begun : ∀ d < w.documents.size, Begun (occasions d past) (w.doc d).closed
  lives : ∀ d < w.documents.size, (∀ m ∈ past, ¬m.Stale d) →
    Life (occasions d past) (w.doc d).closed
  shelved : ∀ d < w.documents.size, (w.doc d).closed = false →
    w.Shelved d ∨ ∃ m ∈ past, m.Recloses (w.doc d).uri

/-! ### Steps -/

/-- Documents differ in what is written in them only. -/
structure Alike (w w' : Workbench) : Prop where
  size : w'.documents.size = w.documents.size
  shelf : w'.shelf = w.shelf
  uri : ∀ d, (w'.doc d).uri = (w.doc d).uri
  closed : ∀ d, (w'.doc d).closed = (w.doc d).closed

theorem Unmoved.alike (h : Unmoved w w') : Alike w w' :=
  ⟨by rw [h.1], h.2, fun d => by rw [h.doc], fun d => by rw [h.doc]⟩

theorem alike_withDoc {y : Document} (hu : y.uri = (w.doc d).uri)
    (hc : y.closed = (w.doc d).closed) : Alike w (w.withDoc d y) := by
  have hboth (d' : DocumentId) : ((w.withDoc d y).doc d').uri = (w.doc d').uri ∧
      ((w.withDoc d y).doc d').closed = (w.doc d').closed := by
    by_cases hd : d < w.documents.size
    · rcases doc_withDoc_cases (x := y) hd d' with ⟨rfl, h⟩ | ⟨-, h⟩ <;> rw [h]
      · exact ⟨hu, hc⟩
      · exact ⟨rfl, rfl⟩
    · rw [withDoc, Array.setIfInBounds_eq_of_size_le (Nat.le_of_not_lt hd)]
      exact ⟨rfl, rfl⟩
  exact ⟨size_withDoc y, rfl, fun d' => (hboth d').1, fun d' => (hboth d').2⟩

theorem Kept.alike (hk : Kept w past) (h : Alike w w') : Kept w' past where
  filed u d hd := by
    rw [h.shelf] at hd
    rw [h.size, h.uri, h.closed]
    exact hk.filed u d hd
  once := by rw [h.shelf]; exact hk.once
  unheard d hd := hk.unheard d (h.size ▸ hd)
  begun d hd := by rw [h.closed]; exact hk.begun d (h.size ▸ hd)
  lives d hd := by rw [h.closed]; exact hk.lives d (h.size ▸ hd)
  shelved d hd := by
    rw [h.closed, Shelved, h.shelf, h.uri]
    exact hk.shelved d (h.size ▸ hd)

/-- Nobody hears of what came to nothing. -/
theorem Kept.nothing (hk : Kept w past) (hm : m.deed? = none) : Kept w (past ++ [m]) := by
  have hos (d : DocumentId) : occasions d (past ++ [m]) = occasions d past := by
    rw [occasions_append, Moment.occasion?, hm]
    exact List.append_nil _
  refine ⟨hk.filed, hk.once, fun d hd => ?_, fun d hd => ?_, fun d hd h => ?_, fun d hd hc => ?_⟩
  · rw [hos, hk.unheard d hd]
  · rw [hos]
    exact hk.begun d hd
  · rw [hos]
    exact hk.lives d hd fun m' hm' => h m' (List.mem_append_left _ hm')
  · exact (hk.shelved d hd hc).imp_right fun ⟨m', hm', h⟩ => ⟨m', List.mem_append_left _ hm', h⟩

/-- What is heard of other documents stays the same. -/
theorem occasions_of_ne {w₀ : Workbench} (h : δ.document ≠ d) :
    occasions d (past ++ [⟨w₀, x, some δ⟩]) = occasions d past := by
  simp [occasions_append, Moment.occasion?, h]

theorem occasions_of_eq {w₀ : Workbench} (h : δ.document = d) :
    occasions d (past ++ [⟨w₀, x, some δ⟩]) = occasions d past ++ [δ.occasion] := by
  simp [occasions_append, Moment.occasion?, h]

/-- A document that is used is not closed, unless it is named directly. -/
theorem Kept.open_of_names (hk : Kept w past) {n : Name} (hx : x.name? = some n)
    (hn : w.Names d n) {o : Option Deed} (hs : ¬Moment.Stale d ⟨w, x, o⟩) :
    (w.doc d).closed = false := by
  rcases hn.shelved hk.filed with rfl | hd
  · simpa [Moment.Stale, hx] using hs
  · exact (hk.filed _ d hd).2.2

theorem Kept.lt_of_names (hk : Kept w past) {n : Name} (hx : x.name? = some n)
    (hd : ∀ d, x.name? = some (.document d) → d < w.documents.size) (hn : w.Names d n) :
    d < w.documents.size := by
  rcases hn.shelved hk.filed with rfl | h
  · exact hd d hx
  · exact (hk.filed _ d h).1

/-- A document is opened. -/
theorem Kept.opened (hk : Kept w past) (ho : δ.occasion = .opened)
    (hd : δ.document = w.documents.size) (hl : w.shelf.lookup δ.result.uri = none)
    (hc : δ.result.closed = false) (x : Operation) :
    Kept (w.withNew δ.result.uri δ.result) (past ++ [⟨w, x, some δ⟩]) := by
  have hsize : (w.withNew δ.result.uri δ.result).documents.size = w.documents.size + 1 := by
    simp [withNew]
  have hlookup := lookup_withNew (w := w) δ.result.uri (x := δ.result)
  have hnew : Begun [δ.occasion] false ∧ Life [δ.occasion] false := by
    rw [ho]
    exact ⟨⟨[], rfl, by simp, by simp⟩, ⟨[], by simp, rfl⟩⟩
  have hheard : occasions w.documents.size (past ++ [⟨w, x, some δ⟩]) = [δ.occasion] := by
    rw [occasions_of_eq hd, hk.unheard _ (Nat.le_refl _), List.nil_append]
  have hne {d : DocumentId} (h : d < w.documents.size) : δ.document ≠ d := hd ▸ Nat.ne_of_gt h
  -- a document is the new one, or it was there and is as it was
  have hcases {P : DocumentId → Prop} (h₀ : P w.documents.size) (h : ∀ d < w.documents.size, P d)
      (d : DocumentId) (hd : d < (w.withNew δ.result.uri δ.result).documents.size) : P d := by
    rcases Nat.lt_succ_iff_lt_or_eq.1 (hsize ▸ hd) with hlt | rfl
    · exact h d hlt
    · exact h₀
  refine ⟨fun u d h => ?_, ?_, fun d h => ?_, hcases ?_ fun d h => ?_,
    hcases (fun _ => ?_) fun d h hs => ?_, hcases (fun _ => ?_) fun d h hcl => ?_⟩
  · rw [hlookup] at h
    cases hu : w.shelf.lookup u with
    | some d' =>
      rw [hu] at h
      cases h
      obtain ⟨hlt, h⟩ := hk.filed u d hu
      rw [doc_withNew_of_lt hlt, hsize]
      exact ⟨Nat.lt_succ_of_lt hlt, h⟩
    | none =>
      rw [hu, Option.none_or] at h
      split at h
      · rename_i heq
        cases h
        rw [doc_withNew_size, hsize]
        exact ⟨Nat.lt_succ_self _, heq.symm, hc⟩
      · cases h
  · rw [show (w.withNew δ.result.uri δ.result).shelf = w.shelf ++ [(δ.result.uri, _)] from rfl,
      List.map_append, List.map_singleton]
    refine List.nodup_append.2 ⟨hk.once, by simp, fun u hu v hv huv => ?_⟩
    rw [List.mem_singleton.1 hv] at huv
    obtain ⟨e, he, rfl⟩ := List.mem_map.1 hu
    rw [List.lookup_eq_none_iff] at hl
    simpa [← show e.1 = δ.result.uri from huv] using hl e he
  · rw [hsize] at h
    rw [occasions_of_ne (hd ▸ Nat.ne_of_lt h)]
    exact hk.unheard d (Nat.le_of_succ_le h)
  · rw [hheard, doc_withNew_size, hc]
    exact hnew.1
  · rw [occasions_of_ne (hne h), doc_withNew_of_lt h]
    exact hk.begun d h
  · rw [hheard, doc_withNew_size, hc]
    exact hnew.2
  · rw [occasions_of_ne (hne h), doc_withNew_of_lt h]
    exact hk.lives d h fun m hm => hs m (List.mem_append_left _ hm)
  · rw [Shelved, doc_withNew_size, hlookup, hl]
    exact .inl (by simp)
  · rw [doc_withNew_of_lt h] at hcl
    rw [Shelved, doc_withNew_of_lt h, hlookup]
    rcases hk.shelved d h hcl with hs | ⟨m, hm, h⟩
    · rw [show w.shelf.lookup (w.doc d).uri = some d from hs, Option.some_or]
      exact .inl rfl
    · exact .inr ⟨m, List.mem_append_left _ hm, h⟩

/-- What is heard of documents that were there. -/
private theorem heard_cases {w₀ : Workbench} {P : List Occasion → Prop} (h : P (occasions d past))
    (h' : δ.document = d → P (occasions d past ++ [δ.occasion])) :
    P (occasions d (past ++ [⟨w₀, x, some δ⟩])) := by
  by_cases hd : δ.document = d
  · rw [occasions_of_eq hd]
    exact h' hd
  · rw [occasions_of_ne hd]
    exact h

/-- A document is changed or saved. -/
theorem Kept.used (hk : Kept w past) {n : Name} (hx : x.name? = some n)
    (hn : w.Names δ.document n) (hlt : δ.document < w.documents.size)
    (ho : δ.occasion = .changed ∨ δ.occasion = .saved) :
    Kept w (past ++ [⟨w, x, some δ⟩]) where
  filed := hk.filed
  once := hk.once
  unheard d hd := by
    rw [occasions_of_ne (Nat.ne_of_lt (Nat.lt_of_lt_of_le hlt hd))]
    exact hk.unheard d hd
  begun d hd := by
    refine heard_cases (P := (Begun · (w.doc d).closed)) (hk.begun d hd) fun _ => ?_
    exact (hk.begun d hd).add (by rcases ho with h | h <;> simp [h])
      (by rcases ho with h | h <;> simp [h])
  lives d hd hs := by
    have hlife := hk.lives d hd fun m hm => hs m (List.mem_append_left _ hm)
    refine heard_cases (P := (Life · (w.doc d).closed)) hlife ?_
    rintro rfl
    have hc := hk.open_of_names hx hn
      (hs _ (List.mem_append_right _ (List.mem_singleton_self _)))
    rw [hc] at hlife ⊢
    exact hlife.add ho
  shelved d hd hc :=
    (hk.shelved d hd hc).imp_right fun ⟨m, hm, h⟩ => ⟨m, List.mem_append_left _ hm, h⟩

/-- A document is closed. -/
theorem Kept.closed (hk : Kept w past) {n : Name} (hx : x = .close n)
    (hn : w.Names δ.document n) (hlt : δ.document < w.documents.size) (ho : δ.occasion = .closed) :
    Kept (w.withoutDoc δ.document) (past ++ [⟨w, x, some δ⟩]) := by
  have hname : x.name? = some n := by rw [hx]; rfl
  have hsize : (w.withoutDoc δ.document).documents.size = w.documents.size := by
    simp [withoutDoc]
  have hlookup (v : Uri) : (w.withoutDoc δ.document).shelf.lookup v =
      if v = (w.doc δ.document).uri then none else w.shelf.lookup v :=
    lookup_filter_ne w.shelf _ v
  have hself : (w.withoutDoc δ.document).doc δ.document =
      { w.doc δ.document with closed := true } := doc_withDoc (by exact hlt) _
  have hold {u : Uri} (h : ∃ m ∈ past, m.Recloses u) :
      ∃ m ∈ past ++ [⟨w, x, some δ⟩], m.Recloses u := by
    obtain ⟨m, hm, h⟩ := h
    exact ⟨m, List.mem_append_left _ hm, h⟩
  refine ⟨fun v d h => ?_, ?_, fun d hd => ?_, fun d hd => ?_, fun d hd hs => ?_,
    fun d hd hc => ?_⟩
  · rw [hlookup] at h
    split at h
    · cases h
    · rename_i hne
      obtain ⟨hd, rfl, hc⟩ := hk.filed v d h
      rw [hsize, doc_withoutDoc_of_ne fun e => hne (by rw [e])]
      exact ⟨hd, rfl, hc⟩
  · exact hk.once.sublist (List.filter_sublist.map _)
  · rw [hsize] at hd
    rw [occasions_of_ne (Nat.ne_of_lt (Nat.lt_of_lt_of_le hlt hd))]
    exact hk.unheard d hd
  · have hbegun := hk.begun d (hsize ▸ hd)
    by_cases hne : δ.document = d
    · subst hne
      rw [occasions_of_eq rfl, hself]
      exact hbegun.add (by simp [ho]) (by simp [ho])
    · rw [occasions_of_ne hne, doc_withoutDoc_of_ne hne]
      exact hbegun
  · have hlife := hk.lives d (hsize ▸ hd) fun m hm => hs m (List.mem_append_left _ hm)
    by_cases hne : δ.document = d
    · subst hne
      rw [hk.open_of_names hname hn (hs _ (List.mem_append_right _ (List.mem_singleton_self _)))]
        at hlife
      rw [occasions_of_eq rfl, hself, ho]
      exact hlife.close
    · rw [occasions_of_ne hne, doc_withoutDoc_of_ne hne]
      exact hlife
  · have hne : δ.document ≠ d := by
      rintro rfl
      rw [hself] at hc
      cases hc
    rw [doc_withoutDoc_of_ne hne] at hc
    rw [Shelved, doc_withoutDoc_of_ne hne, hlookup]
    refine (hk.shelved d (hsize ▸ hd) hc).elim (fun hs => ?_) fun h => .inr (hold h)
    by_cases hu : (w.doc d).uri = (w.doc δ.document).uri
    · -- another document has the place, so the one that is closed was named directly
      have hns : ¬w.Shelved δ.document := fun h => by
        rw [Shelved, ← hu] at h
        exact hne (Option.some.inj (h.symm.trans hs))
      have hhandle := (hn.shelved hk.filed).resolve_right hns
      rw [hu]
      by_cases hcd : (w.doc δ.document).closed = true
      · exact .inr ⟨_, List.mem_append_right _ (List.mem_singleton_self _),
          δ.document, by rw [hx, hhandle], hcd, rfl⟩
      · exact .inr (hold ((hk.shelved _ hlt (by simpa using hcd)).resolve_left hns))
    · rw [if_neg hu]
      exact .inl hs

/-! ### Runs -/

/-- Whatever is done is in the history, and documents stay in order. -/
theorem Kept.comes (hk : Kept w past) (hδ : x.Does w δ)
    (hd : ∀ d, x.name? = some (.document d) → d < w.documents.size) :
    Kept (δ.put w) (past ++ [⟨w, x, some δ⟩]) := by
  unfold Deed.put
  rcases hδ.cases with ⟨ho, hd, hl, hc⟩ | ⟨n, hx, hn, hu, ⟨ho, hc⟩ | ⟨ho, hclose⟩⟩
  · rw [ho]
    exact hk.opened ho hd hl hc x
  · have hused := (hk.used hx hn (hk.lt_of_names hx hd hn) ho).alike (alike_withDoc hu hc)
    rcases ho with ho | ho <;> rw [ho] <;> exact hused
  · rw [ho]
    exact hk.closed hclose hn (hk.lt_of_names hx hd hn) ho

theorem History.kept (h : History w past) : Kept w past := by
  have hacts {w : Workbench} {past : List Moment} {x : Operation} (hk : Kept w past)
      (hx : x.OfDocuments) (hd : ∀ d, x.name? = some (.document d) → d < w.documents.size) :=
    Operation.act_does hx fun n d hn hnd => hk.lt_of_names hn hd hnd
  induction h with
  | fresh hd hs =>
    refine ⟨fun u d h => ?_, ?_, fun d _ => rfl, fun d h => ?_, fun d h => ?_, fun d h => ?_⟩
    · simp [hs] at h
    · simp [hs]
    all_goals simp [hd] at h
  | does h x hx hd δ hδ j ih =>
    rcases hacts ih hx hd j with ⟨δ', hδ', s, hs, -⟩ | ⟨hn, -⟩
    · cases hδ.unique hδ'
      exact (ih.comes hδ hd).alike (hs.elim ((unmoved_tell δ).ends _)).alike
    · exact absurd hδ (hn δ)
  | fails h x hx hd hn j ih =>
    rcases hacts ih hx hd j with ⟨δ, hδ, -⟩ | ⟨-, d, text, ht⟩
    · exact absurd hδ (hn δ)
    · rw [ht]
      exact (ih.nothing rfl).alike (alike_withDoc rfl rfl)
  | meanwhile h h' ih => exact ih.alike h'.alike

/-- Everything in a history is heard as its operation tells it. -/
theorem History.heard (h : History w past) : ∀ m ∈ past, m.Heard := by
  induction h with
  | fresh => exact List.forall_mem_nil _
  | @does w past h x hx hd δ hδ j ih =>
    refine List.forall_mem_append.2 ⟨ih, List.forall_mem_singleton.2 ?_⟩
    refine (Operation.act_does hx fun n d hn => h.kept.lt_of_names hn hd).mono fun r w' hcomes => ?_
    obtain ⟨δ', hδ', htold⟩ | ⟨hnone, -⟩ := hcomes
    · exact hδ.unique hδ' ▸ htold
    · exact absurd hδ (hnone δ)
  | @fails w past h x hx hd hn j ih =>
    refine List.forall_mem_append.2 ⟨ih, List.forall_mem_singleton.2 ?_⟩
    refine (Operation.act_does hx fun n d hn => h.kept.lt_of_names hn hd).mono fun r w' hcomes => ?_
    obtain ⟨δ, hδ, -⟩ | ⟨-, hretexted⟩ := hcomes
    · exact absurd hδ (hn δ)
    · exact hretexted
  | meanwhile _ _ ih => exact ih

/-- **The life of documents.**  What is on the shelf is not closed, and is there under its own name
only.  Listeners hear of a document what operations tell them, each deed once and by the event of
its occasion.  What is heard of a document begins with its opening, the only one.  If nobody names it
directly once it is closed, its closing is the last thing that is heard of it, and before that it
is changed and saved.  A document that is not closed stays on the shelf as long as no closed one
of its name is closed again. -/
theorem History.documentLives (h : History w past) :
    (∀ u d, w.shelf.lookup u = some d →
      d < w.documents.size ∧ (w.doc d).uri = u ∧ (w.doc d).closed = false) ∧
    (w.shelf.map (·.1)).Nodup ∧
    (∀ m ∈ past, m.Heard) ∧
    (∀ d, w.documents.size ≤ d → occasions d past = []) ∧
    ∀ d < w.documents.size,
      Begun (occasions d past) (w.doc d).closed ∧
      ((∀ m ∈ past, ¬m.Stale d) → Life (occasions d past) (w.doc d).closed) ∧
      ((∀ m ∈ past, ¬m.Recloses (w.doc d).uri) → (w.Shelved d ↔ (w.doc d).closed = false)) := by
  have hk := h.kept
  refine ⟨hk.filed, hk.once, h.heard, hk.unheard,
    fun d hd => ⟨hk.begun d hd, hk.lives d hd, fun hr => ?_⟩⟩
  refine ⟨fun hs => (hk.filed _ d hs).2.2, fun hc => (hk.shelved d hd hc).resolve_right ?_⟩
  rintro ⟨m, hm, h⟩
  exact hr m hm h

/-- A file, opened by its name. -/
private def file : Uri := { scheme := "file", path := "/x" }

private abbrev opensFile : Operation := .opening { name := .uri file, text := [] }

private abbrev closesFirst : Operation := .close (.document 0)

/-- The editor after an operation. -/
private def next (w : Workbench) (x : Operation) : Workbench := (x.act ⟨{}, w⟩).2.state

/-- A file is opened, its document is closed, and the file is opened anew. -/
private theorem history_anew : ∃ past,
    History (next (next (next {} opensFile) closesFirst) opensFile) past ∧
      occasions 0 past = [.opened, .closed] ∧
      ∀ m ∈ past, ∀ d, m.operation.name? = some (.document d) →
        (m.workbench.doc d).closed = false := by
  have h₁ := (History.fresh (w := {}) rfl rfl).does opensFile trivial nofun _
    (.opening (u := file) rfl rfl) {}
  have h₂ := h₁.does closesFirst trivial (fun d h => by cases h; decide) _ (.close rfl) {}
  have h₃ := h₂.does opensFile trivial nofun _ (.opening (u := file) rfl (by decide)) {}
  refine ⟨_, h₃, by decide, fun m hm d hd => ?_⟩
  simp only [List.nil_append, List.cons_append, List.mem_cons, List.not_mem_nil, or_false] at hm
  rcases hm with rfl | rfl | rfl <;> cases hd
  decide

/-- A file that is opened anew is on the shelf, and its first document has lived. -/
theorem documentLives_anew : ∃ w past, History w past ∧ occasions 0 past = [.opened, .closed] ∧
    Life (occasions 0 past) (w.doc 0).closed ∧ w.Shelved 1 := by
  obtain ⟨past, h, hos, hopen⟩ := history_anew
  have hstale (d : DocumentId) : ∀ m ∈ past, ¬m.Stale d := fun m hm hs =>
    Bool.false_ne_true ((hopen m hm d hs.1).symm.trans hs.2)
  have hreclosed (u : Uri) : ∀ m ∈ past, ¬m.Recloses u := fun m hm hr => by
    obtain ⟨d, hx, hc, -⟩ := hr
    exact hstale d m hm ⟨by rw [hx]; rfl, hc⟩
  exact ⟨_, past, h, hos, (h.documentLives.2.2.2.2 0 (by decide +kernel)).2.1 (hstale 0),
    ((h.documentLives.2.2.2.2 1 (by decide +kernel)).2.2 (hreclosed _)).2 (by decide +kernel)⟩

/-- **Closing a closed document** is heard of once more, and takes the document off the shelf that
was opened in its place. -/
theorem not_documentLives_reclosed : ∃ w past, History w past ∧
    occasions 0 past = [.opened, .closed, .closed] ∧ (∀ closed, ¬Life (occasions 0 past) closed) ∧
    1 < w.documents.size ∧ (w.doc 1).closed = false ∧ ¬w.Shelved 1 := by
  obtain ⟨past, h, hos, -⟩ := history_anew
  obtain ⟨past', h', hos'⟩ : ∃ past', History (next (next (next (next {} opensFile) closesFirst)
      opensFile) closesFirst) past' ∧ occasions 0 past' = [.opened, .closed, .closed] :=
    ⟨_, h.does closesFirst trivial (fun d h => by cases h; decide +kernel) _ (.close rfl) {},
      by rw [occasions_append, hos]; rfl⟩
  refine ⟨_, past', h', hos', fun closed hl => ?_, by decide +kernel, by decide +kernel, ?_⟩
  · rw [hos'] at hl
    obtain ⟨rest, hrest, hl⟩ := hl
    cases rest with
    | nil => cases closed <;> simp at hl
    | cons o rest =>
      obtain ⟨rfl, -⟩ : .closed = o ∧ _ := by simpa using hl
      simpa using hrest .closed (by simp)
  · unfold Shelved
    decide +kernel

end Workbench

end EditorBridge
