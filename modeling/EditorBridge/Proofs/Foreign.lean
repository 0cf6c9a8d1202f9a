/-
Documents of other schemes are invisible.

Two runs are compared: in the second everything is left out that is done to documents whose
scheme is not configured, or asked about them (`Twins`).  The second workbench is at all
times the first without these documents (`Cleaned`), so what is left of the run does the
same in both: a relay or a query looks at one document only, and at what the server was
told before.
-/
import EditorBridge.Proofs.Editor.Cleaned
import EditorBridge.Proofs.Queries

namespace EditorBridge

open Act (Ends Abreast Definite Same)

namespace Workbench

variable {S : List String} {w w' : Workbench}

/-! ### Operations -/

namespace Operation

variable {x : Operation}

/-- The same operation when documents are numbered in another way. -/
def renumber (f : DocumentId → DocumentId) : Operation → Operation
  | opening o => opening (o.renumber f)
  | edit n edits => edit (n.renumber f) edits
  | insert n p text => insert (n.renumber f) p text
  | replaceAll n text => replaceAll (n.renumber f) text
  | save n => save (n.renumber f)
  | close n => close (n.renumber f)
  | x => x

/-- The name of the document that is opened, or that something is done to. -/
def about? : Operation → Option Name
  | opening o => some o.name
  | x => x.name?

/-- An operation comes to the same on both sides, unless it is about a document of another
scheme. -/
theorem act_abreast (h : Cleaned S w w') (hx : x.OfDocuments)
    (hfits : ∀ n, x.about? = some n → n.Fits w)
    (hown : ∀ n u, x.about? = some n → n.Means w u → S.contains u.scheme = true) :
    Abreast x.act (x.renumber (w.rank S)).act w w' (Same (Cleaned S)) := by
  have hforget {α β : Type} {a : Act Workbench α} {b : Act Workbench β}
      (h : Abreast a b w w' (Agree (Cleaned S))) :
      Abreast (do let _ ← a) (do let _ ← b) w w' (Same (Cleaned S)) := by
    refine .bind (h.mono fun r s y t hr => ?_)
    obtain ⟨hs, hr⟩ := hr
    match r, y, hr with
    | .error f, .error _, rfl => exact ⟨rfl, hs⟩
    | .ok _, .ok _, _ => exact .pure ⟨rfl, hs⟩
  cases x with
  | opening o => exact hforget (h.openDocument o (hfits _ rfl) (hown _ · rfl))
  | edit n edits => exact hforget (h.edit (hfits _ rfl) (hown _ · rfl) edits)
  | insert n p text => exact hforget (h.edit (hfits _ rfl) (hown _ · rfl) _)
  | replaceAll n text => exact hforget (h.replaceAll (hfits _ rfl) (hown _ · rfl) text)
  | save n => exact hforget (h.save (hfits _ rfl) (hown _ · rfl))
  | close n => exact hforget (h.close (hfits _ rfl) (hown _ · rfl))
  | _ => cases hx

/-- An operation on a document of another scheme can be left out. -/
theorem act_foreign (h : Cleaned S w w') (hx : x.OfDocuments) {n : Name} (hn : x.about? = some n)
    (hfits : n.Fits w) {u : Uri} (hu : n.Means w u) (hforeign : S.contains u.scheme = false) :
    Ends x.act w fun _ s => Cleaned S s w' := by
  cases x <;> cases hn
  case opening o => exact .ignore (h.openDocument_foreign o hu hforeign)
  case edit edits => exact .ignore (h.edit_foreign hfits hu hforeign edits)
  case insert => exact .ignore (h.edit_foreign hfits hu hforeign _)
  case replaceAll text => exact .ignore (h.replaceAll_foreign hfits hu hforeign text)
  case save => exact .ignore (h.save_foreign hfits hu hforeign)
  case close => exact .ignore (h.close_foreign hfits hu hforeign)

end Operation

/-! ### Queries -/

/-- A query about a document that both sides have begins in the same way. -/
theorem Paired.askProxy {d d' : DocumentId} (h : Paired S d d' w w') (n : Nat) (q : Query)
    (p : Position) (token : Option TokenId) :
    Abreast (askProxy n q d p token) (askProxy n q d' p token) w w' (Same (Cleaned S)) := by
  obtain ⟨hproxy, htrackers, hlink⟩ : w'.proxies.getD n default = w.proxies.getD n default ∧
      w'.trackers = w.trackers ∧ w'.link = w.link := by
    have hrest := h.rest
    rw [hrest]
    exact ⟨rfl, rfl, rfl⟩
  refine .read (.read (.on ?_))
  rw [show w'.documents.getD d' default = w.documents.getD d default from h.doc_eq, hproxy,
    htrackers, hlink]
  exact Definite.of_same (Definite.abreast _) fun r s => ⟨rfl, h.toCleaned.congr _ _⟩

/-- **A query about a document of another scheme** is not answered, and nothing else happens. -/
theorem askProxy_foreign {n : Nat} {q : Query} {d : DocumentId} {p : Position}
    {token : Option TokenId} (hn : (w.proxies.getD n default).schemes = S)
    (hd : S.contains (w.doc d).uri.scheme = false) :
    Ends (askProxy n q d p token) w fun r s => r = .ok (.done .nothing) ∧ s = w := by
  have hforeign : ¬(w.doc d).takesPart (w.proxies.getD n default).schemes = true := by
    rw [hn, Document.takesPart, hd]
    exact Bool.false_ne_true
  refine .read (.read (.on ?_))
  refine (Query.tracedAsk_aside hforeign _).mono fun r s hr => ?_
  obtain ⟨hr, rfl⟩ := hr
  refine ⟨hr, ?_⟩
  dsimp only
  rw [setIfInBounds_getD]

/-! ### What is done with the editor -/

/-- What can be done with the editor. -/
inductive Doing where
  | operates (x : Operation)
  | asks (proxy : Nat) (q : Query) (d : DocumentId) (p : Position) (token : Option TokenId)
  /-- A query that waited goes on: what it waited for has ended in some way. -/
  | resumes (rest : List Resumption) (r : Except Failure Reply)

namespace Doing

variable {x : Doing}

/-- What is done, and what it comes to. -/
def act : Doing → Act Workbench Step
  | operates x => do
    x.act
    return .done .nothing
  | asks n q d p token => askProxy n q d p token
  | resumes rest r => resumeAll rest r

/-- The same when documents are numbered in another way. -/
def renumber (f : DocumentId → DocumentId) : Doing → Doing
  | operates x => operates (x.renumber f)
  | asks n q d p token => asks n q (f d) p token
  | x => x

/-- The name of the document that it is about. -/
def about? : Doing → Option Name
  | operates x => x.about?
  | asks _ _ d _ _ => some (.document d)
  | resumes _ _ => none

/-- It is an operation on documents, a query to somebody who is set to the schemes, or what a query
has left to do. -/
def Known (S : List String) (w : Workbench) : Doing → Prop
  | operates x => x.OfDocuments
  | asks n _ _ _ _ => (w.proxies.getD n default).schemes = S
  | resumes rest _ => ∃ q token, Query.Left q token rest

/-- It can be done: documents that are named directly are there. -/
structure Fits (S : List String) (w : Workbench) (x : Doing) : Prop where
  there : ∀ n, x.about? = some n → n.Fits w
  known : x.Known S w

/-- It is about a document whose scheme is not one of these. -/
def Foreign (S : List String) (w : Workbench) (x : Doing) : Prop :=
  ∃ n u, x.about? = some n ∧ n.Means w u ∧ S.contains u.scheme = false

/-- What is about no document of another scheme comes to the same on both sides. -/
theorem act_own (h : Cleaned S w w') (hx : x.Fits S w) (hown : ¬x.Foreign S w) {j j' : Journal}
    (hj : j.Like j') :
    Same (Cleaned S) (x.act ⟨j, w⟩).1 (x.act ⟨j, w⟩).2.state
      ((x.renumber (w.rank S)).act ⟨j', w'⟩).1
      ((x.renumber (w.rank S)).act ⟨j', w'⟩).2.state := by
  have hown (n : Name) (u : Uri) (hn : x.about? = some n) (hu : n.Means w u) :
      S.contains u.scheme = true := by
    by_contra hs
    exact hown ⟨n, u, hn, hu, (Bool.not_eq_true _).mp hs⟩
  obtain ⟨hthere, hknown⟩ := hx
  cases x with
  | operates x =>
    have hact := Operation.act_abreast h hknown hthere hown
    have hdone : Abreast (operates x).act ((operates x).renumber (w.rank S)).act w w'
        (Same (Cleaned S)) := by
      refine .bind (hact.mono fun r s y t hr => ?_)
      obtain ⟨rfl, hs⟩ := hr
      cases r with
      | error f => exact ⟨rfl, hs⟩
      | ok _ => exact .pure ⟨rfl, hs⟩
    exact (hdone j j' hj).2.2
  | asks n q d p token =>
    have hpaired : Paired S d (w.rank S d) w w' := ⟨h, hthere _ rfl, hown _ _ rfl rfl, rfl⟩
    exact (hpaired.askProxy n q p token j j' hj).2.2
  | resumes rest r =>
    obtain ⟨q, token, hleft⟩ := hknown
    obtain ⟨hs, hr⟩ := hleft.resumeAll_heard r w j
    obtain ⟨hs', hr'⟩ := hleft.resumeAll_heard r w' j'
    have hlink : w'.link = w.link := by rw [h.rest]
    refine ⟨?_, ?_⟩
    · exact hr.trans (by rw [← hlink]; exact hr'.symm)
    · show Cleaned S (resumeAll rest r ⟨j, w⟩).2.state (resumeAll rest r ⟨j', w'⟩).2.state
      rw [hs, hs']
      exact h

/-- What is about a document of another scheme can be left out, and is not answered if it is a
query. -/
theorem act_foreign (h : Cleaned S w w') (hx : x.Fits S w) (hforeign : x.Foreign S w) :
    Ends x.act w fun r s => Cleaned S s w' ∧
      ((∃ n q d p token, x = asks n q d p token) → r = .ok (.done .nothing)) := by
  obtain ⟨n, u, hn, hu, hs⟩ := hforeign
  obtain ⟨hthere, hknown⟩ := hx
  cases x with
  | operates x =>
    refine .bind ((Operation.act_foreign h hknown hn (hthere n hn) hu hs).mono fun r s hr => ?_)
    cases r with
    | error f => exact ⟨hr, nofun⟩
    | ok _ => exact .pure ⟨hr, nofun⟩
  | asks n q d p token =>
    cases hn
    cases hu
    refine (askProxy_foreign hknown hs).mono fun r s hr => ?_
    obtain ⟨rfl, rfl⟩ := hr
    exact ⟨h, fun _ => rfl⟩
  | resumes rest r => cases hn

end Doing

/-! ### Runs -/

/-- Two runs of the editor: in the second everything is left out that is about documents whose
scheme is not configured. -/
inductive Twins (S : List String) : Workbench → Workbench → Prop
  /-- Nothing has been opened, and the relays that listen are set to the schemes. -/
  | start {w : Workbench} (hdocuments : w.documents = #[]) (hshelf : w.shelf = [])
    (hheeds : ∀ e ∈ w.events, ∀ n, .relay n ∈ e.listeners →
      (w.relays.getD n default).relay.schemes = S) : Twins S w w
  /-- Something is left out in the second run. -/
  | deleted {w w' : Workbench} (h : Twins S w w') {x : Doing} (hx : x.Fits S w)
    (hforeign : x.Foreign S w) (j : Journal) : Twins S (x.act ⟨j, w⟩).2.state w'
  /-- The same is done in both runs, where the documents have other numbers in the second one. -/
  | kept {w w' : Workbench} (h : Twins S w w') {x : Doing} (hx : x.Fits S w)
    (hown : ¬x.Foreign S w) {j j' : Journal} (hj : j.Like j') :
    Twins S (x.act ⟨j, w⟩).2.state ((x.renumber (w.rank S)).act ⟨j', w'⟩).2.state
  /-- Anything that happens to what lies below the editor, depending on it only: answers come,
  time passes, trackers are cleared, queries are cancelled, and it is decided anew which
  messages fail. -/
  | meanwhile {w w' : Workbench} (h : Twins S w w')
    (g : Array Tracker × Link → Array Tracker × Link) :
    Twins S { w with trackers := (g (w.trackers, w.link)).1, link := (g (w.trackers, w.link)).2 }
      { w' with
        trackers := (g (w'.trackers, w'.link)).1, link := (g (w'.trackers, w'.link)).2 }

namespace Twins

theorem cleaned (h : Twins S w w') : Cleaned S w w' := by
  induction h with
  | @start w hdocuments hshelf hheeds =>
    refine ⟨?_, fun u _ => ?_, rfl, fun u d hd => ?_, hheeds⟩
    · rw [hdocuments]
      rfl
    · rw [hshelf]
      rfl
    · rw [hshelf] at hd
      cases hd
  | deleted h hx hforeign j ih => exact (Doing.act_foreign ih hx hforeign j).1
  | kept h hx hown hj ih => exact (Doing.act_own ih hx hown hj).2
  | @meanwhile w w' h g ih =>
    rw [show w'.trackers = w.trackers by rw [ih.rest], show w'.link = w.link by rw [ih.rest]]
    exact ih.congr _ _

/-- **Foreign schemes are invisible.**  Leaving out what is about documents of other schemes changes
nothing about the link, and so about the messages that were sent, nor about the trackers.  A
query that is left out is not answered, and all others come to the same. -/
theorem invisible (h : Twins S w w') : w'.link = w.link ∧ w'.trackers = w.trackers ∧
    ∀ x : Doing, x.Fits S w →
      (x.Foreign S w → ∀ j, (x.act ⟨j, w⟩).2.state.link = w.link ∧
        (x.act ⟨j, w⟩).2.state.trackers = w.trackers ∧
        ((∃ n q d p token, x = .asks n q d p token) →
          (x.act ⟨j, w⟩).1 = .ok (.done .nothing))) ∧
      (¬x.Foreign S w → ∀ j j', j.Like j' →
        ((x.renumber (w.rank S)).act ⟨j', w'⟩).1 = (x.act ⟨j, w⟩).1) := by
  have hsame {s : Workbench} (hs : Cleaned S s w') :
      w'.link = s.link ∧ w'.trackers = s.trackers := by
    rw [hs.rest]
    exact ⟨rfl, rfl⟩
  have hclean := h.cleaned
  obtain ⟨hlink, htrackers⟩ := hsame hclean
  refine ⟨hlink, htrackers, fun x hx => ⟨fun hforeign j => ?_, fun hown j j' hj => ?_⟩⟩
  · obtain ⟨hs, hnothing⟩ := Doing.act_foreign hclean hx hforeign j
    obtain ⟨hlink', htrackers'⟩ := hsame hs
    exact ⟨hlink'.symm.trans hlink, htrackers'.symm.trans htrackers, hnothing⟩
  · exact (Doing.act_own hclean hx hown hj).1.symm

/-- A bridge whose relay listens, for files. -/
def attended : Workbench where
  link := { recording := true }
  onOpen := ⟨[.relay 0]⟩
  onChange := ⟨[.relay 0]⟩
  onSave := ⟨[.relay 0]⟩
  onClose := ⟨[.relay 0]⟩
  trackers := #[{}]
  relays := #[{ relay := { schemes := ["file"], formatting := .null }, tracker := 0 }]
  proxies := #[{ schemes := ["file"], tracker := 0 }]

/-- Opens an empty document. -/
def opens (scheme : String) : Doing :=
  .operates (.opening { name := .uri { scheme, path := "/x" }, text := [] })

theorem fits_opens (scheme : String) (w : Workbench) : (opens scheme).Fits S w :=
  ⟨fun n hn => by cases hn; trivial, trivial⟩

/-- A note that is not a file is opened. -/
def noted : Workbench := ((opens "untitled").act ⟨{}, attended⟩).2.state

/-- A file is opened after it. -/
def notedAndOpened : Workbench := ((opens "file").act ⟨{}, noted⟩).2.state

/-- A file is opened without it. -/
def justOpened : Workbench := ((opens "file").act ⟨{}, attended⟩).2.state

theorem twins_justOpened : Twins ["file"] notedAndOpened justOpened := by
  have hstart : Twins ["file"] attended attended := by
    refine .start rfl rfl fun e he n hn => ?_
    simp only [events, attended, List.mem_cons, List.not_mem_nil, or_false, or_self] at he
    subst he
    obtain rfl : n = 0 := by simpa using hn
    rfl
  have hnoted : Twins ["file"] noted attended :=
    hstart.deleted (fits_opens _ _) ⟨_, _, rfl, rfl, by decide⟩ {}
  refine hnoted.kept (fits_opens "file" _) ?_ (.refl {})
  rintro ⟨n, u, hn, hu, hs⟩
  cases hn
  cases hu
  exact absurd hs (by decide)

/-- A question about the note has no answer, and one about the file has the same in both runs, where
the file has another number. -/
theorem invisible_note : justOpened.link = notedAndOpened.link ∧
    (askProxy 0 .hover 0 ⟨0, 0⟩ none ⟨{}, notedAndOpened⟩).1 = .ok (.done .nothing) ∧
    (askProxy 0 .hover 0 ⟨0, 0⟩ none ⟨{}, justOpened⟩).1 =
      (askProxy 0 .hover 1 ⟨0, 0⟩ none ⟨{}, notedAndOpened⟩).1 := by
  have hasks (d : DocumentId) (hd : d < 2) :
      (Doing.asks 0 .hover d ⟨0, 0⟩ none).Fits ["file"] notedAndOpened := by
    have hsize : notedAndOpened.documents.size = 2 := by decide +kernel
    have hproxy : (notedAndOpened.proxies.getD 0 default).schemes = ["file"] := by decide +kernel
    refine ⟨fun n hn => ?_, hproxy⟩
    cases hn
    show d < notedAndOpened.documents.size
    rw [hsize]
    exact hd
  obtain ⟨hlink, -, hall⟩ := twins_justOpened.invisible
  refine ⟨hlink, ?_, ?_⟩
  · have hnote : (Doing.asks 0 .hover 0 ⟨0, 0⟩ none).Foreign ["file"] notedAndOpened :=
      ⟨_, _, rfl, rfl, by decide +kernel⟩
    exact ((hall _ (hasks 0 (by decide))).1 hnote {}).2.2 ⟨_, _, _, _, _, rfl⟩
  · have hfile : ¬(Doing.asks 0 .hover 1 ⟨0, 0⟩ none).Foreign ["file"] notedAndOpened := by
      rintro ⟨n, u, hn, hu, hs⟩
      cases hn
      cases hu
      exact absurd hs (by decide +kernel)
    have hrank : notedAndOpened.rank ["file"] 1 = 0 := by decide +kernel
    have hsame := (hall _ (hasks 1 (by decide))).2 hfile {} {} (.refl {})
    rw [Doing.renumber, hrank] at hsame
    exact hsame

end Twins

end Workbench

end EditorBridge
