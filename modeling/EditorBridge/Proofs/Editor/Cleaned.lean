/-
A workbench without the documents of other schemes.

Two workbenches are compared: the second is the first without the documents whose scheme is
not configured (`Cleaned`).  Documents are numbered as they are opened, so a document has
another number there: that of the configured ones before it (`Workbench.rank`).  What is
done to a document of another scheme changes only what the second workbench does not have, and
what is done to any other document does the same on both sides.

A document is followed through an operation in one of two ways.  It is `Paired` if both
workbenches have it, and then both go on together.  It is `Lone` if the second does not, and
then the first goes on alone.
-/
import EditorBridge.Proofs.Editor.Deeds
import EditorBridge.Proofs.Link.Definite
import EditorBridge.Proofs.Lists

namespace EditorBridge

open Act (Ends Abreast Definite Same)

namespace Workbench

variable {S : List String} {w w' : Workbench} {d d' : DocumentId} {x : Document}

/-! ### The second run -/

/-- The number of the documents with one of the schemes that come before a document. -/
def rank (S : List String) (w : Workbench) (d : DocumentId) : DocumentId :=
  (w.documents.toList.take d).countP (·.takesPart S)

/-- The second workbench is the first without the documents that have none of the schemes: neither
these documents nor what observers noted are compared. -/
structure Cleaned (S : List String) (w w' : Workbench) : Prop where
  documents : w'.documents.toList = w.documents.toList.filter (·.takesPart S)
  shelf : ∀ u : Uri, S.contains u.scheme = true →
    w'.shelf.lookup u = (w.shelf.lookup u).map (w.rank S)
  rest : w' = { w with documents := w'.documents, shelf := w'.shelf, sightings := w'.sightings }
  filed : ∀ u d, w.shelf.lookup u = some d → d < w.documents.size ∧ (w.doc d).uri = u
  heeds : ∀ e ∈ w.events, ∀ n, .relay n ∈ e.listeners →
    (w.relays.getD n default).relay.schemes = S

/-- A document that both runs have. -/
structure Paired (S : List String) (d d' : DocumentId) (w w' : Workbench) : Prop
    extends Cleaned S w w' where
  lt : d < w.documents.size
  takesPart : (w.doc d).takesPart S = true
  rank_eq : w.rank S d = d'

/-- A document that the second run does not have. -/
structure Lone (S : List String) (d : DocumentId) (w w' : Workbench) : Prop
    extends Cleaned S w w' where
  lt : d < w.documents.size
  foreign : (w.doc d).takesPart S = false

theorem getElem?_documents (h : d < w.documents.size) :
    w.documents.toList[d]? = some (w.doc d) := by
  simp [doc, h]

theorem takesPart_of_uri {x y : Document} (h : x.uri = y.uri) : x.takesPart S = y.takesPart S := by
  rw [Document.takesPart, Document.takesPart, h]

theorem rank_withDoc (hd : d < w.documents.size) (hx : x.uri = (w.doc d).uri) (k : DocumentId) :
    (w.withDoc d x).rank S k = w.rank S k := by
  unfold rank withDoc
  rw [Array.toList_setIfInBounds]
  exact countP_take_set (getElem?_documents hd) (takesPart_of_uri hx) k

theorem uri_withDoc (hx : x.uri = (w.doc d).uri) (k : DocumentId) :
    ((w.withDoc d x).doc k).uri = (w.doc k).uri := by
  by_cases hk : d = k
  · subst hk
    by_cases hd : d < w.documents.size
    · rw [doc_withDoc hd, hx]
    · simp [withDoc, doc, hd]
  · rw [doc_withDoc_of_ne hk]

namespace Cleaned

theorem size (h : Cleaned S w w') : w.rank S w.documents.size = w'.documents.size := by
  rw [rank, ← Array.length_toList, List.take_length, List.countP_eq_length_filter, ← h.documents,
    Array.length_toList]

/-- Whatever is done to trackers and to the link is done on both sides. -/
theorem congr (h : Cleaned S w w') (trackers : Array Tracker) (link : Link) :
    Cleaned S { w with trackers, link } { w' with trackers, link } := by
  refine ⟨h.documents, h.shelf, ?_, h.filed, h.heeds⟩
  have hrest := h.rest
  rw [hrest]

/-- Observers may note what they like. -/
theorem noted (h : Cleaned S w w') (noted noted' : List Sighting) :
    Cleaned S { w with sightings := noted } { w' with sightings := noted' } := by
  refine ⟨h.documents, h.shelf, ?_, h.filed, h.heeds⟩
  have hrest := h.rest
  rw [hrest]

theorem withDoc (h : Cleaned S w w') (hd : d < w.documents.size) (hx : x.uri = (w.doc d).uri)
    {documents : Array Document}
    (hdocs : documents.toList = (w.withDoc d x).documents.toList.filter (·.takesPart S)) :
    Cleaned S (w.withDoc d x) { w' with documents } where
  documents := hdocs
  shelf u hu := by
    rw [show (w.withDoc d x).rank S = w.rank S from funext (rank_withDoc hd hx)]
    exact h.shelf u hu
  rest := by
    have hrest := h.rest
    rw [hrest]
    rfl
  filed u k hk := by
    obtain ⟨hlt, huri⟩ := h.filed u k hk
    exact ⟨by simpa using hlt, (uri_withDoc hx k).trans huri⟩
  heeds := h.heeds

end Cleaned

namespace Paired

theorem getElem? (h : Paired S d d' w w') : w'.documents.toList[d']? = some (w.doc d) := by
  rw [h.documents, ← h.rank_eq]
  exact getElem?_filter_countP (getElem?_documents h.lt) h.takesPart

/-- It is the same document. -/
theorem doc_eq (h : Paired S d d' w w') : w'.doc d' = w.doc d := by
  have hget := h.getElem?
  rw [Array.getElem?_toList] at hget
  simp [doc, hget]

/-- It is changed on both sides. -/
theorem withDoc (h : Paired S d d' w w') (hx : x.uri = (w.doc d).uri) :
    Paired S d d' (w.withDoc d x) (w'.withDoc d' x) := by
  have htakes : x.takesPart S = true := (takesPart_of_uri hx).trans h.takesPart
  refine ⟨h.toCleaned.withDoc h.lt hx ?_, by simpa using h.lt, ?_, ?_⟩
  · show (w'.documents.setIfInBounds d' x).toList = (w.documents.setIfInBounds d x).toList.filter _
    rw [Array.toList_setIfInBounds, Array.toList_setIfInBounds, h.documents, ← h.rank_eq]
    exact (filter_set_of_pos (getElem?_documents h.lt) h.takesPart htakes).symm
  · rw [doc_withDoc h.lt]
    exact htakes
  · rw [rank_withDoc h.lt hx]
    exact h.rank_eq

theorem congr (h : Paired S d d' w w') (trackers : Array Tracker) (link : Link) :
    Paired S d d' { w with trackers, link } { w' with trackers, link } :=
  ⟨h.toCleaned.congr _ _, h.lt, h.takesPart, h.rank_eq⟩

theorem noted (h : Paired S d d' w w') (noted noted' : List Sighting) :
    Paired S d d' { w with sightings := noted } { w' with sightings := noted' } :=
  ⟨h.toCleaned.noted _ _, h.lt, h.takesPart, h.rank_eq⟩

end Paired

/-- It is changed, and nobody in the second run sees it. -/
theorem Lone.withDoc (h : Lone S d w w') (hx : x.uri = (w.doc d).uri) :
    Lone S d (w.withDoc d x) w' := by
  have hforeign : x.takesPart S = false := (takesPart_of_uri hx).trans h.foreign
  refine ⟨h.toCleaned.withDoc h.lt hx ?_, by simpa using h.lt, ?_⟩
  · show w'.documents.toList = (w.documents.setIfInBounds d x).toList.filter _
    rw [Array.toList_setIfInBounds,
      filter_set_of_neg (getElem?_documents h.lt) h.foreign hforeign]
    exact h.documents
  · rw [doc_withDoc h.lt]
    exact hforeign

/-! ### What is done to a document of another scheme -/

theorem setIfInBounds_getD {α : Type} [Inhabited α] (xs : Array α) (i : Nat) :
    xs.setIfInBounds i (xs.getD i default) = xs := by
  refine Array.ext_getElem? fun k => ?_
  by_cases h : i = k
  · subst h
    by_cases hi : i < xs.size <;> simp [hi]
  · rw [Array.getElem?_setIfInBounds_ne h]

namespace Lone

theorem noted {w₁ : Workbench} (h : Lone S d w w') (hn : Noted w w₁) : Lone S d w₁ w' := by
  obtain ⟨noted, rfl⟩ := hn
  exact ⟨h.toCleaned.noted noted w'.sightings, h.lt, h.foreign⟩

/-- **Whatever happens to it**, observers hear of it, but no relay does anything. -/
theorem tell {δ : Deed} (h : Lone S δ.document w w') : Ends δ.tell w fun _ => Noted w := by
  have hrelay {n : Nat} {name : String} {argument : Value} {a : Relay → Act (Tracker × Link) Unit}
      {s : Workbench} (hs : Noted w s) (ha : a (s.relays.getD n default).relay = pure ()) :
      Ends (relay n name argument a) s fun _ => Noted w := by
    refine (relay_ends (H := (· = (s.trackers.getD (s.relays.getD n default).tracker default,
      s.link))) ?_).mono fun _ s' h' => ?_
    · rw [ha]
      exact .pure rfl
    · obtain ⟨_, rfl, rfl⟩ := h'
      rw [setIfInBounds_getD]
      exact hs
  have hhear (k : Listener) (hk : ∃ e ∈ w.events, k ∈ e.listeners) (s : Workbench)
      (hs : Noted w s) : Ends (δ.hear k) s fun _ => Noted w := by
    obtain ⟨o, d, _, cs⟩ := δ
    cases k with
    | external n =>
      have hobserve : Ends (observe n o d) s fun _ => Noted w :=
        (observe_ends n o d s).mono fun _ _ => hs.trans
      cases o <;> exact hobserve
    | relay n =>
      obtain ⟨e, he, hk⟩ := hk
      have hschemes : (s.relays.getD n default).relay.schemes = S := by
        obtain ⟨_, rfl⟩ := hs
        exact h.heeds e he n hk
      have hforeign : ¬(s.doc d).takesPart (s.relays.getD n default).relay.schemes = true := by
        rw [hschemes, (h.noted hs).foreign]
        exact Bool.false_ne_true
      cases o with
      | opened => exact .read (hrelay hs (Relay.opened_aside hforeign))
      | changed => exact .read (hrelay hs (Relay.changed_aside hforeign))
      | saved => exact .read (hrelay hs (Relay.saved_aside hforeign))
      | closed => exact .read (hrelay hs (Relay.closed_aside hforeign))
  have hevent : δ.event w ∈ w.events := by
    cases δ with
    | mk o => cases o <;> simp [Deed.event, events]
  have hself : Noted w w := ⟨w.sightings, rfl⟩
  refine .read (.bind ?_)
  refine (Event.callEach_stays (fun k hk s hs => hhear k ⟨_, hevent, hk⟩ s hs) hself).mono
    fun r s hs => ?_
  cases r with
  | error f => exact hs
  | ok rs => exact (logFailures_ends logger rs s).mono fun _ _ hl => hl.2 ▸ hs

end Lone

/-! ### What is done to a document that both runs have -/

/-- The same listeners hear, and what they do is related. -/
theorem abreast_fire {R : Workbench → Workbench → Prop} {e : Event Listener}
    {hear hear' : Listener → Act Workbench Unit}
    (h : ∀ k ∈ e.listeners, ∀ s t, R s t → Abreast (hear k) (hear' k) s t (Same R)) (hs : R w w') :
    Abreast (fire e hear) (fire e hear') w w' (Same R) := by
  refine .bind ((Abreast.callEach h hs).mono fun r s x t hr => ?_)
  obtain ⟨rfl, hs⟩ := hr
  cases r with
  | error f => exact ⟨rfl, hs⟩
  | ok rs =>
    refine .bind (Abreast.mono (Abreast.forIn (R := R)
      (List.forall₂_same.2 fun r _ s t hs => ?_) hs) fun r s x t hr => ?_)
    · cases r with
      | ok _ => exact .pure ⟨rfl, hs⟩
      | error f => exact .bind (.log (.pure ⟨rfl, hs⟩))
    · obtain ⟨rfl, hs⟩ := hr
      cases r with
      | ok _ => exact .pure ⟨rfl, hs⟩
      | error f => exact ⟨rfl, hs⟩

namespace Paired

/-- A relay hears of the document in both runs. -/
theorem relay (h : Paired S d d' w w') (n : Nat) {name : String} {argument argument' : Value}
    {a : Relay → Act (Tracker × Link) Unit} [∀ r, Definite (a r)] :
    Abreast (relay n name argument a) (relay n name argument' a) w w' (Same (Paired S d d')) := by
  obtain ⟨hrelay, htrackers, hlink⟩ : w'.relays.getD n default = w.relays.getD n default ∧
      w'.trackers = w.trackers ∧ w'.link = w.link := by
    have hrest := h.rest
    rw [hrest]
    exact ⟨rfl, rfl, rfl⟩
  unfold Workbench.relay onTracker
  refine .read (.traced (.on ?_))
  rw [hrelay, htrackers, hlink]
  refine (Definite.abreast _).mono fun r s x t hr => ?_
  obtain ⟨rfl, rfl⟩ := hr
  exact ⟨rfl, h.congr _ _⟩

/-- **Everybody hears the same** of it. -/
theorem tell {o : Occasion} {y y' : Document} {cs : List ContentChange} (h : Paired S d d' w w') :
    Abreast (Deed.tell ⟨o, d, y, cs⟩) (Deed.tell ⟨o, d', y', cs⟩) w w' (Same (Paired S d d')) := by
  have hobserve (n : Nat) {s t : Workbench} (hs : Paired S d d' s t) :
      Abreast (observe n o d) (observe n o d') s t (Same (Paired S d d')) := by
    have hobserver : t.observers.getD n default = s.observers.getD n default := by
      have hrest := hs.rest
      rw [hrest]
    refine .read (.read (.change_bind ?_))
    rw [hobserver]
    split
    · exact .throw ⟨rfl, hs.noted _ _⟩
    · exact .pure ⟨rfl, hs.noted _ _⟩
  have hhear (k : Listener) (s t : Workbench) (hs : Paired S d d' s t) :
      Abreast (Deed.hear ⟨o, d, y, cs⟩ k) (Deed.hear ⟨o, d', y', cs⟩ k) s t
        (Same (Paired S d d')) := by
    have hdoc : t.documents.getD d' default = s.documents.getD d default := hs.doc_eq
    cases o <;> cases k <;> first | exact hobserve _ hs | skip
    all_goals
      refine .read ?_
      rw [hdoc]
      exact hs.relay _
  have hevent : (Deed.mk o d' y' cs).event w' = (Deed.mk o d y cs).event w := by
    have hrest := h.rest
    rw [hrest]
    cases o <;> rfl
  refine .read ?_
  rw [hevent]
  exact abreast_fire (fun k _ => hhear k) h

end Paired

/-! ### Names -/

/-- The resource that a name is about. -/
def Name.Means (w : Workbench) (u : Uri) : Name → Prop
  | .text s => readUri s = .ok u
  | .uri v => v = u
  | .document d => (w.doc d).uri = u

/-- The same name when documents are numbered in another way. -/
def Name.renumber (f : DocumentId → DocumentId) : Name → Name
  | .document d => .document (f d)
  | n => n

/-- A document that is named directly is there. -/
def Name.Fits (w : Workbench) : Name → Prop
  | .document d => d < w.documents.size
  | _ => True

variable {n : Name} {u : Uri}

theorem Cleaned.means (h : Cleaned S w w') (hn : w.Names d n) (hfits : n.Fits w) :
    d < w.documents.size ∧ n.Means w (w.doc d).uri := by
  cases n with
  | text s =>
    obtain ⟨u, hu, hl⟩ := hn
    obtain ⟨hlt, huri⟩ := h.filed u d hl
    exact ⟨hlt, hu.trans (congrArg _ huri.symm)⟩
  | uri v =>
    obtain ⟨hlt, huri⟩ := h.filed v d hn
    exact ⟨hlt, huri.symm⟩
  | document d' =>
    cases hn
    exact ⟨hfits, rfl⟩

/-- A name means one resource at most. -/
theorem Name.Means.unique {v : Uri} (h : n.Means w u) (h' : n.Means w v) : u = v := by
  cases n with
  | text s => exact Except.ok.inj (h.symm.trans h')
  | uri => exact h.symm.trans h'
  | document => exact h.symm.trans h'

/-- A name that means something with one of the schemes stands for the same on both sides. -/
theorem Cleaned.find? (h : Cleaned S w w')
    (hn : ∀ u, n.Means w u → S.contains u.scheme = true) :
    Abreast (Workbench.find? n) (Workbench.find? (n.renumber (w.rank S))) w w' fun r s x t =>
      s = w ∧ t = w' ∧ match r, x with
      | .ok o, .ok o' => o' = o.map (w.rank S) ∧ (∀ d, o = some d → w.Names d n) ∧
        (o = none → (n.renumber (w.rank S)).plain = n.plain)
      | .error f, .error g => f = g
      | _, _ => False := by
  cases n with
  | text s =>
    refine .bind (.ofExcept ?_)
    cases hu : readUri s with
    | error f => exact ⟨rfl, rfl, rfl⟩
    | ok u =>
      exact .reads (lookup u) (lookup u)
        ⟨rfl, rfl, h.shelf u (hn u hu), fun d hd => ⟨u, hu, hd⟩, fun _ => rfl⟩
  | uri v =>
    exact .reads (lookup v) (lookup v)
      ⟨rfl, rfl, h.shelf v (hn v rfl), fun d hd => hd, fun _ => rfl⟩
  | document d =>
    exact .pure ⟨rfl, rfl, rfl, fun _ hd => Option.some.inj hd, fun h => by cases h⟩

/-- Two names are resolved in the same way if what they mean has one of the schemes. -/
theorem Cleaned.resolve (h : Cleaned S w w') (hfits : n.Fits w)
    (hn : ∀ u, n.Means w u → S.contains u.scheme = true) :
    Abreast (resolve n) (resolve (n.renumber (w.rank S))) w w' fun r s x t => s = w ∧ t = w' ∧
      match r, x with
      | .ok d, .ok d' => Paired S d d' w w'
      | .error f, .error g => f = g
      | _, _ => False := by
  unfold Workbench.resolve
  refine .bind ((h.find? hn).mono fun r s x t hr => ?_)
  obtain ⟨rfl, rfl, hr⟩ := hr
  rcases r with f | o <;> rcases x with g | o'
  · cases hr
    exact ⟨rfl, rfl, rfl⟩
  · exact hr.elim
  · exact hr.elim
  · obtain ⟨rfl, hd, hplain⟩ := hr
    cases o with
    | none => exact .throw ⟨rfl, rfl, congrArg _ (hplain rfl).symm⟩
    | some d =>
      obtain ⟨hlt, hmeans⟩ := h.means (hd d rfl) hfits
      exact .pure ⟨rfl, rfl, h, hlt, hn _ hmeans, rfl⟩

/-- A name that means something with another scheme stands for nothing that both runs have. -/
theorem Cleaned.resolve_foreign (h : Cleaned S w w') (hfits : n.Fits w) (hu : n.Means w u)
    (hforeign : S.contains u.scheme = false) : Ends (Workbench.resolve n) w fun r s => s = w ∧
      ∀ d, r = .ok d → Lone S d w w' := by
  refine (resolve_ends n w).mono fun r s hr => ⟨hr.1, fun d hd => ?_⟩
  obtain ⟨rfl, hr⟩ := hr
  subst hd
  obtain ⟨hlt, hmeans⟩ := h.means hr hfits
  rw [hu.unique hmeans] at hforeign
  exact ⟨h, hlt, hforeign⟩

/-! ### Edits -/

theorem uri_splice? {y : Document} {r : Range} {text : List Char} (h : x.splice? r text = some y) :
    y.uri = x.uri := by
  simp only [Document.splice?, Option.bind_eq_bind, Option.bind_eq_some_iff] at h
  obtain ⟨_, _, _, _, h⟩ := h
  cases h
  rfl

/-- An edit is made on both sides. -/
theorem Paired.applyEdit (h : Paired S d d' w w') (e : Range × List Char) :
    Abreast (applyEdit d e) (applyEdit d' e) w w' (Same (Paired S d d')) := by
  have hdoc : w'.documents.getD d' default = w.documents.getD d default := h.doc_eq
  have hsplice : Abreast (onDocument d (Document.splice e.1 e.2))
      (onDocument d' (Document.splice e.1 e.2)) w w' (Same (Paired S d d')) := by
    refine .on (.traced (.read ?_))
    rw [hdoc, Option.bind_none]
    refine .bind (.ofExcept ?_)
    cases hs : (w.documents.getD d default).splice? e.1 e.2 with
    | none => exact ⟨rfl, by rw [setIfInBounds_getD, ← hdoc, setIfInBounds_getD]; exact h⟩
    | some y => exact .change ⟨rfl, h.withDoc (uri_splice? hs)⟩
  unfold Workbench.applyEdit
  refine .read ?_
  rw [hdoc]
  refine .bind (.ofExcept ?_)
  generalize Document.orNoSuchLine ((w.documents.getD d default).changeOf? e.1 e.2) = c
  cases c with
  | error f => exact ⟨rfl, h⟩
  | ok c =>
    refine .bind (hsplice.mono fun r s x t hr => ?_)
    obtain ⟨rfl, hs⟩ := hr
    cases r with
    | error f => exact ⟨rfl, hs⟩
    | ok _ => exact .pure ⟨rfl, hs⟩

theorem Paired.applyEdits (h : Paired S d d' w w') (edits : List (Range × List Char)) :
    Abreast (edits.mapM (Workbench.applyEdit d)) (edits.mapM (Workbench.applyEdit d')) w w'
      (Same (Paired S d d')) := by
  induction edits generalizing w w' with
  | nil =>
    rw [List.mapM_nil, List.mapM_nil]
    exact .pure ⟨rfl, h⟩
  | cons e es ih =>
    rw [List.mapM_cons, List.mapM_cons]
    refine .bind ((h.applyEdit e).mono fun r s x t hr => ?_)
    obtain ⟨rfl, hs⟩ := hr
    cases r with
    | error f => exact ⟨rfl, hs⟩
    | ok c =>
      refine .bind ((ih hs).mono fun r s x t hr => ?_)
      obtain ⟨rfl, hs⟩ := hr
      cases r with
      | error f => exact ⟨rfl, hs⟩
      | ok cs => exact .pure ⟨rfl, hs⟩

theorem Lone.applyEdits (h : Lone S d w w') (edits : List (Range × List Char)) :
    Ends (edits.mapM (Workbench.applyEdit d)) w fun _ s => Lone S d s w' := by
  induction edits generalizing w with
  | nil =>
    rw [List.mapM_nil]
    exact .pure h
  | cons e es ih =>
    rw [List.mapM_cons]
    refine .bind ((applyEdit_does d e w).mono fun r s hr => ?_)
    have hs : Lone S d s w' := by
      split at hr
      · obtain ⟨-, y, hy, rfl⟩ := hr
        exact h.withDoc (uri_splice? hy)
      · exact hr.2 ▸ h
    cases r with
    | error f => exact hs
    | ok c =>
      refine .bind ((ih hs).mono fun r s hs => ?_)
      cases r with
      | error f => exact hs
      | ok cs => exact .pure hs

/-! ### Operations -/

/-- Two acts fail in the same way, or both do what they are to do. -/
def Agree {α β : Type} (R : Workbench → Workbench → Prop) (r : Except Failure α) (s : Workbench)
    (x : Except Failure β) (t : Workbench) : Prop :=
  R s t ∧ match r, x with
    | .error f, .error g => f = g
    | .ok _, .ok _ => True
    | _, _ => False

/-- Afterwards everybody hears, and the act is over. -/
theorem Paired.tells {α β : Type} {a : α} {b : β} (o : Occasion) (cs : List ContentChange)
    (h : Paired S d d' w w') :
    Abreast (do Deed.tell ⟨o, d, default, cs⟩; return a)
      (do Deed.tell ⟨o, d', default, cs⟩; return b) w w' (Agree (Cleaned S)) := by
  refine .bind (h.tell.mono fun r s x t hr => ?_)
  obtain ⟨rfl, hs⟩ := hr
  cases r with
  | error f => exact ⟨hs.toCleaned, rfl⟩
  | ok _ => exact .pure ⟨hs.toCleaned, trivial⟩

theorem Lone.tells {α : Type} {a : α} (o : Occasion) (cs : List ContentChange)
    (h : Lone S d w w') :
    Ends (do Deed.tell ⟨o, d, default, cs⟩; return a) w fun _ s => Cleaned S s w' :=
  have htell := Lone.tell (δ := ⟨o, d, default, cs⟩) h
  .ignore (htell.mono fun _ _ hs => (h.noted hs).toCleaned)

/-- What is done to a document on both sides. -/
theorem Paired.onDocument {f : Document → Document} (hf : ∀ x, (f x).uri = x.uri)
    (h : Paired S d d' w w') : Abreast (onDocument d (Act.change f)) (onDocument d' (Act.change f))
      w w' fun r s x t => r = .ok () ∧ x = .ok () ∧ Paired S d d' s t := by
  have hdoc : w'.documents.getD d' default = w.documents.getD d default := h.doc_eq
  refine .on (.change ⟨rfl, rfl, ?_⟩)
  rw [hdoc]
  exact h.withDoc (hf _)

theorem Lone.onDocument {f : Document → Document} (hf : ∀ x, (f x).uri = x.uri)
    (h : Lone S d w w') : Ends (Workbench.onDocument d (Act.change f)) w fun r s =>
      r = .ok () ∧ Lone S d s w' :=
  .on (.change ⟨rfl, h.withDoc (hf _)⟩)

/-- **Edits** of a document that both runs have. -/
theorem Cleaned.edit (h : Cleaned S w w') (hfits : n.Fits w)
    (hn : ∀ u, n.Means w u → S.contains u.scheme = true) (edits : List (Range × List Char)) :
    Abreast (edit n edits) (edit (n.renumber (w.rank S)) edits) w w' (Agree (Cleaned S)) := by
  refine .read (.traced (.bind ((h.resolve hfits hn).mono fun r s x t hr => ?_)))
  obtain ⟨rfl, rfl, hr⟩ := hr
  match r, x, hr with
  | .error f, .error _, rfl => exact ⟨h, rfl⟩
  | .ok d, .ok d', hp =>
    refine .bind ((hp.applyEdits edits).mono fun r s x t hr => ?_)
    obtain ⟨rfl, hs⟩ := hr
    cases r with
    | error f => exact ⟨hs.toCleaned, rfl⟩
    | ok cs =>
      refine .bind ((hs.onDocument (f := fun x => { x with version := x.version + 1 })
        fun _ => rfl).mono fun r s x t hr => ?_)
      obtain ⟨rfl, rfl, hs⟩ := hr
      exact hs.tells .changed cs

/-- **Edits** of a document of another scheme. -/
theorem Cleaned.edit_foreign (h : Cleaned S w w') (hfits : n.Fits w) (hu : n.Means w u)
    (hforeign : S.contains u.scheme = false) (edits : List (Range × List Char)) :
    Ends (Workbench.edit n edits) w fun _ s => Cleaned S s w' := by
  refine .read (.traced (.bind ((h.resolve_foreign hfits hu hforeign).mono fun r s hr => ?_)))
  obtain ⟨rfl, hr⟩ := hr
  cases r with
  | error f => exact h
  | ok d =>
    refine .bind (((hr d rfl).applyEdits edits).mono fun r s hs => ?_)
    cases r with
    | error f => exact hs.toCleaned
    | ok cs =>
      refine .bind ((hs.onDocument (f := fun x => { x with version := x.version + 1 })
        fun _ => rfl).mono fun r s hr => ?_)
      obtain ⟨rfl, hs⟩ := hr
      exact hs.tells .changed cs

theorem Cleaned.save (h : Cleaned S w w') (hfits : n.Fits w)
    (hn : ∀ u, n.Means w u → S.contains u.scheme = true) :
    Abreast (save n) (save (n.renumber (w.rank S))) w w' (Agree (Cleaned S)) := by
  refine .read (.traced (.bind ((h.resolve hfits hn).mono fun r s x t hr => ?_)))
  obtain ⟨rfl, rfl, hr⟩ := hr
  match r, x, hr with
  | .error f, .error _, rfl => exact ⟨h, rfl⟩
  | .ok d, .ok d', hp =>
    refine .bind ((hp.onDocument (f := Document.save) fun _ => rfl).mono fun r s x t hr => ?_)
    obtain ⟨rfl, rfl, hs⟩ := hr
    exact hs.tells .saved []

theorem Cleaned.save_foreign (h : Cleaned S w w') (hfits : n.Fits w) (hu : n.Means w u)
    (hforeign : S.contains u.scheme = false) :
    Ends (Workbench.save n) w fun _ s => Cleaned S s w' := by
  refine .read (.traced (.bind ((h.resolve_foreign hfits hu hforeign).mono fun r s hr => ?_)))
  obtain ⟨rfl, hr⟩ := hr
  cases r with
  | error f => exact h
  | ok d =>
    refine .bind (((hr d rfl).onDocument (f := Document.save) fun _ => rfl).mono fun r s hr => ?_)
    obtain ⟨rfl, hs⟩ := hr
    exact hs.tells .saved []

/-- The whole text of a document is replaced. -/
theorem Cleaned.replaceAll (h : Cleaned S w w') (hfits : n.Fits w)
    (hn : ∀ u, n.Means w u → S.contains u.scheme = true) (text : List Char) :
    Abreast (replaceAll n text) (replaceAll (n.renumber (w.rank S)) text) w w'
      (Agree (Cleaned S)) := by
  refine .bind ((h.resolve hfits hn).mono fun r s x t hr => ?_)
  obtain ⟨rfl, rfl, hr⟩ := hr
  match r, x, hr with
  | .error f, .error _, rfl => exact ⟨h, rfl⟩
  | .ok d, .ok d', hp =>
    refine .read ?_
    rw [show t.documents.getD d' default = s.documents.getD d default from hp.doc_eq, ← hp.rank_eq]
    exact h.edit (n := .document d) hp.lt (fun u hu => by rw [← hu]; exact hp.takesPart) _

theorem Cleaned.replaceAll_foreign (h : Cleaned S w w') (hfits : n.Fits w) (hu : n.Means w u)
    (hforeign : S.contains u.scheme = false) (text : List Char) :
    Ends (Workbench.replaceAll n text) w fun _ s => Cleaned S s w' := by
  refine .bind ((h.resolve_foreign hfits hu hforeign).mono fun r s hr => ?_)
  obtain ⟨rfl, hr⟩ := hr
  cases r with
  | error f => exact h
  | ok d =>
    exact .read (h.edit_foreign (n := .document d) (hr d rfl).lt rfl (hr d rfl).foreign _)

/-! ### Closing and opening -/

theorem lookup_unshelved {v : Uri} (h : (w.shelf.filter (·.1 ≠ u)).lookup v = some d) :
    w.shelf.lookup v = some d := by
  rw [lookup_filter_ne] at h
  split at h
  · cases h
  · exact h

/-- A document that both runs have is not open any more. -/
theorem Paired.unshelve (h : Paired S d d' w w') (u : Uri) : Paired S d d'
    { w with shelf := w.shelf.filter (·.1 ≠ u) } { w' with shelf := w'.shelf.filter (·.1 ≠ u) } := by
  refine ⟨⟨h.documents, fun v hv => ?_, ?_, fun v k hk => h.filed v k (lookup_unshelved hk), h.heeds⟩,
    h.lt, h.takesPart, h.rank_eq⟩
  · show (w'.shelf.filter (·.1 ≠ u)).lookup v = ((w.shelf.filter (·.1 ≠ u)).lookup v).map (w.rank S)
    rw [lookup_filter_ne, lookup_filter_ne, h.shelf v hv]
    split <;> rfl
  · have hrest := h.rest
    rw [hrest]

/-- A document of another scheme is not open any more. -/
theorem Lone.unshelve (h : Lone S d w w') (hu : S.contains u.scheme = false) :
    Lone S d { w with shelf := w.shelf.filter (·.1 ≠ u) } w' := by
  refine ⟨⟨h.documents, fun v hv => ?_, h.rest, fun v k hk => h.filed v k (lookup_unshelved hk),
    h.heeds⟩, h.lt, h.foreign⟩
  show w'.shelf.lookup v = ((w.shelf.filter (·.1 ≠ u)).lookup v).map (w.rank S)
  have hne : v ≠ u := fun e => by
    rw [e, hu] at hv
    cases hv
  rw [lookup_filter_ne, if_neg hne]
  exact h.shelf v hv

theorem Cleaned.close (h : Cleaned S w w') (hfits : n.Fits w)
    (hn : ∀ u, n.Means w u → S.contains u.scheme = true) :
    Abreast (close n) (close (n.renumber (w.rank S))) w w' (Agree (Cleaned S)) := by
  refine .read (.traced (.bind ((h.resolve hfits hn).mono fun r s x t hr => ?_)))
  obtain ⟨rfl, rfl, hr⟩ := hr
  match r, x, hr with
  | .error f, .error _, rfl => exact ⟨h, rfl⟩
  | .ok d, .ok d', hp =>
    refine .read ?_
    rw [show t.documents.getD d' default = s.documents.getD d default from hp.doc_eq]
    refine .change_bind (.bind (((hp.unshelve _).onDocument
      (f := fun x => { x with closed := true }) fun _ => rfl).mono fun r s x t hr => ?_))
    obtain ⟨rfl, rfl, hs⟩ := hr
    exact hs.tells .closed []

theorem Cleaned.close_foreign (h : Cleaned S w w') (hfits : n.Fits w) (hu : n.Means w u)
    (hforeign : S.contains u.scheme = false) :
    Ends (Workbench.close n) w fun _ s => Cleaned S s w' := by
  refine .read (.traced (.bind ((h.resolve_foreign hfits hu hforeign).mono fun r s hr => ?_)))
  obtain ⟨rfl, hr⟩ := hr
  cases r with
  | error f => exact h
  | ok d =>
    refine .read (.change_bind (.bind ((((hr d rfl).unshelve (hr d rfl).foreign).onDocument
      (f := fun x => { x with closed := true }) fun _ => rfl).mono fun r s hr => ?_)))
    obtain ⟨rfl, hs⟩ := hr
    exact hs.tells .closed []

theorem rank_withNew (hk : d ≤ w.documents.size) : (w.withNew u x).rank S d = w.rank S d := by
  unfold rank withNew
  rw [Array.toList_push, List.take_append_of_le_length (by simpa using hk)]

/-- What is open after something was opened. -/
theorem filed_withNew (hx : x.uri = u)
    (hfiled : ∀ u d, w.shelf.lookup u = some d → d < w.documents.size ∧ (w.doc d).uri = u)
    {v : Uri} {k : DocumentId} (hk : (w.withNew u x).shelf.lookup v = some k) :
    k < (w.withNew u x).documents.size ∧ ((w.withNew u x).doc k).uri = v := by
  rw [lookup_withNew, Option.or_eq_some_iff] at hk
  rcases hk with hk | ⟨-, hk⟩
  · obtain ⟨hlt, huri⟩ := hfiled v k hk
    rw [doc_withNew_of_lt hlt]
    exact ⟨by simp [withNew, Nat.lt_succ_of_lt hlt], huri⟩
  · split at hk
    · rename_i hv
      cases hk
      rw [doc_withNew_size]
      exact ⟨by simp [withNew], hx.trans hv.symm⟩
    · cases hk

/-- A document is opened on both sides. -/
theorem Cleaned.withNew (h : Cleaned S w w') (hx : x.uri = u) (hu : S.contains u.scheme = true) :
    Paired S w.documents.size w'.documents.size (w.withNew u x) (w'.withNew u x) := by
  have htakes : x.takesPart S = true := by rw [Document.takesPart, hx]; exact hu
  have hlookup {v : Uri} (hv : S.contains v.scheme = true) :
      (w'.withNew u x).shelf.lookup v =
        ((w.withNew u x).shelf.lookup v).map ((w.withNew u x).rank S) := by
    rw [lookup_withNew, lookup_withNew, h.shelf v hv]
    cases hl : w.shelf.lookup v with
    | some d =>
      simp [rank_withNew (Nat.le_of_lt (h.filed v d hl).1)]
    | none =>
      simp only [Option.map_none, Option.none_or]
      split
      · simp [rank_withNew (Nat.le_refl _), h.size]
      · rfl
  refine ⟨⟨?_, fun v hv => hlookup hv, ?_, fun v k hk => filed_withNew hx h.filed hk, h.heeds⟩,
    by simp [Workbench.withNew], ?_, ?_⟩
  · show (w'.documents.push x).toList = (w.documents.push x).toList.filter _
    rw [Array.toList_push, Array.toList_push, List.filter_append, h.documents]
    simp [htakes]
  · have hrest := h.rest
    rw [hrest]
    rfl
  · rw [doc_withNew_size]
    exact htakes
  · rw [rank_withNew (Nat.le_refl _), h.size]

/-- A document of another scheme is opened. -/
theorem Cleaned.withForeign (h : Cleaned S w w') (hx : x.uri = u)
    (hu : S.contains u.scheme = false) : Lone S w.documents.size (w.withNew u x) w' := by
  have hforeign : x.takesPart S = false := by rw [Document.takesPart, hx]; exact hu
  refine ⟨⟨?_, fun v hv => ?_, h.rest, fun v k hk => filed_withNew hx h.filed hk, h.heeds⟩,
    by simp [Workbench.withNew], ?_⟩
  · show w'.documents.toList = (w.documents.push x).toList.filter _
    rw [Array.toList_push, List.filter_append, h.documents]
    simp [hforeign]
  · have hne : v ≠ u := fun e => by
      rw [e, hu] at hv
      cases hv
    rw [lookup_withNew, if_neg hne, Option.or_none, h.shelf v hv]
    cases hl : w.shelf.lookup v with
    | none => rfl
    | some d =>
      rw [Option.map_some, Option.map_some, rank_withNew (Nat.le_of_lt (h.filed v d hl).1)]
  · rw [doc_withNew_size]
    exact hforeign

/-- The same opening when documents are numbered in another way. -/
def Opening.renumber (f : DocumentId → DocumentId) (o : Opening) : Opening :=
  { o with name := o.name.renumber f }

theorem Cleaned.openAt (h : Cleaned S w w') (o : Opening) (f : DocumentId → DocumentId)
    (hu : S.contains u.scheme = true) :
    Abreast (openAt o u) (openAt (o.renumber f) u) w w' (Agree (Cleaned S)) := by
  unfold Workbench.openAt
  refine .read ?_
  rw [h.shelf u hu]
  cases hl : w.shelf.lookup u with
  | some d => exact .pure ⟨h, trivial⟩
  | none =>
    refine .read (.change_bind ?_)
    exact (h.withNew (x := o.document u) rfl hu).tells .opened []

theorem Cleaned.openAt_foreign (h : Cleaned S w w') (o : Opening)
    (hu : S.contains u.scheme = false) :
    Ends (Workbench.openAt o u) w fun _ s => Cleaned S s w' := by
  unfold Workbench.openAt
  refine .read ?_
  cases hl : w.shelf.lookup u with
  | some d => exact .pure h
  | none =>
    refine .read (.change_bind ?_)
    exact (h.withForeign (x := o.document u) rfl hu).tells .opened []

theorem Cleaned.openDocument (h : Cleaned S w w') (o : Opening) (hfits : o.name.Fits w)
    (hn : ∀ u, o.name.Means w u → S.contains u.scheme = true) :
    Abreast (openDocument o) (openDocument (o.renumber (w.rank S))) w w' (Agree (Cleaned S)) := by
  obtain ⟨name, text, languageId, version⟩ := o
  refine .read (.traced ?_)
  cases name with
  | text s =>
    refine .bind (.ofExcept ?_)
    cases hu : readUri s with
    | error f => exact ⟨h, rfl⟩
    | ok u => exact h.openAt ⟨.text s, text, languageId, version⟩ (w.rank S) (hn u hu)
  | uri u => exact h.openAt ⟨.uri u, text, languageId, version⟩ (w.rank S) (hn u rfl)
  | document d =>
    have hp : Paired S d (w.rank S d) w w' := ⟨h, hfits, hn _ rfl, rfl⟩
    have hdoc : w'.documents.getD (w.rank S d) default = w.documents.getD d default := hp.doc_eq
    refine .bind (.read (.pure ?_))
    rw [hdoc]
    exact h.openAt ⟨.document d, text, languageId, version⟩ (w.rank S) (hn _ rfl)

theorem Cleaned.openDocument_foreign (h : Cleaned S w w') (o : Opening) (hu : o.name.Means w u)
    (hforeign : S.contains u.scheme = false) :
    Ends (Workbench.openDocument o) w fun _ s => Cleaned S s w' := by
  obtain ⟨name, text, languageId, version⟩ := o
  refine .read (.traced ?_)
  cases name with
  | text s =>
    refine .bind (.ofExcept ?_)
    rw [show readUri s = .ok u from hu]
    exact h.openAt_foreign ⟨.text s, text, languageId, version⟩ hforeign
  | uri v =>
    obtain rfl : v = u := hu
    exact h.openAt_foreign ⟨.uri v, text, languageId, version⟩ hforeign
  | document d =>
    obtain rfl : (w.doc d).uri = u := hu
    refine .bind (.read (.pure ?_))
    exact h.openAt_foreign ⟨.document d, text, languageId, version⟩ hforeign

end Workbench

end EditorBridge
