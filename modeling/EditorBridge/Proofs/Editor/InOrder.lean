/-
Everybody hears of what was done in the order in which it was done.

Listeners do not use the editor while they are called, so a deed is told to everybody before
the next one is done.  An observer that is called by its name alone notes one thing for each
deed it listens to, and nothing in between (`Session.heardBy_eq`); what it is shown is the
document as the deed left it, and the records of a change are those of the edit that led to
the version it sees.

A listener that does use the editor puts a deed, and the telling of it, in front of those
who have not heard of the deed it was called for: `fire` calls its listeners one after the
other, and knows nothing of what they do.
-/
import EditorBridge.Proofs.Editor.Lifecycle

namespace EditorBridge

open Act (Ends Keeps)

namespace Workbench

variable {w w' : Workbench} {d : DocumentId} {x : Operation} {δ : Deed} {n m : Nat} {name : String}

/-! ### What an observer heard -/

/-- What an observer heard and saw. -/
def Sighting.heardBy? (name : String) : Sighting → Option (Occasion × Document)
  | .heard n o d => if n = name then some (o, d) else none
  | .asked _ _ _ _ => none

/-- What an observer heard and saw so far. -/
def heardBy (name : String) (w : Workbench) : List (Occasion × Document) :=
  w.sightings.filterMap (Sighting.heardBy? name)

/-- The editor is as it was, except that somebody may have noted something. -/
structure Steady (w w' : Workbench) : Prop where
  documents : w'.documents = w.documents
  shelf : w'.shelf = w.shelf
  observers : w'.observers = w.observers
  events : w'.events = w.events

/-- Nothing that concerns an observer has happened. -/
def Apart (name : String) (w w' : Workbench) : Prop :=
  Steady w w' ∧ w'.heardBy name = w.heardBy name

theorem Steady.refl (w : Workbench) : Steady w w := ⟨rfl, rfl, rfl, rfl⟩

theorem Steady.trans {w'' : Workbench} (h : Steady w w') (h' : Steady w' w'') : Steady w w'' :=
  ⟨h'.1.trans h.1, h'.2.trans h.2, h'.3.trans h.3, h'.4.trans h.4⟩

instance : IsPreorder Workbench (Apart name) where
  refl w := ⟨.refl w, rfl⟩
  trans _ _ _ h h' := ⟨h.1.trans h'.1, h'.2.trans h.2⟩

/-- A deed shows the document as it left it. -/
theorem hear_external_ends (name : String) (δ : Deed) (m : Nat) (w : Workbench) :
    Ends (δ.hear (.external m)) w fun _ w' => Steady w w' ∧ w'.heardBy name = w.heardBy name ++
      if (w.observers.getD m default).name = name then
        [(δ.occasion, w.doc δ.document)] else [] := by
  have hobserve : δ.hear (.external m) = observe m δ.occasion δ.document := by
    unfold Deed.hear
    cases δ.occasion <;> rfl
  rw [hobserve]
  have hnoted : Steady w { w with sightings := w.sightings ++
        [.heard (w.observers.getD m default).name δ.occasion (w.doc δ.document)] } ∧
      heardBy name { w with sightings := w.sightings ++
        [.heard (w.observers.getD m default).name δ.occasion (w.doc δ.document)] } =
      w.heardBy name ++ if (w.observers.getD m default).name = name then
        [(δ.occasion, w.doc δ.document)] else [] := by
    refine ⟨⟨rfl, rfl, rfl, rfl⟩, ?_⟩
    rw [heardBy, List.filterMap_append, heardBy, List.filterMap_cons, List.filterMap_nil]
    by_cases h : (w.observers.getD m default).name = name
    · simp only [Sighting.heardBy?, if_pos h]
    · simp only [Sighting.heardBy?, if_neg h]
  refine .read (.read (.change_bind ?_))
  split
  · exact .throw hnoted
  · exact .pure hnoted

/-- A relay notes nothing. -/
instance apart_hear_relay (δ : Deed) (m : Nat) : Keeps (Apart name) (δ.hear (.relay m)) := by
  have hrelay (call : String) (argument : Value) (a : Relay → Act (Tracker × Link) Unit) :
      Keeps (Apart name) (relay m call argument a) :=
    .of_ends fun w => (relay_ends (H := fun _ => True) fun _ => trivial).mono fun _ _ h => by
      obtain ⟨_, -, rfl⟩ := h
      exact ⟨⟨rfl, rfl, rfl, rfl⟩, rfl⟩
  unfold Deed.hear
  cases δ.occasion <;> exact .andThen fun _ => hrelay _ _ _

/-- An observer is the only one of its name that listens. -/
structure Watches (n : Nat) (name : String) (w : Workbench) : Prop where
  nodup : ∀ e ∈ w.events, e.listeners.Nodup
  named : (w.observers.getD n default).name = name
  alone : ∀ e ∈ w.events, ∀ m, .external m ∈ e.listeners →
    (w.observers.getD m default).name = name → m = n

theorem Watches.steady (h : Watches n name w) (hs : Steady w w') : Watches n name w' := by
  refine ⟨?_, ?_, ?_⟩
  · rw [hs.events]
    exact h.nodup
  · rw [hs.observers]
    exact h.named
  · rw [hs.events, hs.observers]
    exact h.alone

theorem Deed.event_mem (δ : Deed) (w : Workbench) : δ.event w ∈ w.events := by
  unfold Deed.event events
  cases δ.occasion <;> simp

/-- **An observer hears of a deed once** if it listens, and sees what it led to. -/
theorem tell_ends (hw : Watches n name w) (hd : w.doc δ.document = δ.result) :
    Ends δ.tell w fun r w' => (∀ f, r = .error f → f.isExit = false) →
      Steady w w' ∧ w'.heardBy name = w.heardBy name ++
        if .external n ∈ (δ.event w).listeners then [(δ.occasion, δ.result)] else [] := by
  have hevent := δ.event_mem w
  -- whoever else is called leaves what this observer heard as it is
  have hothers (heard : List (Occasion × Document)) (k : Listener)
      (hk : k ∈ (δ.event w).listeners) (hne : k ≠ .external n) (w' : Workbench)
      (hw' : Steady w w' ∧ w'.heardBy name = heard) :
      Ends (δ.hear k) w' fun _ w'' => Steady w w'' ∧ w''.heardBy name = heard := by
    cases k with
    | external m =>
      have hname : (w'.observers.getD m default).name ≠ name := fun h => by
        rw [hw'.1.observers] at h
        exact hne (by rw [hw.alone _ hevent m hk h])
      refine (hear_external_ends name δ m w').mono fun _ w'' h => ⟨hw'.1.trans h.1, ?_⟩
      rw [h.2, if_neg hname, List.append_nil, hw'.2]
    | relay m =>
      exact ((apart_hear_relay δ m).ends w').mono fun _ w'' h =>
        ⟨hw'.1.trans h.1, h.2.trans hw'.2⟩
  have hself (w' : Workbench) (hw' : Steady w w' ∧ w'.heardBy name = w.heardBy name) :
      Ends (δ.hear (.external n)) w' fun _ w'' => Steady w w'' ∧
        w''.heardBy name = w.heardBy name ++ [(δ.occasion, δ.result)] := by
    have hdoc : w'.doc δ.document = δ.result := by rw [← hd, doc, doc, hw'.1.documents]
    refine (hear_external_ends name δ n w').mono fun _ w'' h => ⟨hw'.1.trans h.1, ?_⟩
    rw [h.2, hw'.1.observers, if_pos hw.named, hw'.2, hdoc]
  refine .read ((fire_ends (.external n) (hw.nodup _ hevent) (hothers _) (hothers _) hself
    ⟨.refl w, rfl⟩).mono fun r w' h hr => ?_)
  cases r with
  | error f =>
    have hexit : f.isExit = true := h
    rw [hr f rfl] at hexit
    cases hexit
  | ok _ =>
    split
    · rwa [if_pos ‹_›] at h
    · rw [List.append_nil]
      rwa [if_neg ‹_›] at h

/-! ### Deeds and documents -/

/-- A deed leaves the document as it is shown. -/
theorem Operation.Does.doc_put (h : x.Does w δ)
    (hd : δ.occasion ≠ .opened → δ.document < w.documents.size) :
    (δ.put w).doc δ.document = δ.result := by
  cases h with
  | opening => exact doc_withNew_size _ _
  | edit | insert | replaceAll | save => exact doc_withDoc (hd (by simp)) _
  | close => exact doc_withDoc (by exact hd (by simp)) _

theorem Deed.put_rest (δ : Deed) (w : Workbench) : (δ.put w).observers = w.observers ∧
    (δ.put w).events = w.events ∧ (δ.put w).sightings = w.sightings := by
  unfold Deed.put
  cases δ.occasion <;> exact ⟨rfl, rfl, rfl⟩

/-- **The records of a change and the version it led to are those of one edit.** -/
theorem Operation.Does.changes (h : x.Does w δ) (ho : δ.occasion = .changed) :
    δ.result.version = (w.doc δ.document).version + 1 ∧
      (w.doc δ.document).replay? δ.changes =
        some { δ.result with version := (w.doc δ.document).version } := by
  have hedited {es : List (Range × List Char)} {d : DocumentId} {cs : List ContentChange}
      {y : Document} (he : (w.doc d).edits? es = some (cs, y)) :
      y.version + 1 = (w.doc d).version + 1 ∧ (w.doc d).replay? cs =
        some { { y with version := y.version + 1 } with version := (w.doc d).version } := by
    have hv : y.version = (w.doc d).version := by rw [Document.edits?_text he]
    refine ⟨by rw [hv], ?_⟩
    rw [Document.replay?_edits? he, ← hv]
  cases h with
  | edit hn he | insert hn he | replaceAll hn he => exact hedited he
  | opening | save | close => cases ho

/-! ### Sessions -/

/-- Operations, one after the other.  A request to end the program ends the session. -/
inductive Session (name : String) (w₀ : Workbench) : Workbench → List Moment → Prop
  | begin : Session name w₀ w₀ []
  | does {w : Workbench} {past : List Moment} (h : Session name w₀ w past) (x : Operation)
    (hx : x.OfDocuments) (hd : ∀ n d, x.name? = some n → w.Names d n → d < w.documents.size)
    (δ : Deed) (hδ : x.Does w δ) (j : Journal)
    (hend : ∀ f, (x.act ⟨j, w⟩).1 = .error f → f.isExit = false) :
    Session name w₀ (x.act ⟨j, w⟩).2.state (past ++ [⟨w, x, some δ⟩])
  | fails {w : Workbench} {past : List Moment} (h : Session name w₀ w past) (x : Operation)
    (hx : x.OfDocuments) (hd : ∀ n d, x.name? = some n → w.Names d n → d < w.documents.size)
    (hn : ∀ δ, ¬x.Does w δ) (j : Journal) :
    Session name w₀ (x.act ⟨j, w⟩).2.state (past ++ [⟨w, x, none⟩])
  /-- Queries are asked and answered, time passes. -/
  | meanwhile {w : Workbench} {past : List Moment} (h : Session name w₀ w past) {w' : Workbench}
    (h' : Apart name w w') : Session name w₀ w' past

/-- What an observer is shown, if it listens. -/
def Moment.shown? (n : Nat) (m : Moment) : Option (Occasion × Document) :=
  m.deed?.bind fun δ =>
    if .external n ∈ (δ.event m.workbench).listeners then some (δ.occasion, δ.result) else none

variable {w₀ : Workbench} {past : List Moment}

/-- A deed is heard of at once. -/
private theorem shown_cons (hw : Watches n name w) (hδ : x.Does w δ)
    (hd : δ.occasion ≠ .opened → δ.document < w.documents.size) {s : Except Failure Unit}
    (hs : δ.tell.Gives (δ.put w) s w') (hr : ∀ f, s = .error f → f.isExit = false) :
    Watches n name w' ∧ w'.heardBy name = w.heardBy name ++
      (Moment.shown? n ⟨w, x, some δ⟩).toList := by
  obtain ⟨hobservers, hevents, hsightings⟩ := δ.put_rest w
  have hput : Watches n name (δ.put w) := by
    refine ⟨?_, ?_, ?_⟩
    · rw [hevents]
      exact hw.nodup
    · rw [hobservers]
      exact hw.named
    · rw [hevents, hobservers]
      exact hw.alone
  have hevent : δ.event (δ.put w) = δ.event w := by
    simp only [events, List.cons.injEq] at hevents
    obtain ⟨hopen, hchange, hsave, hclose, -⟩ := hevents
    unfold Deed.event
    cases δ.occasion <;> assumption
  obtain ⟨hsteady, hheard⟩ := hs.elim (tell_ends hput (hδ.doc_put hd)) hr
  refine ⟨hput.steady hsteady, ?_⟩
  rw [hheard, hevent, heardBy, hsightings, Moment.shown?, Option.bind_some, ← heardBy]
  split <;> rfl

/-- **An observer hears of everything that was done, in that order**, each time before anything else
is done; and the records of a change and the version that is seen with them are those of one
edit. -/
theorem Session.heardBy_eq (hw : Watches n name w₀) (h : Session name w₀ w past) :
    w.heardBy name = w₀.heardBy name ++ past.filterMap (Moment.shown? n) ∧
      ∀ m ∈ past, ∀ δ, m.deed? = some δ → δ.occasion = .changed →
        δ.result.version = (m.workbench.doc δ.document).version + 1 ∧
        (m.workbench.doc δ.document).replay? δ.changes =
          some { δ.result with version := (m.workbench.doc δ.document).version } := by
  suffices hall : Watches n name w ∧
      w.heardBy name = w₀.heardBy name ++ past.filterMap (Moment.shown? n) ∧
      ∀ m ∈ past, ∀ δ, m.deed? = some δ → m.operation.Does m.workbench δ by
    exact ⟨hall.2.1, fun m hm δ hδ ho => (hall.2.2 m hm δ hδ).changes ho⟩
  have hsnoc {past : List Moment} {m₀ : Moment} (ih : ∀ m ∈ past, ∀ δ, m.deed? = some δ →
      m.operation.Does m.workbench δ) (h₀ : ∀ δ, m₀.deed? = some δ →
      m₀.operation.Does m₀.workbench δ) : ∀ m ∈ past ++ [m₀], ∀ δ, m.deed? = some δ →
      m.operation.Does m.workbench δ := fun m hm => by
    rcases List.mem_append.1 hm with hm | hm
    · exact ih m hm
    · exact List.mem_singleton.1 hm ▸ h₀
  induction h with
  | begin => exact ⟨hw, by simp, by simp⟩
  | @does w past h x hx hd δ hδ j hend ih =>
    obtain ⟨hw, hheard, hdid⟩ := ih
    rcases Operation.act_does hx hd j with ⟨δ', hδ', s, hs, hf⟩ | ⟨hn, -⟩
    · cases hδ.unique hδ'
      have hlt (ho : δ.occasion ≠ .opened) : δ.document < w.documents.size := by
        rcases hδ.cases with ⟨h, -⟩ | ⟨n, hx, hn, -⟩
        · exact absurd h ho
        · exact hd n _ hx hn
      obtain ⟨hw', hheard'⟩ := shown_cons hw hδ hlt hs fun f h => hend f (hf f h)
      refine ⟨hw', ?_, hsnoc hdid fun δ' h => by cases h; exact hδ⟩
      rw [hheard', hheard, List.filterMap_append, List.append_assoc]
      cases hshown : Moment.shown? n ⟨w, x, some δ⟩ <;> simp [hshown]
    · exact absurd hδ (hn δ)
  | @fails w past h x hx hd hn j ih =>
    obtain ⟨hw, hheard, hdid⟩ := ih
    rcases Operation.act_does hx hd j with ⟨δ, hδ, -⟩ | ⟨-, d, text, ht⟩
    · exact absurd hδ (hn δ)
    · rw [ht]
      refine ⟨⟨hw.1, hw.2, hw.3⟩, ?_, hsnoc hdid nofun⟩
      rw [List.filterMap_append]
      exact hheard.trans (by simp [Moment.shown?])
  | meanwhile h h' ih =>
    obtain ⟨hw, hheard, hdid⟩ := ih
    exact ⟨hw.steady h'.1, h'.2.trans hheard, hdid⟩

/-- An editor with one observer. -/
private def listened : Workbench :=
  { observers := #[{ name := "o" }], onOpen := ⟨[.external 0]⟩, onSave := ⟨[.external 0]⟩ }

private theorem watches_listened : Watches 0 "o" listened := by
  refine ⟨by decide, by decide, fun e he m hm _ => ?_⟩
  simp only [events, listened, List.mem_cons, List.not_mem_nil, or_false] at he
  rcases he with rfl | rfl | rfl | rfl
  · simpa using hm
  · simp at hm
  · simpa using hm
  · simp at hm

/-- Opening a file and saving it is heard of. -/
theorem heardBy_eq_saved : ∃ w past, Session "o" listened w past ∧
    (w.heardBy "o").map (·.1) = [.opened, .saved] ∧
    w.heardBy "o" = listened.heardBy "o" ++ past.filterMap (Moment.shown? 0) := by
  have hends {r : Except Failure Unit} (h : r.isOk = true) (f : Failure) (hf : r = .error f) :
      f.isExit = false := by
    rw [hf] at h
    cases h
  have h₁ := (Session.begin : Session "o" listened listened []).does
    (.opening { name := .uri { scheme := "file", path := "/x" }, text := [] }) trivial nofun _
    (.opening rfl rfl) {} (hends (by decide +kernel))
  have h₂ := h₁.does (.save (.document 0)) trivial
    (fun n d h hn => by cases h; cases hn; decide +kernel) _ (.save rfl) {}
    (hends (by decide +kernel))
  exact ⟨_, _, h₂, by decide +kernel, (Session.heardBy_eq watches_listened h₂).1⟩

end Workbench

end EditorBridge
