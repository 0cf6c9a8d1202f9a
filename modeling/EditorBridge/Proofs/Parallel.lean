/-
The relay and the queries in two runs that differ in formatting.

The relay looks at a request to format only to find out whether the program is to end, and
nobody else looks at it at all.  So two trackers that are the same, with links that are
alike, stay so whatever happens (`Parallel`): documents are announced on both sides or on
none, and so on, and queries come to the same, as far as the numbers of futures go.

A run that asks for a document to be formatted takes that step alone, and goes on where the
other one is (`Parallel.formatsLeft`).
-/
import EditorBridge.Proofs.Link.Alike
import EditorBridge.Proofs.Link.Definite
import EditorBridge.Proofs.Queries

namespace EditorBridge

open Act (Abreast Definite Ends Same)
open Json (Writable)
open Link (Alike Beside)

namespace Act

variable {σ τ α β : Type} {a : Act σ α} {b : Act τ β} {s : σ} {t : τ}

/-- What is known of two acts on their own, if they do not depend on what has been recorded. -/
theorem Abreast.of_ends [ha : Definite a] [hb : Definite b] {P : Except Failure α → σ → Prop}
    {P' : Except Failure β → τ → Prop} (h : Ends a s P) (h' : Ends b t P') :
    Abreast a b s t fun r s' x t' => P r s' ∧ P' x t' := fun j j' _ =>
  ⟨(ha.abreast s j j (.refl j)).1, (hb.abreast t j' j' (.refl j')).1, h j, h' j'⟩

end Act

/-- Two runs are in step: they have the same tracker, and links that differ in what becomes of
formatting only. -/
structure Parallel (ps : List (FutureId × FutureId)) (s s' : Tracker × Link) : Prop where
  tracker : s'.1 = s.1
  link : Alike ps s.2 s'.2

variable {ps qs : List (FutureId × FutureId)} {s s' s₁ : Tracker × Link} {d : Document}
  {m : String}

/-! ### Announcements and publications -/

namespace Parallel

theorem logParams (h : Parallel ps s s') (l : Logger) (before : String) (params : Value) :
    Abreast (Tracker.logParams l before params) (Tracker.logParams l before params) s s'
      (Same (Parallel ps)) := .logBuilt ⟨rfl, h⟩ fun _ _ => ⟨rfl, h⟩

theorem notify (h : Parallel ps s s') (hm : m ≠ Relay.method) (params : Value) :
    Abreast (Tracker.onChannel (Channel.notify m params))
      (Tracker.onChannel (Channel.notify m params)) s s' (Same (Parallel ps)) :=
  .on ((h.link.sendNotification hm params).mono fun _ _ _ _ hr => ⟨hr.1, h.tracker, hr.2⟩)

theorem update (h : Parallel ps s s') (f : Tracker → Tracker) :
    Parallel ps (f s.1, s.2) (f s'.1, s'.2) := ⟨congrArg f h.tracker, h.link⟩

/-- **A document is announced** on both sides, or on none. -/
theorem ensureOpen (h : Parallel ps s s') (d : Document) :
    Abreast (Tracker.ensureOpen d) (Tracker.ensureOpen d) s s' (Same (Parallel ps)) := by
  refine .traced (.read ?_)
  rw [h.tracker]
  split
  · exact .pure ⟨rfl, h⟩
  · refine .change_bind (.bind (.ofExcept ?_))
    have hmarked := h.update (Tracker.insert d.identity)
    cases Tracker.openParams d with
    | error f => exact ⟨rfl, hmarked⟩
    | ok params =>
      refine .bind ((hmarked.logParams _ _ params).mono fun r s x s' hr => ?_)
      obtain ⟨rfl, hs⟩ := hr
      cases r with
      | error f => exact ⟨rfl, hs⟩
      | ok _ =>
        refine .bind (.tryCatch ((hs.notify (by decide) params).mono fun r s x s' hr => ?_))
        obtain ⟨rfl, hs⟩ := hr
        cases r with
        | error f => exact .change_bind (.throw ⟨rfl, hs.update _⟩)
        | ok _ => exact .pure ⟨rfl, hs⟩

theorem publish (h : Parallel ps s s') (hm : m ≠ Relay.method) (params : Value) :
    Abreast (Relay.publish m params) (Relay.publish m params) s s'
      (Same (Parallel ps)) := by
  refine .bind ((h.logParams _ _ params).mono fun r s x s' hr => ?_)
  obtain ⟨rfl, hs⟩ := hr
  cases r with
  | error f => exact ⟨rfl, hs⟩
  | ok _ => exact hs.notify hm params

end Parallel

/-! ### The relay -/

namespace Relay

/-- Two relays for the same documents; how they format is up to them. -/
structure Like (r r' : Relay) : Prop where
  schemes : r'.schemes = r.schemes
  writable : Writable r.formatting
  writable' : Writable r'.formatting

variable {r r' : Relay}

/-- A request to format a document. -/
def formattingNote (r : Relay) (d : Document) : Note :=
  { kind := "request", method := some Relay.method, params := d.named [("options", r.formatting)] }

/-- **Asking for a document to be formatted** goes through, whatever becomes of it, and concerns
nobody else. -/
theorem requestFormatting_beside (hw : Writable r.formatting) (hrec : s.2.recording = true)
    (hg : s.2.recorder.Gentle) : Ends (r.requestFormatting d) s fun x s₁ => x = .ok () ∧
      s₁.1 = s.1 ∧ Beside s.2 s₁.2 ∧ (s₁.2.recorder.notes = s.2.recorder.notes ∨
        s₁.2.recorder.notes = s.2.recorder.notes ++ [r.formattingNote d]) := by
  unfold requestFormatting
  refine .bind (.ofExcept ?_)
  rw [identityParams_eq]
  refine .bind ((Tracker.logParams_ends (d.writable_named (by simpa using hw)) _).mono
    fun x s hr => ?_)
  obtain ⟨rfl, rfl⟩ := hr
  refine .bind (.outcome (.on ((Link.sendFormatting_ends hrec hg).mono fun x l hr => ?_)))
  obtain ⟨hb, hr⟩ := hr
  cases x with
  | ok f =>
    obtain ⟨rfl, hnotes⟩ := hr
    refine .on ?_
    show Ends (Act.change fun l : Link => { l with
      loop := l.loop.whenDone .call s.2.loop.futures.size (.formatted d.identity) }) l _
    exact .change ⟨rfl, rfl, hb.followed d.identity, .inr hnotes⟩
  | error f =>
    obtain ⟨hf, rfl⟩ := hr
    dsimp only
    rw [if_neg (by simp [hf])]
    exact .logFailure ⟨rfl, rfl, hb, .inl rfl⟩

end Relay

namespace Parallel

variable {r r' : Relay} {a b : Act (Tracker × Link) Unit}
  {Q : Except Failure Unit → Tracker × Link → Except Failure Unit → Tracker × Link → Prop}

/-- What is published, once its parameters are there. -/
theorem published (h : Parallel ps s s') (hm : m ≠ Relay.method)
    (params : Except Failure Value) :
    Abreast (do Relay.publish m (← Act.ofExcept params))
      (do Relay.publish m (← Act.ofExcept params)) s s' (Same (Parallel ps)) := by
  refine .bind (.ofExcept ?_)
  cases params with
  | error f => exact ⟨rfl, h⟩
  | ok params => exact h.publish hm params

theorem publishedChange (h : Parallel ps s s') (d : Document)
    (changes : Except Failure (List Wire)) :
    Abreast (do
        let changes ← Act.ofExcept changes
        Relay.publish "textDocument/didChange" (← Act.ofExcept (Relay.changeParams d changes)))
      (do
        let changes ← Act.ofExcept changes
        Relay.publish "textDocument/didChange" (← Act.ofExcept (Relay.changeParams d changes)))
      s s' (Same (Parallel ps)) := by
  refine .bind (.ofExcept ?_)
  cases changes with
  | error f => exact ⟨rfl, h⟩
  | ok changes => exact h.published (by decide) _

/-- What is published, and noted in the tracker then. -/
theorem publishedAndNoted (h : Parallel ps s s') (hm : m ≠ Relay.method)
    (params : Except Failure Value) (f : Tracker → Tracker) :
    Abreast (do Relay.publish m (← Act.ofExcept params); Tracker.update f)
      (do Relay.publish m (← Act.ofExcept params); Tracker.update f) s s'
      (Same (Parallel ps)) := by
  refine .bind (.ofExcept ?_)
  cases params with
  | error f => exact ⟨rfl, h⟩
  | ok params =>
    refine .bind ((h.publish hm params).mono fun r s x s' hr => ?_)
    obtain ⟨rfl, hs⟩ := hr
    cases r with
    | error f => exact ⟨rfl, hs⟩
    | ok _ => exact .change ⟨rfl, hs.update f⟩

/-- The first run may ask for a document to be formatted. -/
theorem formatsLeft (h : Parallel ps s s') (hw : Writable r.formatting)
    (hk : ∀ s₁, Parallel ps s₁ s' → Abreast a b s₁ s' Q) :
    Abreast (if r.formatOnSave = true then r.requestFormatting d >>= fun _ => a else a) b s s'
      Q := by
  split
  · have hasked :=
      Relay.requestFormatting_beside (d := d) hw h.link.recording h.link.recorder.gentle
    have hnothing : Ends (pure () : Act (Tracker × Link) Unit) s' fun _ _ => True := .pure trivial
    have halone := Abreast.of_ends hasked hnothing
    refine .left (P := fun s₁ => Parallel ps s₁ s') (halone.mono fun x s₁ y t hr => ?_)
      fun _ s₁ hs₁ => hk s₁ hs₁
    obtain ⟨⟨rfl, ht, hb, -⟩, -⟩ := hr
    exact ⟨⟨(), rfl⟩, h.tracker.trans ht.symm, hb.left h.link⟩
  · exact hk s h

/-- So may the second. -/
theorem formatsRight (h : Parallel ps s s') (hw : Writable r.formatting)
    (hk : ∀ s₁, Parallel ps s s₁ → Abreast a b s s₁ Q) :
    Abreast a (if r.formatOnSave = true then r.requestFormatting d >>= fun _ => b else b) s s'
      Q := by
  split
  · have hasked :=
      Relay.requestFormatting_beside (d := d) hw h.link.recording' h.link.recorder.gentle'
    have hnothing : Ends (pure () : Act (Tracker × Link) Unit) s fun _ _ => True := .pure trivial
    have halone := Abreast.of_ends hasked hnothing
    refine .symm (.left (P := fun s₁ => Parallel ps s s₁) (halone.mono fun x s₁ y t hr => ?_)
      fun _ s₁ hs₁ => (hk s₁ hs₁).symm)
    obtain ⟨⟨rfl, ht, hb, -⟩, -⟩ := hr
    exact ⟨⟨(), rfl⟩, ht.trans h.tracker, hb.right h.link⟩
  · exact hk s' h

theorem opened (h : Parallel ps s s') (hr : r.Like r') (d : Document) :
    Abreast (r.opened d) (r'.opened d) s s' (Same (Parallel ps)) := by
  unfold Relay.opened
  rw [hr.schemes]
  split
  · exact .pure ⟨rfl, h⟩
  · exact h.publishedAndNoted (by decide) _ _

theorem closed (h : Parallel ps s s') (hr : r.Like r') (d : Document) :
    Abreast (r.closed d) (r'.closed d) s s' (Same (Parallel ps)) := by
  unfold Relay.closed
  rw [hr.schemes]
  split
  · exact .pure ⟨rfl, h⟩
  · exact h.publishedAndNoted (by decide) _ _

theorem changed (h : Parallel ps s s') (hr : r.Like r') (e : ChangeEvent) :
    Abreast (r.changed e) (r'.changed e) s s' (Same (Parallel ps)) := by
  unfold Relay.changed
  rw [hr.schemes]
  dsimp only
  split
  · exact .pure ⟨rfl, h⟩
  · refine .bind ((h.ensureOpen e.document).mono fun r s x s' hr => ?_)
    obtain ⟨rfl, hs⟩ := hr
    cases r with
    | error f => exact ⟨rfl, hs⟩
    | ok known =>
      dsimp only
      split
      · exact hs.publishedChange e.document _
      · exact hs.publishedChange e.document _

/-- **A save** is told in the same way, whether the document is to be formatted or not. -/
theorem saved (h : Parallel ps s s') (hr : r.Like r') (d : Document) :
    Abreast (r.saved d) (r'.saved d) s s' (Same (Parallel ps)) := by
  unfold Relay.saved
  rw [hr.schemes]
  split
  · exact .pure ⟨rfl, h⟩
  · refine .bind ((h.ensureOpen d).mono fun x s y s' hx => ?_)
    obtain ⟨rfl, hs⟩ := hx
    cases x with
    | error f => exact ⟨rfl, hs⟩
    | ok _ =>
      exact hs.formatsLeft hr.writable fun s₁ h₁ => h₁.formatsRight hr.writable' fun s₁' h₂ =>
        h₂.published (by decide) _

end Parallel

/-! ### Queries -/

/-- Two queries have come to the same, or wait for the same request. -/
inductive Step.Twin (ps : List (FutureId × FutureId)) :
    Except Failure Step → Except Failure Step → Prop
  | failed (f : Failure) : Twin ps (.error f) (.error f)
  | done (x : Reply) : Twin ps (.ok (.done x)) (.ok (.done x))
  | waits {f f' : FutureId} (h : (f, f') ∈ ps) (rest : List Resumption) :
    Twin ps (.ok (.wait f rest)) (.ok (.wait f' rest))

theorem Step.Twin.over (r : Except Failure Reply) : Step.Twin ps (r.map .done) (r.map .done) := by
  cases r with
  | ok x => exact .done x
  | error f => exact .failed f

/-- The futures that two queries wait for, if both do. -/
def Step.paired : Except Failure Step → Except Failure Step → List (FutureId × FutureId)
  | .ok (.wait f _), .ok (.wait f' _) => [(f, f')]
  | _, _ => []

/-- The only pair that matters to two queries is that of the futures they wait for. -/
theorem Step.Twin.paired {r x : Except Failure Step} (h : Step.Twin ps r x) :
    Step.paired r x ⊆ ps ∧ Step.Twin (Step.paired r x) r x := by
  cases h with
  | failed f => exact ⟨List.nil_subset ps, .failed f⟩
  | done x => exact ⟨List.nil_subset ps, .done x⟩
  | waits hp rest =>
    exact ⟨List.cons_subset.2 ⟨hp, List.nil_subset ps⟩, .waits (List.mem_singleton_self _) rest⟩

/-- Two runs go on in step, and queries in them have come to the same. -/
def Queried (ps : List (FutureId × FutureId)) (r : Except Failure Step) (s : Tracker × Link)
    (x : Except Failure Step) (s' : Tracker × Link) : Prop :=
  ∃ qs, ps ⊆ qs ∧ Parallel qs s s' ∧ Step.Twin qs r x

theorem Queried.mono {r x : Except Failure Step} (h : Queried qs r s x s') (hs : ps ⊆ qs) :
    Queried ps r s x s' := by
  obtain ⟨qs', hsub, h⟩ := h
  exact ⟨qs', List.Subset.trans hs hsub, h⟩

namespace Link.Alike

variable {l l' : Link} {f f' : FutureId}

theorem requested (h : Alike ps l l') (t : TokenId) : l'.requested t = l.requested t :=
  (h.tokens t).requested

/-- An answer is heard in the same way on both sides. -/
theorem answered (h : Alike ps l l') (m : String) (t : TokenId) (r : Except Failure Reply) :
    Abreast (Query.answered m t r) (Query.answered m t r) l l'
      fun y s y' s' => Alike ps s s' ∧ Step.Twin ps y y' := by
  refine (Abreast.of_ends (Query.answered_ends m t r l) (Query.answered_ends m t r l')).mono ?_
  rintro y s y' s' ⟨⟨rfl, rfl⟩, rfl, rfl⟩
  rw [h.requested]
  exact ⟨h, .over _⟩

/-- Both sides wait for an answer, or neither does. -/
theorem awaiting (h : Alike ps l l') (hp : (f, f') ∈ ps) (m : String) (t : TokenId) :
    Abreast (Link.awaiting f (.answered m t) (Query.answered m t))
      (Link.awaiting f' (.answered m t) (Query.answered m t)) l l'
      fun y s y' s' => Alike ps s s' ∧ Step.Twin ps y y' := by
  refine .read ?_
  rw [h.ending hp]
  cases l.loop.ending? f with
  | none => exact .pure ⟨h, .waits hp _⟩
  | some e => exact h.answered m t e.toExcept

end Link.Alike

namespace Parallel

theorem onLink {α β : Type} {a : Act Link α} {b : Act Link β}
    {Q : Except Failure α → Tracker × Link → Except Failure β → Tracker × Link → Prop}
    (h : Abreast a b s.2 s'.2 fun r l x l' => Q r (s.1, l) x (s'.1, l')) :
    Abreast (Query.onLink a) (Query.onLink b) s s' Q := .on h

/-- A request is sent on both sides, or on none, and waited for in the same way. -/
theorem request (h : Parallel ps s s') (q : Query) (params : Value) (t : TokenId) :
    Abreast (q.request params t) (q.request params t) s s' (Queried ps) := by
  have hm : q.method ≠ Relay.method := by cases q <;> decide
  refine .bind ((h.logParams _ _ params).mono fun r s x s' hr => ?_)
  obtain ⟨rfl, hs⟩ := hr
  cases r with
  | error f => exact ⟨ps, List.Subset.refl ps, hs, .failed f⟩
  | ok _ =>
    refine .bind (.outcome (onLink ((hs.link.sendQuery hm params q.target t).mono
      fun r l x l' hr => ?_)))
    obtain ⟨qs, hsub, hl, hr⟩ := hr
    match r, x, hr with
    | .error f, .error _, rfl =>
      exact onLink ((hl.answered q.method t _).mono fun y _ y' _ hy =>
        ⟨qs, hsub, ⟨hs.tracker, hy.1⟩, hy.2⟩)
    | .ok f, .ok f', hp =>
      exact onLink ((hl.awaiting hp q.method t).mono fun y _ y' _ hy =>
        ⟨qs, hsub, ⟨hs.tracker, hy.1⟩, hy.2⟩)

theorem converted (h : Parallel ps s s') (q : Query) (r : Except Failure Reply) :
    Abreast (q.converted r) (q.converted r) s s' (Queried ps) := by
  refine (Abreast.of_ends (Query.converted_ends q r s) (Query.converted_ends q r s')).mono ?_
  rintro y s y' s' ⟨⟨rfl, rfl⟩, rfl, rfl⟩
  exact ⟨ps, List.Subset.refl ps, h, .over _⟩

/-- Calls go on with what they called in the same way. -/
theorem calling {a b : Act (Tracker × Link) Step} {rest : Resumption}
    {go : Except Failure Reply → Act (Tracker × Link) Step} (h : Abreast a b s s' (Queried ps))
    (hgo : ∀ r qs s s', Parallel qs s s' → Abreast (go r) (go r) s s' (Queried qs)) :
    Abreast (Step.calling a rest go) (Step.calling b rest go) s s' (Queried ps) := by
  refine .bind (.outcome (h.mono fun r s x s' hr => ?_))
  obtain ⟨qs, hsub, hs, hr⟩ := hr
  cases hr with
  | failed f => exact (hgo _ _ _ _ hs).mono fun _ _ _ _ hq => hq.mono hsub
  | done x => exact (hgo _ _ _ _ hs).mono fun _ _ _ _ hq => hq.mono hsub
  | waits hp rest => exact .pure ⟨qs, hsub, hs, .waits hp _⟩

/-- Calls may be recorded. -/
theorem traced {a b : Act (Tracker × Link) Step} {l : Logger} {call : String}
    {arguments arguments' : Unit → List String} (h : Abreast a b s s' (Queried ps)) :
    Abreast (Step.traced l call arguments a) (Step.traced l call arguments' b) s s'
      (Queried ps) := by
  have htraces : Abreast (Act.traces l .trace) (Act.traces l .trace) s s' fun r t x t' =>
      r = x ∧ (∃ b, r = .ok b) ∧ t = s ∧ t' = s' := fun j j' hj => by
    refine ⟨.refl j, .refl j', ?_, ⟨_, rfl⟩, rfl, rfl⟩
    show Except.ok _ = Except.ok _
    rw [hj.keeps, hj.tracing]
  refine .bind (htraces.mono ?_)
  rintro _ _ _ _ ⟨rfl, ⟨b, rfl⟩, rfl, rfl⟩
  dsimp only
  split
  · refine .bind (.log (calling h fun r qs s s' hs => ?_))
    unfold Step.afterCall
    cases r with
    | ok x => exact .pure ⟨qs, List.Subset.refl qs, hs, .done x⟩
    | error f => exact .bind (.log (.throw ⟨qs, List.Subset.refl qs, hs, .failed f⟩))
  · exact h

/-- **A query** begins in the same way on both sides. -/
theorem tracedAsk (h : Parallel ps s s') (schemes : List String) (q : Query) (d : Document)
    (p : Position) (token : Option TokenId) :
    Abreast (q.tracedAsk schemes d p token) (q.tracedAsk schemes d p token) s s'
      (Queried ps) := by
  have hrest (t : TokenId) {s s' : Tracker × Link} (h : Parallel ps s s') : Abreast (do
      let _ ← Tracker.ensureOpen d
      let params ← Act.ofExcept (Query.params d p)
      Step.calling (q.request params t) (.converted q) q.converted) (do
      let _ ← Tracker.ensureOpen d
      let params ← Act.ofExcept (Query.params d p)
      Step.calling (q.request params t) (.converted q) q.converted) s s' (Queried ps) := by
    refine .bind ((h.ensureOpen d).mono fun r s x s' hr => ?_)
    obtain ⟨rfl, hs⟩ := hr
    cases r with
    | error f => exact ⟨ps, List.Subset.refl ps, hs, .failed f⟩
    | ok _ =>
      refine .bind (.ofExcept ?_)
      cases Query.params d p with
      | error f => exact ⟨ps, List.Subset.refl ps, hs, .failed f⟩
      | ok params => exact calling (hs.request q params t) fun r qs s s' hs => hs.converted q r
  refine .read (traced ?_)
  unfold Query.ask
  split
  · exact .bind (.log (.pure ⟨ps, List.Subset.refl ps, h, .done .nothing⟩))
  · refine .bind (.log ?_)
    cases token with
    | some t => exact .bind (.pure (hrest t h))
    | none =>
      refine .bind (onLink (h.link.newToken.mono fun r l x l' hr => ?_))
      obtain ⟨rfl, hl⟩ := hr
      cases r with
      | error f => exact ⟨ps, List.Subset.refl ps, ⟨h.tracker, hl⟩, .failed f⟩
      | ok t => exact hrest t ⟨h.tracker, hl⟩

end Parallel

end EditorBridge
