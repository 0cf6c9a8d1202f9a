/-
Formatting is on the side.

Two runs are compared that differ in whether documents are formatted when they are saved, and in
what becomes of the requests to format them: they are refused, stay open, or end in any way at
any time (`Twins`).  The runs are parallel at all times, so everything else that is sent is the
same, the tracker is the same, and queries come to the same.

A request to format goes out between the announcement of the document, if there is need of one,
and the news that it was saved.  Whether the document is open at the server then is another
matter: the rule of the protocol is kept by both runs as far as it is kept at all, which is for
documents with a version that the protocol knows.
-/
import EditorBridge.Proofs.Parallel
import EditorBridge.Proofs.Saving

namespace EditorBridge

open Act (Abreast Ends Keeps Same)
open Json (Writable)

variable {ps qs : List (FutureId × FutureId)} {s s' : Tracker × Link} {d : Document}

/-! ### What happens in both runs -/

namespace Happening

variable {x x' : Happening}

/-- The same happens to relays that may differ in how they format documents. -/
inductive Like : Happening → Happening → Prop
  | opened {r r' : Relay} (h : r.Like r') (d : Document) : Like (opened r d) (opened r' d)
  | changed {r r' : Relay} (h : r.Like r') (e : ChangeEvent) : Like (changed r e) (changed r' e)
  | saved {r r' : Relay} (h : r.Like r') (d : Document) : Like (saved r d) (saved r' d)
  | closed {r r' : Relay} (h : r.Like r') (d : Document) : Like (closed r d) (closed r' d)

theorem Like.needs (h : x.Like x') : x'.needs = x.needs := by
  cases h with
  | opened | closed => rfl
  | changed h | saved h => simp only [Happening.needs, h.schemes]

/-- **Whatever happens** comes to the same in both runs. -/
theorem Like.abreast (hx : x.Like x') (h : Parallel ps s s') :
    Abreast x.act x'.act s s' (Same (Parallel ps)) := by
  cases hx with
  | opened hr d => exact h.opened hr d
  | changed hr e => exact h.changed hr e
  | saved hr d => exact h.saved hr d
  | closed hr d => exact h.closed hr d

/-- What happens on the way to the server, and is not about formatting. -/
inductive Passing where
  /-- A token is made. -/
  | token
  | cancelled (t : TokenId)
  /-- The oldest request of a method that is open ends. -/
  | ended (m : String) (hm : m ≠ Relay.method) (e : Wire.Target → Ending Reply)

namespace Passing

def act : Passing → Act Link Unit
  | token => do
    let _ ← Link.newToken
  | cancelled t => Link.cancelToken t
  | ended m _ e => Link.endOldest m e

theorem abreast (p : Passing) {l l' : Link} (h : Link.Alike ps l l') :
    Abreast p.act p.act l l' (Same (Link.Alike ps)) := by
  cases p with
  | token =>
    refine .bind (h.newToken.mono fun r l x l' hr => ?_)
    obtain ⟨rfl, hl⟩ := hr
    cases r with
    | error f => exact ⟨rfl, hl⟩
    | ok _ => exact .pure ⟨rfl, hl⟩
  | cancelled t => exact h.cancelToken t
  | ended m hm e => exact h.endOldest hm e

/-- Nothing is told on the way that would be about documents. -/
instance quiet (p : Passing) : Keeps Link.Quiet p.act := by
  cases p with
  | token =>
    unfold act
    infer_instance
  | cancelled t => exact Link.quiet_cancelToken t
  | ended m hm e =>
    have hrest (rest : List (FutureId × Wire.Target)) : Keeps Link.Quiet
        (Link.onRecorder fun r => { r with
          waiting := (m, rest) :: r.waiting.filter (·.1 ≠ m) }) :=
      Link.quiet_change fun l => Link.quiet_rest rfl rfl rfl ⟨rfl, rfl, rfl⟩
    have htake : Keeps Link.Quiet (Link.takeWaiting m) := by
      unfold Link.takeWaiting Link.theRecorder
      refine .andThen fun r => ?_
      split <;> infer_instance
    unfold act Link.endOldest
    infer_instance

end Passing

/-! ### Two runs -/

/-- Two runs of those who share a tracker, and the futures that queries wait for in both.  They
differ in whether documents are formatted, and in what becomes of the requests for it. -/
inductive Twins (P : Document → Prop) :
    List (FutureId × FutureId) → Tracker × Link → Tracker × Link → Prop
  /-- Nothing has been sent that waits for an answer. -/
  | start {l : Link} (hrec : l.recording = true) (htokens : l.tokens = #[])
    (hwaiting : l.recorder.waiting = []) (hg : l.recorder.Gentle) : Twins P [] ({}, l) ({}, l)
  /-- The same happens in both runs, but for formatting. -/
  | happens {ps : List (FutureId × FutureId)} {s s' : Tracker × Link} (h : Twins P ps s s')
    {x x' : Happening} (hx : x.Like x') (hP : ∀ d ∈ x.needs, P d) {j j' : Journal}
    (hj : j.Like j') : Twins P ps (x.act ⟨j, s⟩).2.state (x'.act ⟨j', s'⟩).2.state
  /-- The editor asks the same in both runs. -/
  | asked {ps : List (FutureId × FutureId)} {s s' : Tracker × Link} (h : Twins P ps s s')
    {schemes : List String} {q : Query} {d : Document} {p : Position} {token : Option TokenId}
    (hP : d.takesPart schemes = true → P d) {j j' : Journal} (hj : j.Like j') :
    Twins P (ps ++ Step.paired (q.tracedAsk schemes d p token ⟨j, s⟩).1
        (q.tracedAsk schemes d p token ⟨j', s'⟩).1)
      (q.tracedAsk schemes d p token ⟨j, s⟩).2.state
      (q.tracedAsk schemes d p token ⟨j', s'⟩).2.state
  /-- The server has stopped, or the extension is deactivated. -/
  | cleared {ps : List (FutureId × FutureId)} {s s' : Tracker × Link} (h : Twins P ps s s')
    (j j' : Journal) :
    Twins P ps ((Tracker.on Tracker.clear : Act (Tracker × Link) Unit) ⟨j, s⟩).2.state
      ((Tracker.on Tracker.clear : Act (Tracker × Link) Unit) ⟨j', s'⟩).2.state
  | passes {ps : List (FutureId × FutureId)} {s s' : Tracker × Link} (h : Twins P ps s s')
    (p : Passing) {j j' : Journal} (hj : j.Like j') :
    Twins P ps (s.1, (p.act ⟨j, s.2⟩).2.state) (s'.1, (p.act ⟨j', s'.2⟩).2.state)
  /-- It is decided anew which messages are refused, and how requests are answered. -/
  | decided {ps : List (FutureId × FutureId)} {s s' : Tracker × Link} (h : Twins P ps s s')
    (sendFails : List (String × Failure)) (responses : List (String × Response))
    (failsCancelled : Bool)
    (hg : ∀ f, sendFails.lookup Relay.method = some f → f.isExit = false) :
    Twins P ps
      (s.1, { s.2 with recorder := { s.2.recorder with sendFails, responses, failsCancelled } })
      (s'.1, { s'.2 with recorder := { s'.2.recorder with sendFails, responses, failsCancelled } })
  /-- Something becomes of requests to format in one run: they end, in any way, or it is decided
  anew whether they are refused and how they are answered. -/
  | beside {ps : List (FutureId × FutureId)} {s s' : Tracker × Link} (h : Twins P ps s s')
    {l : Link} (hb : Link.Beside s.2 l) (hnotes : l.recorder.notes = s.2.recorder.notes) :
    Twins P ps (s.1, l) s'
  | beside' {ps : List (FutureId × FutureId)} {s s' : Tracker × Link} (h : Twins P ps s s')
    {l : Link} (hb : Link.Beside s'.2 l) (hnotes : l.recorder.notes = s'.2.recorder.notes) :
    Twins P ps s (s'.1, l)
  /-- The relay hears what a request to format has come to. -/
  | heard {ps : List (FutureId × FutureId)} {s s' : Tracker × Link} (h : Twins P ps s s')
    (uri : String) (e : Ending Reply) (j : Journal) :
    Twins P ps (Relay.formatted uri e ⟨j, s⟩).2.state s'
  | heard' {ps : List (FutureId × FutureId)} {s s' : Tracker × Link} (h : Twins P ps s s')
    (uri : String) (e : Ending Reply) (j : Journal) :
    Twins P ps s (Relay.formatted uri e ⟨j, s'⟩).2.state

variable {P : Document → Prop} {told : List Told} {x x' : Happening}

/-- Nothing is done with what a request to format has come to. -/
theorem formatted_state (uri : String) (e : Ending Reply) (j : Journal) (s : Tracker × Link) :
    (Relay.formatted uri e ⟨j, s⟩).2.state = s := by
  have hends : Ends (Relay.formatted uri e) s fun _ s' => s' = s := by
    unfold Relay.formatted
    cases e with
    | cancelled => exact .log rfl
    | failed f => exact .logFailure rfl
    | result r => exact .log rfl
  exact hends j

theorem asked_state (schemes : List String) (q : Query) (d : Document) (p : Position)
    (token : Option TokenId) (j : Journal) (s : Tracker × Link) :
    ((Happening.asked schemes q d p token).act ⟨j, s⟩).2.state =
      (q.tracedAsk schemes d p token ⟨j, s⟩).2.state := by
  show ((q.tracedAsk schemes d p token >>= fun _ => pure ()) ⟨j, s⟩).2.state = _
  rw [Act.run_bind]
  obtain ⟨r | f, e⟩ := q.tracedAsk schemes d p token ⟨j, s⟩ <;> rfl

/-- A run goes on with what happens on the way to the server. -/
theorem Run.passes (h : Run P s told) (p : Passing) (j : Journal) :
    Run P (s.1, (p.act ⟨j, s.2⟩).2.state) told := by
  have hquiet := p.quiet.ends s.2 j
  refine h.meanwhile (hquiet.recording.trans h.recording) ?_
  simpa using hquiet.heard .recorder

namespace Twins

/-- **The runs are in step.** -/
theorem parallel (h : Twins P ps s s') : ∃ qs, ps ⊆ qs ∧ Parallel qs s s' := by
  induction h with
  | start hrec htokens hwaiting hg =>
    exact ⟨[], List.Subset.refl _, rfl, .fresh hrec htokens hwaiting hg⟩
  | happens h hx hP hj ih =>
    obtain ⟨qs, hsub, hs⟩ := ih
    exact ⟨qs, hsub, (hx.abreast hs _ _ hj).2.2.2⟩
  | asked h hP hj ih =>
    obtain ⟨qs, hsub, hs⟩ := ih
    obtain ⟨qs', hsub', hs', htwin⟩ := (hs.tracedAsk _ _ _ _ _ _ _ hj).2.2
    exact ⟨qs', List.append_subset.2 ⟨List.Subset.trans hsub hsub', htwin.paired.1⟩, hs'⟩
  | @cleared ps s s' h j j' ih =>
    obtain ⟨qs, hsub, hs⟩ := ih
    rw [clear_ends s j, clear_ends s' j']
    exact ⟨qs, hsub, rfl, hs.link⟩
  | passes h p hj ih =>
    obtain ⟨qs, hsub, hs⟩ := ih
    exact ⟨qs, hsub, hs.tracker, (p.abreast hs.link _ _ hj).2.2.2⟩
  | decided h sendFails responses failsCancelled hg ih =>
    obtain ⟨qs, hsub, hs⟩ := ih
    exact ⟨qs, hsub, hs.tracker, hs.link.decided sendFails responses failsCancelled hg⟩
  | beside h hb hnotes ih =>
    obtain ⟨qs, hsub, hs⟩ := ih
    exact ⟨qs, hsub, hs.tracker, hb.left hs.link⟩
  | beside' h hb hnotes ih =>
    obtain ⟨qs, hsub, hs⟩ := ih
    exact ⟨qs, hsub, hs.tracker, hb.right hs.link⟩
  | heard h uri e j ih | heard' h uri e j ih =>
    rw [formatted_state]
    exact ih

/-- Each of them is a run. -/
theorem run (h : Twins P ps s s') : (∃ told, Run P s told) ∧ ∃ told, Run P s' told := by
  induction h with
  | start hrec => exact ⟨⟨[], .start hrec⟩, [], .start hrec⟩
  | happens h hx hP hj ih =>
    obtain ⟨⟨told, hs⟩, told', hs'⟩ := ih
    exact ⟨⟨_, hs.happens _ hP _⟩, _, hs'.happens _ (hx.needs ▸ hP) _⟩
  | @asked ps s s' h schemes q d p token hP j j' hj ih =>
    obtain ⟨⟨told, hs⟩, told', hs'⟩ := ih
    have hneeds : ∀ x ∈ (Happening.asked schemes q d p token).needs, P x := by
      intro x hx
      simp only [needs, Option.mem_def, Option.ite_none_right_eq_some, Option.some.injEq] at hx
      exact hx.2 ▸ hP hx.1
    have h₁ := hs.happens (.asked schemes q d p token) hneeds j
    have h₂ := hs'.happens (.asked schemes q d p token) hneeds j'
    rw [asked_state] at h₁ h₂
    exact ⟨⟨_, h₁⟩, _, h₂⟩
  | cleared h j j' ih =>
    obtain ⟨⟨told, hs⟩, told', hs'⟩ := ih
    exact ⟨⟨_, hs.cleared j⟩, _, hs'.cleared j'⟩
  | passes h p hj ih =>
    obtain ⟨⟨told, hs⟩, told', hs'⟩ := ih
    exact ⟨⟨told, hs.passes p _⟩, told', hs'.passes p _⟩
  | decided h sendFails responses failsCancelled hg ih =>
    obtain ⟨⟨told, hs⟩, told', hs'⟩ := ih
    exact ⟨⟨told, hs.meanwhile hs.recording rfl⟩, told', hs'.meanwhile hs'.recording rfl⟩
  | beside h hb hnotes ih =>
    obtain ⟨⟨told, hs⟩, hs'⟩ := ih
    refine ⟨⟨told, hs.meanwhile (hb.recording.trans hs.recording) ?_⟩, hs'⟩
    simp only [Link.heard, hnotes]
  | beside' h hb hnotes ih =>
    obtain ⟨hs, told', hs'⟩ := ih
    refine ⟨hs, told', hs'.meanwhile (hb.recording.trans hs'.recording) ?_⟩
    simp only [Link.heard, hnotes]
  | heard h uri e j ih | heard' h uri e j ih =>
    rw [formatted_state]
    exact ih

end Twins

/-! ### When requests to format go out -/

/-- Requests to format go out in time: while the document is open and before the news that it was
saved, and only then. -/
structure FormatsInTime (P : Document → Prop) (s : Tracker × Link) (told : List Told) : Prop where
  saved : ∀ (r : Relay) (d : Document), Writable r.formatting →
    (d.takesPart r.schemes = true → P d) → Ends (r.saved d) s fun _ s₁ => ∃ a b c,
      s₁.2.recorder.notes = s.2.recorder.notes ++ a ++ b ++ c ∧ (a = [] ∨ a = [d.openingNote]) ∧
        (b = [] ∨ b = [r.formattingNote d]) ∧ (c = [] ∨ c = [d.savingNote]) ∧
        (b ++ c ≠ [] → IsOpen d.identity (told ++ a.filterMap Note.told?))
  unasked : ∀ x : Happening, (∀ r d, x ≠ .saved r d) →
    Ends x.act s fun _ s₁ => s₁.2.recorder.asked = s.2.recorder.asked

theorem Run.formatsInTime (hP : ∀ d, P d → d.VersionFits) (h : Run P s told)
    (hg : s.2.recorder.Gentle) : FormatsInTime P s told := by
  refine ⟨fun r d hw hd => ?_, fun x hx => ?_⟩
  · refine (Relay.saved_inOrder hw h.recording hg).mono fun _ s₁ hr => ?_
    obtain ⟨a, b, c, hnotes, ha, hb, hc, hknown⟩ := hr
    refine ⟨a, b, c, hnotes, ha, hb, hc, fun hne => ?_⟩
    rcases ha with rfl | rfl
    · have hk := Tracker.knows_iff.1 (hknown rfl hne)
      simpa using (h.sound hP).1 d.identity hk
    · rw [List.filterMap_cons, d.told_openingNote]
      exact isOpen_append_singleton.2 (.inl rfl)
  · exact ((unasked hx).ends s).mono fun _ s₁ hs => (hs h.recording).2

/-! ### Formatting on the side -/

/-- Nothing but requests to format tells two runs apart. -/
structure Undisturbed (ps : List (FutureId × FutureId)) (s s' : Tracker × Link) : Prop where
  tracker : s'.1 = s.1
  others : s'.2.recorder.others = s.2.recorder.others
  /-- Whatever happens next comes to the same. -/
  happens : ∀ (x x' : Happening), x.Like x' → ∀ j j' : Journal, j.Like j' →
    (x'.act ⟨j', s'⟩).1 = (x.act ⟨j, s⟩).1
  /-- So does whatever is asked, at first. -/
  asked : ∀ (schemes : List String) (q : Query) (d : Document) (p : Position)
    (token : Option TokenId) (j j' : Journal), j.Like j' →
    Step.Twin (Step.paired (q.tracedAsk schemes d p token ⟨j, s⟩).1
        (q.tracedAsk schemes d p token ⟨j', s'⟩).1)
      (q.tracedAsk schemes d p token ⟨j, s⟩).1 (q.tracedAsk schemes d p token ⟨j', s'⟩).1
  /-- What queries wait for ends in the same way. -/
  ended : ∀ f f', (f, f') ∈ ps → s'.2.loop.ending? f' = s.2.loop.ending? f
  /-- A query that goes on comes to the same, and does nothing else. -/
  resumed : ∀ w w' : Workbench, w.link = s.2 → w'.link = s'.2 → ∀ q t rest, Query.Left q t rest →
    ∀ (r : Except Failure Reply) (j j' : Journal),
      (Workbench.resumeAll rest r ⟨j', w'⟩).1 = (Workbench.resumeAll rest r ⟨j, w⟩).1 ∧
        (Workbench.resumeAll rest r ⟨j, w⟩).2.state = w ∧
        (Workbench.resumeAll rest r ⟨j', w'⟩).2.state = w'

/-- **Formatting disturbs nothing.**  Two runs that differ in whether documents are formatted, and
in what becomes of that, are told apart by nothing but the requests for it.  In both of them
these requests go out in time, and the rule of the protocol is kept, if the documents that are
announced because they are needed have versions that the protocol knows. -/
theorem Twins.formattingAside (h : Twins P ps s s') : Undisturbed ps s s' ∧
    ((∀ d, P d → d.VersionFits) →
      (∃ told, Run P s told ∧ OpenBeforeUse told ∧ FormatsInTime P s told) ∧
        ∃ told, Run P s' told ∧ OpenBeforeUse told ∧ FormatsInTime P s' told) := by
  obtain ⟨qs, hsub, hs⟩ := h.parallel
  refine ⟨?_, fun hP => ?_⟩
  · exact
      { tracker := hs.tracker
        others := hs.link.recorder.others
        happens := fun x x' hx j j' hj => (hx.abreast hs j j' hj).2.2.1.symm
        asked := fun schemes q d p token j j' hj => by
          obtain ⟨_, _, _, htwin⟩ := (hs.tracedAsk schemes q d p token j j' hj).2.2
          exact htwin.paired.2
        ended := fun f f' hf => hs.link.ending (hsub hf)
        resumed := fun w w' hw hw' q t rest hleft r j j' => by
          obtain ⟨hstate, hr⟩ := hleft.resumeAll_heard r w j
          obtain ⟨hstate', hr'⟩ := hleft.resumeAll_heard r w' j'
          rw [hw'] at hr'
          rw [hw] at hr
          rw [hs.link.requested] at hr'
          exact ⟨hr'.trans hr.symm, hstate, hstate'⟩ }
  · obtain ⟨⟨told, hrun⟩, told', hrun'⟩ := h.run
    exact ⟨⟨told, hrun, (hrun.sound hP).2, hrun.formatsInTime hP hs.link.recorder.gentle⟩,
      told', hrun', (hrun'.sound hP).2, hrun'.formatsInTime hP hs.link.recorder.gentle'⟩

/-- A file has been opened. -/
def openedFile : Tracker × Link :=
  ((opened (relayOf Query.askedFile) Query.askedFile).act ⟨{}, {}, { recording := true }⟩).2.state

/-- It is saved. -/
def savedFile : Tracker × Link :=
  ((saved (relayOf Query.askedFile) Query.askedFile).act ⟨{}, openedFile⟩).2.state

/-- It is saved and to be formatted. -/
def formattedFile : Tracker × Link :=
  ((saved { relayOf Query.askedFile with formatOnSave := true } Query.askedFile).act
    ⟨{}, openedFile⟩).2.state

/-- It cannot be formatted, as it turns out later. -/
def unformattedFile : Tracker × Link :=
  (formattedFile.1, (Link.endOldest Relay.method (fun _ => .failed .nothingLeft)
    ⟨{}, formattedFile.2⟩).2.state)

theorem twins_unformattedFile : Twins Document.VersionFits [] unformattedFile savedFile := by
  have hlike : (relayOf Query.askedFile).Like (relayOf Query.askedFile) :=
    ⟨rfl, .null, .null⟩
  have hlike' : Relay.Like { relayOf Query.askedFile with formatOnSave := true }
      (relayOf Query.askedFile) := ⟨rfl, .null, .null⟩
  have hgentle : Recorder.Gentle {} := fun _ hf => by cases hf
  have hopened : Twins Document.VersionFits [] openedFile openedFile :=
    (Twins.start rfl rfl rfl hgentle).happens (.opened hlike _) nofun (.refl {})
  have hfits : ∀ d ∈ (saved { relayOf Query.askedFile with formatOnSave := true }
      Query.askedFile).needs, d.VersionFits := by
    intro d hd
    cases hd
    exact ⟨by decide, by decide⟩
  have hsaved : Twins Document.VersionFits [] formattedFile savedFile :=
    hopened.happens (.saved hlike' _) hfits (.refl {})
  have hwaiting : formattedFile.2.recorder.waiting.lookup Relay.method =
      some [(0, .listOf "TextEdit")] := by decide +kernel
  have hopen : formattedFile.2.loop.futures[0]?.map (·.callbacks) =
      some [.formatted Query.askedFile.identity] := by decide +kernel
  obtain ⟨x, hx, hcallbacks⟩ := Option.map_eq_some_iff.1 hopen
  have hformats : x.Formats := ⟨_, hcallbacks ▸ List.mem_singleton_self _⟩
  obtain ⟨hb, hnotes⟩ := Link.endFormatting_ends hwaiting hx hformats
    (fun _ => .failed .nothingLeft) {}
  exact hsaved.beside hb hnotes

/-- The run in which formatting fails is not told apart from the one without it, but for the
request, which it has in addition. -/
theorem formattingAside_file : savedFile.1 = unformattedFile.1 ∧
    savedFile.2.recorder.others = unformattedFile.2.recorder.others ∧
    savedFile.2.recorder.notes.length = 2 ∧ unformattedFile.2.recorder.notes.length = 3 ∧
    ∃ told, Run Document.VersionFits unformattedFile told ∧ OpenBeforeUse told ∧
      FormatsInTime Document.VersionFits unformattedFile told := by
  obtain ⟨hsame, hinTime⟩ := twins_unformattedFile.formattingAside
  exact ⟨hsame.tracker, hsame.others, by decide +kernel, by decide +kernel,
    (hinTime fun _ hd => hd).1⟩

end Happening

end EditorBridge
