/-
What the tracker, the relay and the queries do.

Each of them works on a tracker next to a link.  For each there is one relation that lists
how it can end: what was told, what the tracker knows afterwards, and why it failed if it
did.  Nothing below this file looks into a handler again.

Announcing needs nothing of the link but that it is a way to the server, so it is looked at
once for all of them (`Tracker.ensureOpen_announcing`).

The lists show the one flaw of the tracker.  A document is noted as known before its
announcement is built, and an announcement that cannot be built, because the version of
the document is outside the limits of the protocol, does not strike it out again
(`Announced.unfit`).  In every other case the tracker follows what is told.
-/
import EditorBridge.Proofs.Link.Sending

namespace EditorBridge

open Act (Keeps Ends Reads)
open Json (Writable)

/-- The announcement of a document, as it is heard. -/
def Document.opening (d : Document) : Told := .opened d.identity d.text d.version

/-- The changes of an event, as they are heard. -/
def ChangeEvent.deltas (e : ChangeEvent) : List Delta := e.changes.map fun c => .part c.range c.text

namespace Tracker

variable {κ : Type} {t : Tracker} {l : Link} {d : Document}

theorem logParams_ends {logger : Logger} {before : String} {params : Value} (hv : Writable params)
    (s : Tracker × κ) :
    Ends (logParams logger before params) s fun r s' => r = .ok () ∧ s' = s := by
  refine .logBuilt ⟨rfl, rfl⟩ fun f hf => ?_
  obtain ⟨text, htext⟩ := hv.render .spaced
  rw [htext] at hf
  cases hf

/-- How announcing a document ends, if need be, on a channel that takes the announcement as
`N` tells. -/
inductive Announcing (d : Document) (t : Tracker) (c : κ) (N : Except Failure Unit → κ → Prop) :
    Except Failure Bool → Tracker × κ → Prop
  /-- The document was known. -/
  | known (h : t.knows d.identity = true) : Announcing d t c N (.ok true) (t, c)
  /-- The channel takes the announcement. -/
  | taken (h : t.knows d.identity = false) (hv : d.VersionFits) {c' : κ} (hN : N (.ok ()) c') :
    Announcing d t c N (.ok false) (t.insert d.identity, c')
  /-- The channel does not take it. -/
  | refused (h : t.knows d.identity = false) (hv : d.VersionFits) {f : Failure} {c' : κ}
    (hN : N (.error f) c') : Announcing d t c N (.error f) (t, c')
  /-- There is no announcement, but the document counts as known from now on. -/
  | unfit (h : t.knows d.identity = false) (hv : ¬d.VersionFits) (f : Failure) :
    Announcing d t c N (.error f) (t.insert d.identity, c)

/-- **Announcing a document** on any channel: what is not known is sent, once. -/
theorem ensureOpen_announcing [Channel κ] {c : κ} {N : Except Failure Unit → κ → Prop}
    (hN : d.VersionFits → Ends (Channel.notify "textDocument/didOpen" d.announcement) c N) :
    Ends (ensureOpen d) (t, c) (Announcing d t c N) := by
  refine .traced (.read ?_)
  split
  · rename_i h
    exact .pure (.known h)
  · rename_i h
    have h : t.knows d.identity = false := by simpa using h
    refine .change_bind (.bind (.ofExcept ?_))
    by_cases hv : d.VersionFits
    · rw [openParams_ok_iff.2 ⟨hv, rfl⟩]
      refine .bind ((logParams_ends (Document.writable_announcement hv) _).mono fun r s hr => ?_)
      obtain ⟨rfl, rfl⟩ := hr
      refine .bind (.tryCatch (.on ((hN hv).mono fun r c' hr => ?_)))
      cases r with
      | ok _ => exact .pure (.taken h hv hr)
      | error f =>
        refine .change_bind (.throw ?_)
        show Announcing d t c N _ ((t.insert d.identity).erase d.identity, c')
        rw [erase_insert h]
        exact .refused h hv hr
    · cases hp : openParams d with
      | ok v => exact absurd (openParams_ok_iff.1 hp).1 hv
      | error f => exact .unfit h hv f

/-- How announcing a document ends, if need be. -/
inductive Announced (d : Document) (t : Tracker) (l : Link) :
    Except Failure Bool → Tracker × Link → Prop
  /-- The document was known. -/
  | known (h : t.knows d.identity = true) : Announced d t l (.ok true) (t, l)
  /-- It is announced. -/
  | told (h : t.knows d.identity = false) {l' : Link} (ht : Link.Tells [d.opening] l l')
    (hv : d.VersionFits) : Announced d t l (.ok false) (t.insert d.identity, l')
  /-- The announcement is not taken. -/
  | refused (h : t.knows d.identity = false) {f : Failure} {l' : Link} (ht : Link.Quiet l l')
    (hf : l.recording = true → l.recorder.sendFails.lookup "textDocument/didOpen" = some f) :
    Announced d t l (.error f) (t, l')
  /-- There is no announcement, but the document counts as known from now on. -/
  | unfit (h : t.knows d.identity = false) {f : Failure} (hv : ¬d.VersionFits) :
    Announced d t l (.error f) (t.insert d.identity, l)

/-- Announcing a document tells the server about it, unless it is known. -/
theorem ensureOpen_ends (d : Document) (t : Tracker) (l : Link) :
    Ends (ensureOpen d) (t, l) (Announced d t l) := by
  have hsent (hv : d.VersionFits) :
      Ends (Link.sendNotification "textDocument/didOpen" d.announcement) l
        (Link.Sent "textDocument/didOpen" d.announcement l) :=
    Link.sendNotification_ends fun _ => Document.writable_announcement hv
  refine (ensureOpen_announcing hsent).mono fun r s hr => ?_
  cases hr with
  | known h => exact .known h
  | taken h hv hs =>
    cases hs with
    | sent ht =>
      rw [d.told_announcement] at ht
      exact .told h ht hv
  | refused h hv hs =>
    cases hs with
    | refused ht hf => exact .refused h ht hf
  | unfit h hv _ => exact .unfit h hv

/-- Afterwards nothing is known. -/
theorem clear_ends (t : Tracker) : Ends clear t fun r t' => r = .ok () ∧ t' = {} := by
  refine .read ?_
  dsimp only
  split
  · exact .bind (.log (.change ⟨rfl, rfl⟩))
  · exact .change ⟨rfl, rfl⟩

end Tracker

/-! ### Mentioning documents -/

/-- A document is mentioned a number of times, and nothing else happens. -/
def Mentions (uri : String) (s s' : Tracker × Link) : Prop :=
  s'.1 = s.1 ∧ ∃ n, Link.Tells (List.replicate n (.mentioned uri)) s.2 s'.2

namespace Mentions

variable {uri : String} {s s' s'' : Tracker × Link}

theorem of_quiet {t : Tracker} {l l' : Link} (h : Link.Quiet l l') : Mentions uri (t, l) (t, l') :=
  ⟨rfl, 0, h⟩

theorem refl (s : Tracker × Link) : Mentions uri s s := ⟨rfl, 0, .refl _⟩

theorem trans (h : Mentions uri s s') (h' : Mentions uri s' s'') : Mentions uri s s'' := by
  obtain ⟨h₁, n, hn⟩ := h
  obtain ⟨h₂, m, hm⟩ := h'
  exact ⟨h₂.trans h₁, n + m, by simpa [List.replicate_append_replicate] using hn.trans hm⟩

instance : IsPreorder (Tracker × Link) (Mentions uri) where
  refl := refl
  trans _ _ _ := trans

/-- Asking something about a document mentions it, or not. -/
theorem of_asked (d : Document) {t : Tracker} {l l' : Link} {method : String}
    {more : List (String × Value)} (hm : method ∈ Told.mentioning)
    (h : Link.Asked method (d.named more) l l') : Mentions d.identity (t, l) (t, l') := by
  unfold Link.Asked at h
  rw [d.told_mentioning more hm] at h
  rcases h with h | h
  · exact ⟨rfl, 1, h⟩
  · exact .of_quiet h

/-- An act on the link that is quiet mentions nothing. -/
instance onChannel {α : Type} (a : Act Link α) [Keeps Link.Quiet a] :
    Keeps (Mentions uri) (Tracker.onChannel a) := by
  refine Keeps.on (T := Link.Quiet) fun s l h => ?_
  exact of_quiet h

instance whenFormatted (f : FutureId) (u : String) :
    Keeps (Mentions uri) (Tracker.onChannel (Channel.whenFormatted f u : Act Link Unit)) :=
  have : Keeps Link.Quiet (Channel.whenFormatted f u : Act Link Unit) :=
    Link.quiet_whenDone f (.formatted u)
  Mentions.onChannel _

end Mentions

/-- A document is announced if need be and then mentioned, unless the announcement fails. -/
inductive Used (d : Document) (t : Tracker) (l : Link) : Tracker × Link → Prop
  | mentioned {b : Bool} {l₀ : Link} {s s' : Tracker × Link} (hq : Link.Quiet l l₀)
    (ha : Tracker.Announced d t l₀ (.ok b) s) (hm : Mentions d.identity s s') : Used d t l s'
  | failed {f : Failure} {l₀ : Link} {s : Tracker × Link} (hq : Link.Quiet l l₀)
    (ha : Tracker.Announced d t l₀ (.error f) s) : Used d t l s

/-! ### The relay -/

namespace Relay

variable {t : Tracker} {l : Link} {r : Relay} {d : Document} {e : ChangeEvent} {method : String}
  {params : Value}

/-! A document that takes no part is passed over. -/

theorem opened_aside (h : ¬d.takesPart r.schemes = true) :
    r.opened d = (pure () : Act (Tracker × Link) Unit) := by
  unfold opened
  rw [if_pos (by simpa using h)]

theorem changed_aside (h : ¬e.document.takesPart r.schemes = true) :
    r.changed e = (pure () : Act (Tracker × Link) Unit) := by
  unfold changed
  rw [if_pos (by simpa using h)]

theorem saved_aside (h : ¬d.takesPart r.schemes = true) :
    r.saved d = (pure () : Act (Tracker × Link) Unit) := by
  unfold saved
  rw [if_pos (by simpa using h)]

theorem closed_aside (h : ¬d.takesPart r.schemes = true) :
    r.closed d = (pure () : Act (Tracker × Link) Unit) := by
  unfold closed
  rw [if_pos (by simpa using h)]

theorem publish_ends (hv : Writable params) (t : Tracker) (l : Link) :
    Ends (publish method params) (t, l) fun x s => s.1 = t ∧ Link.Sent method params l x s.2 := by
  refine .bind ((Tracker.logParams_ends hv _).mono fun x s hr => ?_)
  obtain ⟨rfl, rfl⟩ := hr
  exact .on ((Link.sendNotification_ends fun _ => hv).mono fun x l' hs => ⟨rfl, hs⟩)

/-- How hearing of an opened document ends. -/
inductive Opened (d : Document) (t : Tracker) (l : Link) :
    Except Failure Unit → Tracker × Link → Prop
  | told {l' : Link} (ht : Link.Tells [d.opening] l l') (hv : d.VersionFits) :
    Opened d t l (.ok ()) (t.insert d.identity, l')
  | refused {f : Failure} {l' : Link} (ht : Link.Quiet l l')
    (hf : l.recording = true → l.recorder.sendFails.lookup "textDocument/didOpen" = some f) :
    Opened d t l (.error f) (t, l')
  | unfit {f : Failure} (hv : ¬d.VersionFits) : Opened d t l (.error f) (t, l)

theorem opened_ends (h : d.takesPart r.schemes = true) (t : Tracker) (l : Link) :
    Ends (r.opened d) (t, l) (Opened d t l) := by
  unfold opened
  rw [if_neg (by simp [h])]
  refine .bind (.ofExcept ?_)
  by_cases hv : d.VersionFits
  · rw [Tracker.openParams_ok_iff.2 ⟨hv, rfl⟩]
    refine .bind ((publish_ends (Document.writable_announcement hv) t l).mono fun x s hs => ?_)
    obtain ⟨t', l'⟩ := s
    obtain ⟨rfl, hs⟩ := hs
    cases hs with
    | sent ht =>
      rw [d.told_announcement] at ht
      exact .change (.told ht hv)
    | refused ht hf => exact .refused ht hf
  · cases hp : Tracker.openParams d with
    | ok v => exact absurd (Tracker.openParams_ok_iff.1 hp).1 hv
    | error f => exact .unfit hv

/-- How hearing of a changed document ends. -/
inductive Changed (e : ChangeEvent) (t : Tracker) (l : Link) :
    Except Failure Unit → Tracker × Link → Prop
  /-- A server that knows the document is told what was changed. -/
  | delta (h : t.knows e.document.identity = true) {l' : Link}
    (ht : Link.Tells [.changed e.document.identity e.document.version e.deltas] l l') :
    Changed e t l (.ok ()) (t, l')
  /-- Any other is told the whole text, which the announcement holds already. -/
  | anew (h : t.knows e.document.identity = false) {l' : Link}
    (ht : Link.Tells [e.document.opening,
      .changed e.document.identity e.document.version [.whole e.document.text]] l l') :
    Changed e t l (.ok ()) (t.insert e.document.identity, l')
  /-- The change is not taken. -/
  | refused (h : t.knows e.document.identity = true) {f : Failure} {l' : Link}
    (ht : Link.Quiet l l')
    (hf : l.recording = true → l.recorder.sendFails.lookup "textDocument/didChange" = some f) :
    Changed e t l (.error f) (t, l')
  /-- The announcement is not taken. -/
  | unopened (h : t.knows e.document.identity = false) {f : Failure} {l' : Link}
    (ht : Link.Quiet l l')
    (hf : l.recording = true → l.recorder.sendFails.lookup "textDocument/didOpen" = some f) :
    Changed e t l (.error f) (t, l')
  /-- The announcement is taken, but the change is not. -/
  | halfway (h : t.knows e.document.identity = false) {f : Failure} {l' : Link}
    (ht : Link.Tells [e.document.opening] l l')
    (hf : l.recording = true → l.recorder.sendFails.lookup "textDocument/didChange" = some f) :
    Changed e t l (.error f) (t.insert e.document.identity, l')
  /-- There is no message of such a change. -/
  | unsendable (h : t.knows e.document.identity = true) {f : Failure}
    (hv : ¬(e.document.VersionFits ∧ ∀ c ∈ e.changes, c.InLimits)) : Changed e t l (.error f) (t, l)
  /-- There is no announcement, but the document counts as known from now on. -/
  | unfit (h : t.knows e.document.identity = false) {f : Failure}
    (hv : ¬e.document.VersionFits) : Changed e t l (.error f) (t.insert e.document.identity, l)

/-- Publishing a change, once the changes are objects of the protocol. -/
private theorem publishChange_ends {ws : List Wire} (deltas : List Delta)
    (hw : ∀ w ∈ ws, Writable w.toValue)
    (hd : (ws.map (·.toValue)).filterMap Delta.of? = deltas) (hv : d.VersionFits) (t : Tracker)
    (l : Link) :
    Ends (do publish "textDocument/didChange" (← Act.ofExcept (changeParams d ws))) (t, l)
      fun x s => s.1 = t ∧
        match x with
        | .ok _ => Link.Tells [.changed d.identity d.version deltas] l s.2
        | .error f => Link.Quiet l s.2 ∧
          (l.recording = true → l.recorder.sendFails.lookup "textDocument/didChange" = some f) := by
  refine .bind (.ofExcept ?_)
  rw [changeParams_ok_iff.2 ⟨hv, rfl⟩]
  have hwrite : Writable (d.revision (ws.map (·.toValue))) := by
    refine Document.writable_revision hv fun v hv => ?_
    obtain ⟨w, hmem, rfl⟩ := List.mem_map.1 hv
    exact hw w hmem
  refine (publish_ends hwrite t l).mono fun x s hs => ⟨hs.1, ?_⟩
  cases hs.2 with
  | sent ht =>
    rw [d.told_revision, hd] at ht
    exact ht
  | refused ht hf => exact ⟨ht, hf⟩

theorem changed_ends (h : e.document.takesPart r.schemes = true) (t : Tracker) (l : Link) :
    Ends (r.changed e) (t, l) (Changed e t l) := by
  unfold changed
  rw [if_neg (by simp [h])]
  refine .bind ((Tracker.ensureOpen_ends e.document t l).mono fun x s hs => ?_)
  cases hs with
  | known hk =>
    refine .bind (.ofExcept ?_)
    cases hp : e.changes.mapM ContentChange.toWire with
    | error f =>
      refine .unsendable hk fun hv => ?_
      obtain ⟨ws, hws⟩ := mapM_toWire_ok hv.2
      rw [hp] at hws
      cases hws
    | ok ws =>
      obtain ⟨hvalues, hin⟩ := values_of_mapM hp
      by_cases hv : e.document.VersionFits
      · refine (publishChange_ends e.deltas ?_ ?_ hv t l).mono fun x s hs => ?_
        · intro w hw
          have hmem : w.toValue ∈ e.changes.map (·.wireValue) :=
            hvalues ▸ List.mem_map.2 ⟨w, hw, rfl⟩
          obtain ⟨c, hmem, hc⟩ := List.mem_map.1 hmem
          exact hc ▸ ContentChange.writable_wireValue (hin c hmem)
        · have hof : Delta.of? ∘ ContentChange.wireValue = fun c => some (.part c.range c.text) :=
            funext ContentChange.delta_wireValue
          rw [hvalues, List.filterMap_map, hof, List.filterMap_eq_map']
          rfl
        · obtain ⟨t', l'⟩ := s
          obtain ⟨rfl, hs⟩ := hs
          cases x with
          | error f => exact .refused hk hs.1 hs.2
          | ok _ => exact .delta hk hs
      · refine .bind (.ofExcept ?_)
        cases hc : changeParams e.document ws with
        | ok v => exact absurd (changeParams_ok_iff.1 hc).1 hv
        | error f => exact .unsendable hk fun h => hv h.1
  | @told hk l' ht hv =>
    refine .bind (.ofExcept ?_)
    rw [e.document.toWholeChange_eq]
    refine (publishChange_ends [.whole e.document.text] ?_ ?_ hv _ _).mono
      fun x s hs => ?_
    · exact List.forall_mem_singleton.2 e.document.writable_wholeValue
    · exact congrArg (List.filterMap id [·]) e.document.delta_wholeValue
    · obtain ⟨t', l''⟩ := s
      obtain ⟨rfl, hs⟩ := hs
      cases x with
      | error f =>
        have hl := ht.trans hs.1
        rw [List.append_nil] at hl
        exact .halfway hk hl fun h => ht.refusals ▸ hs.2 (ht.recording.trans h)
      | ok _ => exact .anew hk (ht.trans hs)
  | refused hk ht hf => exact .unopened hk ht hf
  | unfit hk hv => exact .unfit hk hv

/-- How hearing of a closed document ends. -/
inductive Closed (d : Document) (t : Tracker) (l : Link) :
    Except Failure Unit → Tracker × Link → Prop
  | told {l' : Link} (ht : Link.Tells [.closed d.identity] l l') :
    Closed d t l (.ok ()) (t.erase d.identity, l')
  | refused {f : Failure} {l' : Link} (ht : Link.Quiet l l')
    (hf : l.recording = true → l.recorder.sendFails.lookup "textDocument/didClose" = some f) :
    Closed d t l (.error f) (t, l')

theorem closed_ends (h : d.takesPart r.schemes = true) (t : Tracker) (l : Link) :
    Ends (r.closed d) (t, l) (Closed d t l) := by
  unfold closed
  rw [if_neg (by simp [h])]
  refine .bind (.ofExcept ?_)
  rw [identityParams_eq]
  refine .bind ((publish_ends (d.writable_named (by simp)) t l).mono fun x s hs => ?_)
  obtain ⟨t', l'⟩ := s
  obtain ⟨rfl, hs⟩ := hs
  cases hs with
  | sent ht =>
    rw [d.told_closing] at ht
    exact .change (.told ht)
  | refused ht hf => exact .refused ht hf

/-- Asking for a document to be formatted only mentions it. -/
theorem requestFormatting_ends {s : Tracker × Link}
    (hr : s.2.recording = false → Writable r.formatting) :
    Ends (r.requestFormatting d) s fun _ => Mentions d.identity s := by
  unfold requestFormatting
  refine .bind (.ofExcept ?_)
  rw [identityParams_eq]
  refine .bind (.logBuilt ?_ fun f hf => .refl s)
  have hask : Ends (Link.sendQuery "textDocument/formatting" (d.named [("options", r.formatting)])
      (.listOf "TextEdit") none) s.2
        fun _ => Link.Asked "textDocument/formatting" (d.named [("options", r.formatting)]) s.2 :=
    Link.sendQuery_ends (fun h => d.writable_named (by simpa using hr h)) (by decide)
  refine .bind (.outcome (.on (hask.mono fun x l hs => ?_)))
  have hm : Mentions d.identity s (s.1, l) := .of_asked d (by decide) hs
  refine ((?_ : Keeps (Mentions d.identity) _).ends _).mono fun _ _ h => hm.trans h
  split <;> infer_instance

theorem publish_mentioning_ends {s : Tracker × Link} (hm : method ∈ Told.mentioning)
    {more : List (String × Value)} (hw : ∀ e ∈ more, Writable e.2) :
    Ends (publish method (d.named more)) s fun _ => Mentions d.identity s := by
  refine (publish_ends (d.writable_named hw) s.1 s.2).mono fun x s' hs => ?_
  obtain ⟨t', l'⟩ := s'
  obtain ⟨rfl, hs⟩ := hs
  cases hs with
  | sent ht => exact .of_asked d hm (.inl ht)
  | refused ht hf => exact .of_quiet ht

/-- Saving a document announces it if need be, and mentions it. -/
theorem saved_ends (h : d.takesPart r.schemes = true)
    (hr : l.recording = false → Writable r.formatting) (t : Tracker) :
    Ends (r.saved d) (t, l) fun _ => Used d t l := by
  have hsave (s : Tracker × Link) : Ends (do
      publish "textDocument/didSave" (← Act.ofExcept (identityParams d [("text", .str d.content)])))
      s fun _ => Mentions d.identity s := by
    refine .bind (.ofExcept ?_)
    rw [identityParams_eq]
    exact publish_mentioning_ends (by decide) (by simp [Writable.str])
  unfold saved
  rw [if_neg (by simp [h])]
  refine .bind ((Tracker.ensureOpen_ends d t l).mono fun x s ha => ?_)
  cases x with
  | error f => exact .failed (.refl l) ha
  | ok b =>
    dsimp only
    split
    · have hrec : s.2.recording = l.recording := by
        cases ha with
        | known => rfl
        | told _ ht => exact ht.recording
      refine .bind ((requestFormatting_ends fun h => hr (hrec ▸ h)).mono fun x s' hm => ?_)
      cases x with
      | error f => exact .mentioned (.refl l) ha hm
      | ok _ => exact (hsave s').mono fun _ _ h => .mentioned (.refl l) ha (hm.trans h)
    · exact (hsave s).mono fun _ _ h => .mentioned (.refl l) ha h

/-- Saving a document that is known, and is not to be formatted, mentions it once. -/
theorem saved_known_ends (h : d.takesPart r.schemes = true) (hf : r.formatOnSave = false)
    (hk : t.knows d.identity = true) : Ends (r.saved d) (t, l) fun x s =>
      s.1 = t ∧ Link.Sent "textDocument/didSave" (d.named [("text", .str d.content)]) l x s.2 := by
  unfold saved
  rw [if_neg (by simp [h]), hf]
  refine .bind ((Tracker.ensureOpen_ends d t l).mono fun x s ha => ?_)
  cases ha with
  | known =>
    refine .bind (.ofExcept ?_)
    rw [identityParams_eq]
    exact publish_ends (d.writable_named (by simp [Writable.str])) t l
  | told hk' | refused hk' | unfit hk' => simp [hk] at hk'

end Relay

/-! ### Queries -/

namespace Query

variable {schemes : List String} {q : Query} {d : Document} {p : Position}
  {token : Option TokenId}

instance quiet_answered (method : String) (token : TokenId) (r : Except Failure Reply) :
    Keeps Link.Quiet (answered method token r) := by
  unfold answered
  split
  · infer_instance
  · infer_instance

instance keeps_converted {σ : Type} {R : σ → σ → Prop} [IsPreorder σ R] (q : Query)
    (r : Except Failure Reply) : Keeps R (converted q r : Act σ Step) := by
  unfold converted
  infer_instance

theorem ends_onLink {α : Type} {a : Act Link α} {s : Tracker × Link}
    {Q : Except Failure α → Tracker × Link → Prop} (h : Ends a s.2 fun r l => Q r (s.1, l)) :
    Ends (onLink a) s Q := Ends.on h

/-- Sending a query mentions the document, whatever comes of it. -/
theorem request_ends {s : Tracker × Link} {more : List (String × Value)} {token : TokenId}
    (hw : ∀ e ∈ more, Writable e.2) :
    Ends (q.request (d.named more) token) s fun _ => Mentions d.identity s := by
  unfold request
  refine .bind ((Tracker.logParams_ends (d.writable_named hw) _).mono fun x s' hr => ?_)
  obtain ⟨rfl, rfl⟩ := hr
  have hm : q.method ∈ Told.mentioning := by cases q <;> decide
  have hask : Ends (Link.sendQuery q.method (d.named more) q.target (some token)) s'.2
      fun _ => Link.Asked q.method (d.named more) s'.2 :=
    Link.sendQuery_ends (fun _ => d.writable_named hw) hm
  refine .bind (.outcome (ends_onLink (hask.mono fun x l hs => ?_)))
  refine ((?_ : Keeps (Mentions d.identity) _).ends _).mono
    fun _ _ h => (Mentions.of_asked d hm hs).trans h
  unfold onLink
  split <;> infer_instance

/-- The part of a query that comes after the announcement. -/
private theorem calling_ends {s : Tracker × Link} {params : Value} {t : TokenId}
    (hp : Query.params d p = .ok params) :
    Ends (Step.calling (q.request params t) (.converted q) (converted q)) s
      fun _ => Mentions d.identity s := by
  obtain ⟨hin, rfl⟩ := params_ok hp
  have hrequest : Ends (q.request (d.named [("position", p.wireValue)]) t) s
      fun _ => Mentions d.identity s :=
    request_ends (by simp [Position.writable_wireValue hin])
  unfold Step.calling
  refine .bind (.outcome (hrequest.mono fun x s' hm => ?_))
  refine ((?_ : Keeps (Mentions d.identity) _).ends _).mono fun _ _ h => hm.trans h
  split <;> infer_instance

theorem ask_ends (h : d.takesPart schemes = true) (t : Tracker) (l : Link) :
    Ends (ask schemes q d p token) (t, l) fun _ => Used d t l := by
  have hrest (l₀ : Link) (hq : Link.Quiet l l₀) (i : TokenId) : Ends (do
      let _ ← Tracker.ensureOpen d
      let params ← Act.ofExcept (params d p)
      Step.calling (q.request params i) (.converted q) (converted q))
      (t, l₀) fun _ => Used d t l := by
    refine .bind ((Tracker.ensureOpen_ends d t l₀).mono fun x s ha => ?_)
    cases x with
    | error f => exact .failed hq ha
    | ok b =>
      refine .bind (.ofExcept ?_)
      cases hp : params d p with
      | error f => exact .mentioned hq ha (.refl s)
      | ok v => exact (calling_ends hp).mono fun _ _ hm => .mentioned hq ha hm
  unfold ask
  rw [if_neg (by simp [h])]
  refine .bind (.log ?_)
  cases token with
  | some i => exact .bind (.pure (hrest l (.refl l) i))
  | none =>
    have hquiet : Link.Quiet l { l with tokens := l.tokens.push {} } :=
      Link.quiet_rest rfl rfl rfl ⟨rfl, rfl, rfl⟩
    exact .bind (ends_onLink (.read (.change_bind (.pure (hrest _ hquiet _)))))

/-- A document that takes no part is not asked about, and there is no answer. -/
theorem tracedAsk_aside (h : ¬d.takesPart schemes = true) (s : Tracker × Link) :
    Ends (tracedAsk schemes q d p token) s fun r s' => r = .ok (.done .nothing) ∧ s' = s := by
  have hask : Ends (ask schemes q d p token) s fun r s' => r = .ok (.done .nothing) ∧ s' = s := by
    unfold ask
    rw [if_pos (by simpa using h)]
    exact .bind (.log (.pure ⟨rfl, rfl⟩))
  exact .read (.recorded hask (fun _ _ => id) (fun _ _ _ => nofun) fun _ _ => nofun)

theorem tracedAsk_ends (h : d.takesPart schemes = true) (t : Tracker) (l : Link) :
    Ends (tracedAsk schemes q d p token) (t, l) fun _ => Used d t l := by
  refine .read (.tracedStep ?_)
  exact ask_ends h t l

end Query

end EditorBridge
