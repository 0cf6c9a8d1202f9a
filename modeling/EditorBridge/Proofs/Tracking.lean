/-
What a tracker knows, and what it tells.

A tracker is told to open documents, to take note that one is open or closed, to forget
everything, and it is asked about documents.  `Bookkeeping` says what all this comes to: known is
exactly what was opened last and not removed since, and a document is announced only where it was
not known, once, with what it is like at that time.  An announcement that is refused leaves
everything as it was.

The tracker is looked at on a channel that is overheard, so what it sends is seen whatever
the channel does with it.  The induction is on the run.  It carries that what is known stands in
the past; that no document is announced twice between two removals follows without another
induction, since an announcement is made only of what does not stand.

None of this survives a version that the protocol does not know: the document is noted before
its announcement is built, and stays noted when that fails (`not_accords`).  So the bookkeeping is
right in all runs exactly if no such document is ever to be opened.
-/
import EditorBridge.Proofs.Handlers

namespace EditorBridge.Tracker

open Act (Ends Gives)

/-! ### Overhearing a channel -/

/-- A notification on its way to the server, and what became of it. -/
structure Sending where
  method : String
  params : Value
  outcome : Except Failure Unit

/-- A channel, and the notifications that were sent on it. -/
structure Overheard (κ : Type) where
  channel : κ
  sendings : List Sending := []

namespace Overheard

variable {κ α : Type}

/-- An act on the channel that is overheard. -/
def within (a : Act κ α) : Act (Overheard κ) α :=
  Act.on Overheard.channel (fun c o => { o with channel := c }) a

/-- What is sent is written down, taken or not. -/
def notify [Channel κ] (method : String) (params : Value) : Act (Overheard κ) Unit := do
  let r ← Act.outcome (within (Channel.notify method params))
  Act.change fun o => { o with sendings := o.sendings ++ [⟨method, params, r⟩] }
  Act.ofExcept r

instance [Channel κ] : Channel (Overheard κ) where
  notify := notify
  request method params target token := within (Channel.request method params target token)
  whenFormatted f uri := within (Channel.whenFormatted f uri)

/-- One more sending is written down, and it ends the way the channel ends it. -/
theorem notify_ends [Channel κ] (method : String) (params : Value) (o : Overheard κ) :
    Ends (notify method params) o fun r o' =>
      o'.sendings = o.sendings ++ [⟨method, params, r⟩] := by
  refine .bind (.outcome (.on ((Ends.gives _ _).mono fun r c _ => ?_)))
  exact .change_bind (.ofExcept rfl)

end Overheard

/-! ### Operations -/

/-- What names a document to a tracker. -/
inductive Naming where
  | document (d : Document)
  | uri (u : Uri)
  | text (s : String)

/-- All names of a document come to its name on the wire. -/
def Naming.identity : Naming → String
  | document d => d.identity
  | uri u => u.toString
  | text s => s

/-- What can be asked of a tracker. -/
inductive Operation where
  | ensureOpen (d : Document)
  | markOpen (n : Naming)
  | markClosed (n : Naming)
  | clear
  /-- Asks about a document, or about something that does not name any. -/
  | isOpen (n : Option Naming)

/-- How an operation is carried out; some of them answer. -/
def Operation.act {κ : Type} [Channel κ] : Operation → Act (Tracker × κ) (Option Bool)
  | ensureOpen d => do return some (← Tracker.ensureOpen d)
  | markOpen n => do
    update (insert n.identity)
    return none
  | markClosed n => do
    update (erase n.identity)
    return none
  | clear => do
    Tracker.on Tracker.clear
    return none
  | isOpen n => do
    let t := (← Act.state).1
    return some (n.any fun m => t.knows m.identity)

/-- An operation that was carried out. -/
structure Deed where
  operation : Operation
  /-- The tracker that it found. -/
  before : Tracker
  outcome : Except Failure (Option Bool)
  sendings : List Sending
  /-- The tracker that it left. -/
  after : Tracker

namespace Deed

/-- A document is opened: it is marked, or opening it is not refused. -/
def opens (uri : String) (x : Deed) : Prop :=
  match x.operation with
  | .ensureOpen d => d.identity = uri ∧ ∃ b, x.outcome = .ok b
  | .markOpen n => n.identity = uri
  | _ => False

/-- A document is taken off the list, or all of them are. -/
def removes (uri : String) (x : Deed) : Prop :=
  match x.operation with
  | .markClosed n => n.identity = uri
  | .clear => True
  | _ => False

/-- The announcement of a document was delivered. -/
def announces (uri : String) (x : Deed) : Prop :=
  ∃ s ∈ x.sendings, s.outcome = .ok () ∧ s.method = "textDocument/didOpen" ∧
    s.params.about? = some uri

end Deed

/-- What an operation has to come to, by what was known. -/
inductive Accords : Deed → Prop
  /-- The document is announced as it is. -/
  | delivered {d : Document} {t : Tracker} (h : d.identity ∉ t.known) :
    Accords ⟨.ensureOpen d, t, .ok (some false),
      [⟨"textDocument/didOpen", d.announcement, .ok ()⟩], t.insert d.identity⟩
  /-- The channel refuses the announcement, and nothing has changed. -/
  | refused {d : Document} {t : Tracker} (h : d.identity ∉ t.known) (f : Failure) :
    Accords ⟨.ensureOpen d, t, .error f,
      [⟨"textDocument/didOpen", d.announcement, .error f⟩], t⟩
  /-- A document that is known is not announced. -/
  | present {d : Document} {t : Tracker} (h : d.identity ∈ t.known) :
    Accords ⟨.ensureOpen d, t, .ok (some true), [], t⟩
  | marked (n : Naming) (t : Tracker) :
    Accords ⟨.markOpen n, t, .ok none, [], t.insert n.identity⟩
  | closed (n : Naming) (t : Tracker) :
    Accords ⟨.markClosed n, t, .ok none, [], t.erase n.identity⟩
  | cleared (t : Tracker) : Accords ⟨.clear, t, .ok none, [], {}⟩
  | asked {n : Option Naming} {t : Tracker} {b : Bool}
    (h : b = true ↔ ∃ m ∈ n, m.identity ∈ t.known) :
    Accords ⟨.isOpen n, t, .ok (some b), [], t⟩

/-! ### What stands -/

/-- A document was opened, and has not been removed since. -/
def Standing (uri : String) (past : List Deed) : Prop :=
  ∃ earlier x later, past = earlier ++ x :: later ∧ x.opens uri ∧ ∀ y ∈ later, ¬y.removes uri

theorem not_standing_nil (uri : String) : ¬Standing uri [] := by
  rintro ⟨earlier, x, later, h, -, -⟩
  simp at h

/-- What is done last opens a document, or leaves standing what stood. -/
theorem standing_append_singleton {uri : String} {past : List Deed} {x : Deed} :
    Standing uri (past ++ [x]) ↔ x.opens uri ∨ Standing uri past ∧ ¬x.removes uri :=
  exists_since_append_singleton

/-- What an operation that accords with what was known does to what is known. -/
theorem Accords.mem_after {x : Deed} (h : Accords x) (uri : String) :
    uri ∈ x.after.known ↔ x.opens uri ∨ uri ∈ x.before.known ∧ ¬x.removes uri := by
  cases h with
  | delivered _ => simp [Deed.opens, Deed.removes, mem_insert, or_comm, eq_comm]
  | refused _ _ => simp [Deed.opens, Deed.removes]
  | @present d t h =>
    have hmem : d.identity = uri → uri ∈ t.known := fun e => e ▸ h
    simpa [Deed.opens, Deed.removes] using hmem
  | marked _ _ => simp [Deed.opens, Deed.removes, mem_insert, or_comm, eq_comm]
  | closed _ _ => simp [Deed.opens, Deed.removes, mem_erase, eq_comm]
  | cleared _ => simp [Deed.opens, Deed.removes]
  | asked _ => simp [Deed.opens, Deed.removes]

/-- Only a document that was not known is announced, and then it is. -/
theorem Accords.of_announces {x : Deed} (h : Accords x) {uri : String} (ha : x.announces uri) :
    uri ∉ x.before.known ∧ x.opens uri := by
  obtain ⟨s, hs, hok, -, habout⟩ := ha
  cases h with
  | @delivered d _ h =>
    obtain rfl := List.mem_singleton.1 hs
    have hname : d.announcement.about? = some d.identity := by
      simp [Document.announcement, Value.about?, Value.textAt?]
    obtain rfl : d.identity = uri := Option.some.inj (hname.symm.trans habout)
    exact ⟨h, rfl, _, rfl⟩
  | refused _ _ =>
    obtain rfl := List.mem_singleton.1 hs
    cases hok
  | _ => cases hs

/-! ### Runs -/

/-- How a tracker fares on a channel that may change between two operations as it likes; `P` says
which documents may be asked to be opened. -/
inductive Run (κ : Type) [Channel κ] (P : Document → Prop) : Tracker → List Deed → Prop
  | start : Run κ P {} []
  | does {t t' : Tracker} {past : List Deed} (h : Run κ P t past) {o : Operation}
    (hP : ∀ d, o = .ensureOpen d → P d) {c c' : κ} {r : Except Failure (Option Bool)}
    {sendings : List Sending}
    (hx : Gives o.act (t, (⟨c, []⟩ : Overheard κ)) r (t', ⟨c', sendings⟩)) :
    Run κ P t' (past ++ [⟨o, t, r, sendings, t'⟩])

/-- The past of a tracker is in order. -/
structure Bookkeeping (past : List Deed) (t : Tracker) : Prop where
  /-- Known is what was opened last. -/
  known : ∀ uri, uri ∈ t.known ↔ Standing uri past
  /-- So it was at any time. -/
  found : ∀ earlier x later, past = earlier ++ x :: later →
    ∀ uri, uri ∈ x.before.known ↔ Standing uri earlier
  /-- Every operation came to what it had to. -/
  accords : ∀ x ∈ past, Accords x
  /-- Between two announcements of a document it was removed. -/
  once : ∀ earlier x between y later, past = earlier ++ x :: (between ++ y :: later) →
    ∀ uri, x.announces uri → y.announces uri → ∃ z ∈ between, z.removes uri

namespace Bookkeeping

variable {past : List Deed} {t : Tracker}

/-- Nothing that stands is announced, so nothing is announced twice without a removal. -/
theorem of_found (known : ∀ uri, uri ∈ t.known ↔ Standing uri past)
    (found : ∀ earlier x later, past = earlier ++ x :: later →
      ∀ uri, uri ∈ x.before.known ↔ Standing uri earlier)
    (accords : ∀ x ∈ past, Accords x) : Bookkeeping past t := by
  refine ⟨known, found, accords, ?_⟩
  rintro earlier x between y later rfl uri hx hy
  by_contra hnone
  push Not at hnone
  have hopens : x.opens uri := ((accords x (by simp)).of_announces hx).2
  have hfresh : uri ∉ y.before.known := ((accords y (by simp)).of_announces hy).1
  refine hfresh ((found (earlier ++ x :: between) y later (by simp) uri).2 ?_)
  exact ⟨earlier, x, between, rfl, hopens, hnone⟩

theorem start : Bookkeeping [] {} := by
  refine of_found (fun uri => ?_) (fun earlier x later h => ?_) (List.forall_mem_nil _)
  · exact iff_of_false List.not_mem_nil (not_standing_nil uri)
  · simp at h

/-- One more operation that accords with what was known. -/
theorem does (h : Bookkeeping past t) {x : Deed} (hbefore : x.before = t) (hx : Accords x) :
    Bookkeeping (past ++ [x]) x.after := by
  subst hbefore
  refine of_found (fun uri => ?_) (fun earlier y later heq uri => ?_) fun y hy => ?_
  · rw [hx.mem_after, standing_append_singleton, h.known]
  · rcases append_singleton_eq_iff.1 heq with ⟨rfl, rfl, -⟩ | ⟨later, -, rfl⟩
    · exact h.known uri
    · exact h.found earlier y later rfl uri
  · rcases List.mem_append.1 hy with hy | hy
    · exact h.accords y hy
    · rw [List.mem_singleton.1 hy]
      exact hx

end Bookkeeping

/-! ### One operation -/

variable {κ : Type} [Channel κ] {P : Document → Prop}

/-- Every operation does what it has to, unless a document is to be opened whose version the
protocol does not know. -/
theorem act_ends {o : Operation} (hfits : ∀ d, o = .ensureOpen d → d.VersionFits) (t : Tracker)
    (c : κ) : Ends o.act (t, (⟨c, []⟩ : Overheard κ)) fun r s =>
      Accords ⟨o, t, r, s.2.sendings, s.1⟩ := by
  cases o with
  | ensureOpen d =>
    refine .bind ((ensureOpen_announcing fun _ => Overheard.notify_ends _ _ _).mono fun r s hs => ?_)
    cases hs with
    | known h => exact .pure (.present (knows_iff.1 h))
    | taken h hv hsent =>
      refine .pure ?_
      rw [show _ = _ from hsent]
      exact .delivered fun hk => by simp [knows_iff.2 hk] at h
    | refused h hv hsent =>
      show Accords _
      rw [show _ = _ from hsent]
      exact .refused (fun hk => by simp [knows_iff.2 hk] at h) _
    | unfit h hv => exact absurd (hfits d rfl) hv
  | markOpen n => exact .change_bind (.pure (.marked n t))
  | markClosed n => exact .change_bind (.pure (.closed n t))
  | clear =>
    refine .bind (.on ((clear_ends t).mono fun r t' h => ?_))
    obtain ⟨rfl, rfl⟩ := h
    exact .pure (.cleared t)
  | isOpen n =>
    refine .read (.pure (Accords.asked ?_))
    cases n <;> simp [knows_iff]

/-- An announcement that cannot be built comes to nothing that it should. -/
theorem not_accords {d : Document} (hv : ¬d.VersionFits) (c : κ) :
    Ends (Operation.ensureOpen d).act (({}, ⟨c, []⟩) : Tracker × Overheard κ) fun r s =>
      ¬Accords ⟨.ensureOpen d, {}, r, s.2.sendings, s.1⟩ := by
  refine .bind ((ensureOpen_announcing fun _ => Overheard.notify_ends _ _ _).mono fun r s hs => ?_)
  cases hs with
  | known h => cases h
  | taken _ hv' _ => exact absurd hv' hv
  | refused _ hv' _ => exact absurd hv' hv
  | unfit h _ =>
    intro hx
    cases hx

/-! ### All runs -/

/-- A run in which all documents can be announced is in order. -/
theorem Run.bookkeeping (hfits : ∀ d, P d → d.VersionFits) {t : Tracker} {past : List Deed}
    (h : Run κ P t past) : Bookkeeping past t := by
  induction h with
  | start => exact .start
  | does h hP hx ih => exact ih.does rfl (hx.elim (act_ends (fun d hd => hfits d (hP d hd)) _ _))

/-- **The bookkeeping of a tracker** is in order in every run, whatever the channel does with
what is sent, exactly if every document that is to be opened has a version that the protocol
knows. -/
theorem bookkeeping_iff [Inhabited κ] :
    (∀ t past, Run κ P t past → Bookkeeping past t) ↔ ∀ d, P d → d.VersionFits := by
  constructor
  · intro h d hd
    by_contra hv
    obtain ⟨r, ⟨t, c, sendings⟩, hx, hnot⟩ : ∃ r s,
        Gives (Operation.ensureOpen d).act (({}, ⟨default, []⟩) : Tracker × Overheard κ) r s ∧
          ¬Accords ⟨.ensureOpen d, {}, r, s.2.sendings, s.1⟩ :=
      ⟨_, _, (Ends.gives _ _).and (not_accords hv default) default⟩
    have hrun : Run κ P t _ := .does .start (fun e he => Operation.ensureOpen.inj he ▸ hd) hx
    exact hnot ((h _ _ hrun).accords _ (by simp))
  · intro hfits t past h
    exact h.bookkeeping hfits

end EditorBridge.Tracker
