/-
The server's copies of documents.

A server that takes what it is told at its word has a copy of every open document: an
announcement sets it, a change is made on it, and closing drops it.  A partial change
replaces a range of the copy the way the editor replaces a range of a document.

A tracker is in step with such a server if the copy of a document it knows is the
document's text.  What becomes of that when a message is refused is the second half of
the file: whatever the relay was about to do, a failure leaves a document in step exactly
if it was in step before, with the text it has by then (`inStep_iff_of_failed`).  In
particular a change that is refused is lost for good, because the tracker goes on to know
the document.
-/
import EditorBridge.Proofs.OpenBeforeUse

namespace EditorBridge

open Act (Ends)
open Tracker (Announced)

/-! ### Copies -/

/-- What a server holds of a document. -/
structure Copy where
  text : List Char
  version : Int
  deriving DecidableEq, Repr

/-- A change of a text.  A range that names a line the text does not have changes nothing. -/
def Delta.apply (text : List Char) : Delta → List Char
  | whole new => new
  | part r new =>
    match (Document.opened default text "" 0).splice? r new with
    | some d => d.text
    | none => text

/-- The copies of a server, by the names of the documents. -/
abbrev Mirror := String → Option Copy

namespace Mirror

/-- Sets or drops a copy. -/
def set (uri : String) (c : Option Copy) (m : Mirror) : Mirror :=
  fun u => if u = uri then c else m u

/-- What a server makes of what it is told. -/
def hear (m : Mirror) : Told → Mirror
  | .opened uri text version => m.set uri (some ⟨text, version⟩)
  | .changed uri version deltas =>
    m.set uri ((m uri).map fun c => ⟨deltas.foldl Delta.apply c.text, version⟩)
  | .mentioned _ => m
  | .closed uri => m.set uri none
  | .forgotten => fun _ => none

/-- The copies after all that was told. -/
def after (told : List Told) : Mirror := told.foldl hear fun _ => none

variable {m : Mirror} {uri : String} {c : Option Copy}

@[simp] theorem set_self : m.set uri c uri = c := if_pos rfl

theorem set_of_ne {u : String} (h : u ≠ uri) : m.set uri c u = m u := if_neg h

theorem after_append (told news : List Told) :
    after (told ++ news) = news.foldl hear (after told) := List.foldl_append

/-- Documents that are only mentioned stay as they are. -/
@[simp] theorem hear_mentions (n : Nat) :
    (List.replicate n (.mentioned uri)).foldl hear m = m := by
  induction n with
  | zero => rfl
  | succ n ih => exact ih

end Mirror

/-! ### Failures -/

/-- If a document is known, the copy of it is its text. -/
def Document.InStep (d : Document) (t : Tracker) (told : List Told) : Prop :=
  t.knows d.identity = true → (Mirror.after told d.identity).map (·.text) = some d.text

namespace Document.InStep

variable {d : Document} {t : Tracker} {told : List Told}

theorem of_unknown (h : t.knows d.identity = false) : d.InStep t told := by
  intro hk
  rw [h] at hk
  cases hk

/-- An announcement gets a document in step, whatever came before. -/
theorem of_opening : d.InStep t (told ++ [d.opening]) := by
  intro _
  rw [Mirror.after_append]
  simp [Mirror.hear, opening]

theorem append_mentions {uri : String} {n : Nat} :
    d.InStep t (told ++ List.replicate n (.mentioned uri)) ↔ d.InStep t told := by
  unfold InStep
  rw [Mirror.after_append, Mirror.hear_mentions]

end Document.InStep

/-- What was done on the way to a failure: nothing, or a document was announced. -/
inductive Attempted (d : Document) (s s' : Tracker × Link) : Prop
  | nothing (h : s'.1 = s.1) {n : Nat}
    (ht : Link.Tells (List.replicate n (.mentioned d.identity)) s.2 s'.2)
  | announced (h : s.1.knows d.identity = false) {n : Nat}
    (ht : Link.Tells ([d.opening] ++ List.replicate n (.mentioned d.identity)) s.2 s'.2)

namespace Attempted

variable {d : Document} {t : Tracker} {l l' : Link} {s s' : Tracker × Link} {f : Failure}

theorem of_quiet (h : Link.Quiet l l') : Attempted d (t, l) (t, l') := .nothing rfl (n := 0) h

theorem of_opened (h : Relay.Opened d t l (.error f) s) : Attempted d (t, l) s := by
  cases h with
  | refused ht => exact of_quiet ht
  | unfit => exact of_quiet (.refl l)

theorem of_changed {e : ChangeEvent} (h : Relay.Changed e t l (.error f) s)
    (hv : e.document.VersionFits) : Attempted e.document (t, l) s := by
  cases h with
  | refused _ ht | unopened _ ht => exact of_quiet ht
  | halfway hk ht => exact .announced hk (n := 0) ht
  | unsendable => exact of_quiet (.refl l)
  | unfit _ hv' => exact absurd hv hv'

theorem of_used (h : Used d t l s) (hv : d.VersionFits) : Attempted d (t, l) s := by
  cases h with
  | mentioned hq ha hm =>
    obtain ⟨ht, n, hn⟩ := hm
    cases ha with
    | known => exact .nothing ht (hq.trans hn)
    | told hk ha => exact .announced hk (hq.trans (ha.trans hn))
  | failed hq ha =>
    cases ha with
    | refused _ ha => exact of_quiet (hq.trans ha)
    | unfit _ hv' => exact absurd hv hv'

theorem of_closed (h : Relay.Closed d t l (.error f) s) : Attempted d (t, l) s := by
  cases h with
  | refused ht => exact of_quiet ht

end Attempted

namespace Happening

variable {P : Document → Prop} {s s' : Tracker × Link} {told : List Told} {x : Happening}
  {d : Document}

/-- Neither way changes whether the document is in step. -/
theorem inStep_iff_of_attempted (hrec : s.2.recording = true) (h : Attempted d s s') :
    d.InStep s'.1 (told ++ s.2.news s'.2) ↔ d.InStep s.1 told := by
  cases h with
  | nothing h ht => rw [ht.news_eq hrec, Document.InStep.append_mentions, h]
  | announced h ht =>
    rw [ht.news_eq hrec, ← List.append_assoc, Document.InStep.append_mentions]
    exact ⟨fun _ => .of_unknown h, fun _ => .of_opening⟩

/-- The document that the relay hears of. -/
def subject : Happening → Option Document
  | opened r d | saved r d | closed r d => if d.takesPart r.schemes then some d else none
  | changed r e => if e.document.takesPart r.schemes then some e.document else none
  | _ => none

/-- What the relay does before it fails. -/
theorem act_attempted (hrec : s.2.recording = true) (hd : x.subject = some d)
    (hv : ∀ d ∈ x.needs, d.VersionFits) :
    Ends x.act s fun r s' => ∀ f, r = .error f → Attempted d s s' := by
  obtain ⟨t, l⟩ := s
  cases x with
  | opened r d' =>
    obtain ⟨h, ⟨⟩⟩ := Option.ite_none_right_eq_some.1 hd
    refine (r.opened_ends h t l).mono fun x s' ho f hf => ?_
    exact .of_opened (hf ▸ ho)
  | changed r e =>
    obtain ⟨h, ⟨⟩⟩ := Option.ite_none_right_eq_some.1 hd
    refine (r.changed_ends h t l).mono fun x s' hc f hf => ?_
    exact .of_changed (hf ▸ hc) (hv _ (by simp [needs, h]))
  | saved r d' =>
    obtain ⟨h, ⟨⟩⟩ := Option.ite_none_right_eq_some.1 hd
    have hr : l.recording = false → Json.Writable r.formatting := by
      simp [show l.recording = true from hrec]
    refine (r.saved_ends h hr t).mono fun x s' hu f hf => ?_
    exact .of_used hu (hv _ (by simp [needs, h]))
  | closed r d' =>
    obtain ⟨h, ⟨⟩⟩ := Option.ite_none_right_eq_some.1 hd
    refine (r.closed_ends h t l).mono fun x s' hc f hf => ?_
    exact .of_closed (hf ▸ hc)
  | asked | answered => cases hd

/-- **A failed message** leaves a document in step exactly if it was in step before, with the text
it has by then. -/
theorem inStep_iff_of_failed (hrun : Run P s told) (hd : x.subject = some d)
    (hv : ∀ d ∈ x.needs, d.VersionFits) {j : Journal} {f : Failure}
    (hf : (x.act ⟨j, s⟩).1 = .error f) :
    d.InStep (x.act ⟨j, s⟩).2.state.1 (told ++ s.2.news (x.act ⟨j, s⟩).2.state.2) ↔
      d.InStep s.1 told :=
  inStep_iff_of_attempted hrun.recording (act_attempted hrun.recording hd hv j f hf)

/-- A file that was opened, and how messages of a method are refused from then on. -/
def refusing (method : String) (d : Document) : Tracker × Link :=
  let s := ((opened (relayOf d) d).act ⟨{}, {}, { recording := true }⟩).2.state
  (s.1, { s.2 with recorder := { s.2.recorder with sendFails := [(method, .timedOut)] } })

/-- A file with one letter. -/
def letterFile : Document := .opened { scheme := "file", path := "/x" } ['b'] "plaintext" 1

/-- Another letter was put in front of it. -/
def letterAdded : ChangeEvent where
  document := { letterFile with text := ['a', 'b'], version := 2 }
  changes := [⟨.between ⟨0, 0⟩ ⟨0, 0⟩, 0, 0, ['a']⟩]

theorem run_refusing (method : String) :
    Run Document.VersionFits (refusing method letterFile) [letterFile.opening] :=
  have hopened := (Run.start (P := Document.VersionFits) (l := { recording := true }) rfl).happens
    (opened (relayOf letterFile) letterFile) nofun {}
  have hheard : ({ recording := true } : Link).news
      ((opened (relayOf letterFile) letterFile).act ⟨{}, {}, { recording := true }⟩).2.state.2 =
        [letterFile.opening] := by decide +kernel
  have htold := hheard ▸ hopened
  htold.meanwhile htold.recording rfl

/-- A change of an open document that is refused is lost: the tracker goes on to know the document,
but the copy is not its text. -/
theorem not_inStep_of_refused_change :
    let e := letterAdded
    let s := refusing "textDocument/didChange" letterFile
    let s' := ((changed (relayOf letterFile) e).act ⟨{}, s⟩).2.state
    Run Document.VersionFits s [letterFile.opening] ∧
      ((changed (relayOf letterFile) e).act ⟨{}, s⟩).1.isOk = false ∧
        ¬e.document.InStep s'.1 ([letterFile.opening] ++ s.2.news s'.2) := by
  refine ⟨run_refusing _, by decide +kernel, ?_⟩
  unfold Document.InStep
  decide +kernel

/-- The copy of a document is still right after closing it was refused. -/
theorem inStep_of_refused_close :
    let s := refusing "textDocument/didClose" letterFile
    let s' := ((closed (relayOf letterFile) letterFile).act ⟨{}, s⟩).2.state
    ((closed (relayOf letterFile) letterFile).act ⟨{}, s⟩).1.isOk = false ∧
      letterFile.InStep s'.1 ([letterFile.opening] ++ s.2.news s'.2) := by
  have hfails : ((closed (relayOf letterFile) letterFile).act
      ⟨{}, refusing "textDocument/didClose" letterFile⟩).1.isOk = false := by decide +kernel
  refine ⟨hfails, ?_⟩
  cases hf : ((closed (relayOf letterFile) letterFile).act
      ⟨{}, refusing "textDocument/didClose" letterFile⟩).1 with
  | ok _ =>
    rw [hf] at hfails
    cases hfails
  | error f =>
    refine (inStep_iff_of_failed (run_refusing _) ?_ (by simp [needs]) hf).2 ?_
    · simp [subject, takesPart_relayOf letterFile]
    · show letterFile.InStep _ ([] ++ [letterFile.opening])
      exact Document.InStep.of_opening

end Happening

end EditorBridge
