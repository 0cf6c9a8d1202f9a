/-
What a server is told about documents.

Of everything that is sent, only the messages about documents matter to what a server
knows of them.  `Told.of?` reads such a message off its method and its parameters, the
way a server does: it looks at nothing but what is there.

`OpenBeforeUse` is the rule of the protocol: whatever is said about a document is said
while the document is open, that is, after an announcement that nothing has undone.  The
other half of the file is what a tracker has to do for it.  `Follows` says that a tracker
keeps up with what is told: if everything it knew was open before, and the rule was kept
so far, then both are so afterwards.  It composes, so it has to be shown of single
messages only.
-/
import EditorBridge.Proofs.Lists
import EditorBridge.Sync.Relay

namespace EditorBridge

/-! ### Reading messages -/

namespace Value

/-- The text under a key. -/
def textAt? (key : String) (v : Value) : Option String :=
  match v.get? key with
  | some (.str s) => some s
  | _ => none

/-- The number under a key. -/
def numberAt? (key : String) (v : Value) : Option Int :=
  match v.get? key with
  | some (.int n) => some n
  | _ => none

/-- The items under a key. -/
def itemsAt (key : String) (v : Value) : List Value :=
  match v.get? key with
  | some (.list vs) => vs
  | _ => []

/-- The name of the document that parameters are about. -/
def about? (params : Value) : Option String := (params.get? "textDocument").bind (textAt? "uri")

end Value

open Value (textAt? numberAt? itemsAt about?)

/-- One change of a text: all of it is replaced, or the part in a range. -/
inductive Delta where
  | whole (text : List Char)
  | part (range : Range) (text : List Char)
  deriving DecidableEq, Repr

namespace Delta

/-- The position under a key. -/
def positionAt? (key : String) (v : Value) : Option Position := do
  let p ← v.get? key
  return ⟨← numberAt? "line" p, ← numberAt? "character" p⟩

/-- The change that a value describes. -/
def of? (v : Value) : Option Delta := do
  let text ← textAt? "text" v
  match v.get? "range" with
  | none => return whole text.toList
  | some r => return part (.between (← positionAt? "start" r) (← positionAt? "end" r)) text.toList

end Delta

/-- What a server is told about a document, by the name of the document. -/
inductive Told where
  | opened (uri : String) (text : List Char) (version : Int)
  | changed (uri : String) (version : Int) (deltas : List Delta)
  /-- It is saved, formatted, or asked about. -/
  | mentioned (uri : String)
  | closed (uri : String)
  /-- Whatever was open is not any more: the server has stopped, or is to be told anew. -/
  | forgotten
  deriving DecidableEq, Repr

namespace Told

/-- The methods that mention a document without changing what is known of it. -/
def mentioning : List String := ["textDocument/didSave", "textDocument/formatting",
  "textDocument/hover", "textDocument/completion"]

/-- What a message tells about a document, if it is about one. -/
def of? (method : String) (params : Value) : Option Told := do
  let uri ← about? params
  let d := (params.get? "textDocument").getD .null
  if method = "textDocument/didOpen" then
    return opened uri (← textAt? "text" d).toList (← numberAt? "version" d)
  else if method = "textDocument/didChange" then
    return changed uri ((numberAt? "version" d).getD 0)
      ((itemsAt "contentChanges" params).filterMap Delta.of?)
  else if method = "textDocument/didClose" then return closed uri
  else if method ∈ mentioning then return mentioned uri
  else none

/-- Some messages do no more than mention a document. -/
theorem of?_mentioning {method : String} (h : method ∈ mentioning) (params : Value) :
    of? method params = none ∨ ∃ uri, of? method params = some (.mentioned uri) := by
  have hne : method ≠ "textDocument/didOpen" ∧ method ≠ "textDocument/didChange" ∧
      method ≠ "textDocument/didClose" := by
    refine ⟨?_, ?_, ?_⟩ <;> rintro rfl <;> exact absurd h (by decide)
  unfold of?
  cases about? params with
  | none => exact .inl rfl
  | some uri => exact .inr ⟨uri, by simp [hne, h]⟩

/-- What a whole message tells about a document. -/
def ofMessage? (message : Value) : Option Told := do
  of? (← textAt? "method" message) ((message.get? "params").getD .null)

/-- What is told makes use of an open document. -/
def uses (uri : String) : Told → Prop
  | changed u _ _ | mentioned u => u = uri
  | _ => False

/-- What is told opens a document. -/
def opens (uri : String) : Told → Prop
  | opened u _ _ => u = uri
  | _ => False

/-- What is told ends what an announcement began. -/
def ends (uri : String) : Told → Prop
  | closed u => u = uri
  | forgotten => True
  | _ => False

end Told

/-! ### Open documents -/

/-- A document is open: it was announced, and since then neither closed nor forgotten. -/
def IsOpen (uri : String) (told : List Told) : Prop :=
  ∃ before t after, told = before ++ t :: after ∧ t.opens uri ∧ ∀ x ∈ after, ¬x.ends uri

/-- **Open before use**: whatever is told about a document is told while it is open. -/
def OpenBeforeUse (told : List Told) : Prop :=
  ∀ before t after, told = before ++ t :: after → ∀ uri, t.uses uri → IsOpen uri before

theorem not_isOpen_nil (uri : String) : ¬IsOpen uri [] := by
  rintro ⟨before, t, after, h, -, -⟩
  simp at h

/-- What is told last opens a document, or leaves it open. -/
theorem isOpen_append_singleton {uri : String} {told : List Told} {t : Told} :
    IsOpen uri (told ++ [t]) ↔ t.opens uri ∨ IsOpen uri told ∧ ¬t.ends uri :=
  exists_since_append_singleton

theorem openBeforeUse_nil : OpenBeforeUse [] := by
  intro before t after h
  simp at h

/-- The rule is kept one message after the other. -/
theorem openBeforeUse_append_singleton {told : List Told} {t : Told} :
    OpenBeforeUse (told ++ [t]) ↔ OpenBeforeUse told ∧ ∀ uri, t.uses uri → IsOpen uri told := by
  constructor
  · intro h
    refine ⟨?_, fun uri => h told t [] rfl uri⟩
    rintro before x after rfl uri
    exact h before x (after ++ [t]) (by simp) uri
  · rintro ⟨h, ht⟩ before x after heq uri hx
    rcases append_singleton_eq_iff.1 heq with ⟨rfl, rfl, -⟩ | ⟨later, -, rfl⟩
    · exact ht uri hx
    · exact h before x later rfl uri hx

/-- What is open stays so whatever was told before. -/
theorem IsOpen.append_left {uri : String} {told : List Told} (h : IsOpen uri told)
    (before : List Told) : IsOpen uri (before ++ told) := by
  obtain ⟨b, t, after, rfl, ht, hafter⟩ := h
  exact ⟨before ++ b, t, after, by simp, ht, hafter⟩

theorem openBeforeUse_append {before told : List Told} (hb : OpenBeforeUse before)
    (h : OpenBeforeUse told) : OpenBeforeUse (before ++ told) := by
  intro b t after heq uri hu
  rcases List.append_eq_append_iff.1 heq with ⟨b', rfl, rfl⟩ | ⟨c, rfl, hc⟩
  · exact (h b' t after rfl uri hu).append_left before
  · cases c with
    | nil => exact absurd (h [] t after hc.symm uri hu) (not_isOpen_nil uri)
    | cons x c =>
      obtain ⟨rfl, -⟩ := List.cons_eq_cons.1 hc
      exact hb b t c rfl uri hu

/-- Of what is told, some mentions are left out. -/
inductive Thinned : List Told → List Told → Prop
  | nil : Thinned [] []
  | keep {told rest : List Told} (h : Thinned told rest) (x : Told) :
    Thinned (told ++ [x]) (rest ++ [x])
  | skip {told rest : List Told} (h : Thinned told rest) (uri : String) :
    Thinned (told ++ [.mentioned uri]) rest

/-- Leaving out mentions opens and closes nothing, and does not break the rule. -/
theorem Thinned.openBeforeUse {told rest : List Told} (h : Thinned told rest)
    (ho : OpenBeforeUse told) : OpenBeforeUse rest ∧ ∀ uri, IsOpen uri told → IsOpen uri rest := by
  induction h with
  | nil => exact ⟨ho, fun _ => id⟩
  | keep h x ih =>
    obtain ⟨ho, hx⟩ := openBeforeUse_append_singleton.1 ho
    obtain ⟨ho, hopen⟩ := ih ho
    refine ⟨openBeforeUse_append_singleton.2 ⟨ho, fun u hu => hopen u (hx u hu)⟩, fun u hu => ?_⟩
    rw [isOpen_append_singleton] at hu ⊢
    exact hu.imp id fun hu => ⟨hopen u hu.1, hu.2⟩
  | skip h uri ih =>
    obtain ⟨ho, hopen⟩ := ih (openBeforeUse_append_singleton.1 ho).1
    refine ⟨ho, fun u hu => ?_⟩
    rcases isOpen_append_singleton.1 hu with hu | hu
    · cases hu
    · exact hopen u hu.1

/-! ### A tracker that keeps up -/

namespace Tracker

/-- Whatever a tracker knows is open. -/
def Covers (t : Tracker) (told : List Told) : Prop := ∀ uri ∈ t.known, IsOpen uri told

/-- A tracker keeps up with what is told, whatever was told before. -/
def Follows (t : Tracker) (news : List Told) (t' : Tracker) : Prop :=
  ∀ told, t.Covers told → OpenBeforeUse told →
    t'.Covers (told ++ news) ∧ OpenBeforeUse (told ++ news)

theorem covers_empty (told : List Told) : Covers {} told := by
  intro uri h
  cases h

theorem knows_iff {t : Tracker} {uri : String} : t.knows uri = true ↔ uri ∈ t.known := by
  simp [knows]

theorem mem_insert {t : Tracker} {uri u : String} :
    u ∈ (t.insert uri).known ↔ u ∈ t.known ∨ u = uri := by
  unfold insert
  split
  · rename_i h
    refine ⟨.inl, fun h' => h'.elim id fun e => ?_⟩
    exact e ▸ knows_iff.1 h
  · simp

theorem mem_erase {t : Tracker} {uri u : String} :
    u ∈ (t.erase uri).known ↔ u ∈ t.known ∧ u ≠ uri := by
  simp [erase]

/-- What was not known and is noted and struck out again leaves no trace. -/
theorem erase_insert {t : Tracker} {uri : String} (h : t.knows uri = false) :
    (t.insert uri).erase uri = t := by
  have hmem : uri ∉ t.known := fun hu => by simp [knows_iff.2 hu] at h
  have hfilter : t.known.filter (· ≠ uri) = t.known :=
    List.filter_eq_self.2 fun u hu => by simpa using fun e : u = uri => hmem (e ▸ hu)
  unfold insert erase
  rw [h, if_neg (by simp), List.filter_append, hfilter]
  simp

namespace Follows

variable {t t' t'' : Tracker} {news more : List Told} {uri : String}

/-- A tracker that knows less than before keeps up with silence. -/
theorem silence (h : ∀ u ∈ t'.known, u ∈ t.known) : t.Follows [] t' := by
  intro told hc ho
  rw [List.append_nil]
  exact ⟨fun u hu => hc u (h u hu), ho⟩

theorem refl (t : Tracker) : t.Follows [] t := silence fun _ => id

theorem trans (h : t.Follows news t') (h' : t'.Follows more t'') :
    t.Follows (news ++ more) t'' := by
  intro told hc ho
  obtain ⟨hc, ho⟩ := h told hc ho
  rw [← List.append_assoc]
  exact h' _ hc ho

/-- After an announcement the document may be known. -/
theorem announce {text : List Char} {version : Int} :
    t.Follows [.opened uri text version] (t.insert uri) := by
  intro told hc ho
  refine ⟨fun u hu => isOpen_append_singleton.2 ?_, openBeforeUse_append_singleton.2 ⟨ho, ?_⟩⟩
  · rcases mem_insert.1 hu with hu | rfl
    · exact .inr ⟨hc u hu, id⟩
    · exact .inl rfl
  · intro u hu
    cases hu

/-- A document that is known may be used. -/
theorem use {x : Told} (hx : ∀ u, x.uses u → u ∈ t.known) (hx' : ∀ u, ¬x.ends u) :
    t.Follows [x] t := by
  intro told hc ho
  refine ⟨fun u hu => isOpen_append_singleton.2 (.inr ⟨hc u hu, hx' u⟩),
    openBeforeUse_append_singleton.2 ⟨ho, fun u hu => hc u (hx u hu)⟩⟩

/-- What is closed must not be known any more. -/
theorem close : t.Follows [.closed uri] (t.erase uri) := by
  intro told hc ho
  refine ⟨fun u hu => isOpen_append_singleton.2 (.inr ?_),
    openBeforeUse_append_singleton.2 ⟨ho, fun u hu => by cases hu⟩⟩
  obtain ⟨hu, hne⟩ := mem_erase.1 hu
  exact ⟨hc u hu, Ne.symm hne⟩

/-- When everything is forgotten, nothing may be known. -/
theorem forget : t.Follows [.forgotten] {} := by
  intro told _ ho
  exact ⟨covers_empty _, openBeforeUse_append_singleton.2 ⟨ho, fun u hu => by cases hu⟩⟩

/-- A tracker that begins with nothing keeps up with what is in order by itself. -/
theorem anew (hc : t.Covers news) (ho : OpenBeforeUse news) : Follows {} news t :=
  fun told _ ho' => ⟨fun u hu => (hc u hu).append_left told, openBeforeUse_append ho' ho⟩

/-- A tracker that knows nothing, and keeps up with silence, knows nothing afterwards. -/
theorem known_eq_nil (h : t.Follows [] t') (ht : t.known = []) : t'.known = [] := by
  obtain ⟨hc, -⟩ := h [] (by simp [Covers, ht]) openBeforeUse_nil
  exact List.eq_nil_iff_forall_not_mem.2 fun u hu => not_isOpen_nil u (hc u hu)

end Follows

end Tracker

end EditorBridge
