/-
The parameters of messages about documents.

Documents, positions and changes are put into objects of the protocol before they are
sent, and that fails for numbers outside the limits of the protocol only.  So for every
kind of parameters there are two things to know: when they can be built, and what a
server reads off them once they are.  The first is `Wire.assemble_ok_iff`, used for each
structure in turn; the second is `Told.of?`, which finds in the parameters exactly the
document they were built from.  Whatever is built can be written as well, since it holds
nothing but texts and numbers within those limits.
-/
import EditorBridge.Proofs.Told
import EditorBridge.Sync.Proxy
import Mathlib.Algebra.Group.Nat.Defs

namespace EditorBridge

open Value (textAt? numberAt? itemsAt about? table)

/-! ### Outcomes of building -/

theorem bind_ok_iff {ε α β : Type} {x : Except ε α} {f : α → Except ε β} {b : β} :
    (x >>= f) = .ok b ↔ ∃ a, x = .ok a ∧ f a = .ok b := by
  cases x with
  | error e => exact ⟨nofun, nofun⟩
  | ok a => exact ⟨fun h => ⟨a, rfl, h⟩, fun ⟨_, rfl, h⟩ => h⟩

theorem mapError_ok_iff {ε ε' α : Type} {x : Except ε α} {f : ε → ε'} {a : α} :
    x.mapError f = .ok a ↔ x = .ok a := by
  cases x with
  | error e => exact ⟨nofun, nofun⟩
  | ok b =>
    show Except.ok b = .ok a ↔ _
    rw [Except.ok.injEq, Except.ok.injEq]

/-! ### What can be written -/

namespace Digits

theorem fit_iff {n : Int} : fit n = true ↔ n.natAbs < 10 ^ limit := by
  unfold fit
  rw [decide_eq_true_iff, Nat.length_toDigits_le_iff (by decide) (by decide)]

/-- What a machine number holds can be written. -/
theorem fit_of_abs_lt {n : Int} (h : n.natAbs < 2 ^ 64) : fit n = true :=
  fit_iff.2 (Nat.lt_of_lt_of_le h
    (Nat.le_trans (by decide : 2 ^ 64 ≤ 10 ^ 20) (Nat.pow_le_pow_right (by decide) (by decide))))

end Digits

namespace Json

/-- A value has a text in every layout, wherever all integers that have few enough digits can be
written. -/
def Writable (v : Value) : Prop :=
  ∀ short : Int → Bool, (∀ n, Digits.fit n = true → short n = true) →
    ∀ l level, ∃ s, write short l level v = .ok s

theorem Writable.str (s : String) : Writable (.str s) := fun _ _ _ _ => ⟨_, rfl⟩

theorem writeInt_ok {short : Int → Bool} {n : Int} (h : short n = true) :
    writeInt short n = .ok (toString n) := if_pos h

theorem Writable.int {n : Int} (h : Digits.fit n = true) : Writable (.int n) :=
  fun _ hs _ _ => ⟨_, writeInt_ok (hs n h)⟩

theorem Writable.bool (b : Bool) : Writable (.bool b) := fun _ _ _ _ => ⟨_, rfl⟩

theorem Writable.null : Writable .null := fun _ _ _ _ => ⟨_, rfl⟩

section

variable {short : Int → Bool} {l : Layout} {level : Nat}

theorem writeItems_ok {vs : List Value} (h : ∀ v ∈ vs, ∃ s, write short l level v = .ok s) :
    ∃ ss, writeItems short l level vs = .ok ss := by
  induction vs with
  | nil => exact ⟨_, rfl⟩
  | cons v vs ih =>
    obtain ⟨⟨s, hs⟩, hvs⟩ := List.forall_mem_cons.1 h
    obtain ⟨ss, hss⟩ := ih hvs
    refine ⟨s :: ss, bind_ok_iff.2 ⟨s, hs, ?_⟩⟩
    exact bind_ok_iff.2 ⟨ss, hss, rfl⟩

theorem writeMembers_ok {es : List (String × Value)}
    (h : ∀ e ∈ es, ∃ s, write short l level e.2 = .ok s) :
    ∃ ss, writeMembers short l level (es.map fun e => (.str e.1, e.2)) = .ok ss := by
  induction es with
  | nil => exact ⟨_, rfl⟩
  | cons e es ih =>
    obtain ⟨⟨s, hs⟩, hes⟩ := List.forall_mem_cons.1 h
    obtain ⟨ss, hss⟩ := ih hes
    refine ⟨(writeText e.1 ++ l.colon ++ s) :: ss, bind_ok_iff.2 ⟨e.1, rfl, ?_⟩⟩
    refine bind_ok_iff.2 ⟨s, hs, ?_⟩
    exact bind_ok_iff.2 ⟨ss, hss, rfl⟩

/-- A table has a text if its members have one. -/
theorem write_table {es : List (String × Value)}
    (h : ∀ e ∈ es, ∃ s, write short l (level + 1) e.2 = .ok s) :
    ∃ s, write short l level (Value.table es) = .ok s := by
  obtain ⟨ss, hss⟩ := writeMembers_ok h
  exact ⟨_, bind_ok_iff.2 ⟨ss, hss, rfl⟩⟩

end

theorem Writable.list {vs : List Value} (h : ∀ v ∈ vs, Writable v) : Writable (.list vs) := by
  intro short hs l level
  obtain ⟨ss, hss⟩ := writeItems_ok fun v hv => h v hv short hs l (level + 1)
  exact ⟨_, bind_ok_iff.2 ⟨ss, hss, rfl⟩⟩

theorem Writable.table {es : List (String × Value)} (h : ∀ e ∈ es, Writable e.2) :
    Writable (Value.table es) :=
  fun short hs l level => write_table fun e he => h e he short hs l (level + 1)

/-- What can be written has a text. -/
theorem Writable.render {v : Value} (h : Writable v) (l : Layout) : ∃ s, Json.render l v = .ok s :=
  h _ (fun _ hn => hn) l 0

end Json

open Json (Writable)

/-! ### Looking into tables -/

namespace Value

@[simp] theorem get?_table_nil (key : String) : (table []).get? key = none := rfl

@[simp] theorem get?_table_cons (key k : String) (v : Value) (es : List (String × Value)) :
    (table ((k, v) :: es)).get? key = if key = k then some v else (table es).get? key := by
  simp only [table, get?, find?, List.map_cons, List.find?_cons, same]
  by_cases h : key = k
  · simp [h]
  · simp only [beq_false_of_ne h, if_neg h]

end Value

/-! ### Objects of the protocol -/

namespace Wire

/-- The object that is put together from members. -/
def assembled (s : Struct) (values : List (String × Wire)) : Wire :=
  .object s.name <| s.written.filterMap fun m =>
    match values.lookup m.name with
    | none => if m.always then some (m.name, nothing) else none
    | some w => if w.isNothing && !m.always && !m.required then none else some (m.name, w)

/-- A number is within the limits of its member. -/
def Fits (values : List (String × Wire)) (m : Member) : Prop :=
  ∀ low high n, limits? m.shape = some (low, high) →
    values.lookup m.name = some (.raw (.int n)) → low ≤ n ∧ n ≤ high

/-- A loop that only checks its items goes through if all of them pass. -/
private theorem forIn_check {ε γ : Type} {P : γ → Prop}
    {body : γ → PUnit → Except ε (ForInStep PUnit)}
    (hpass : ∀ x u, P x → body x u = .ok (.yield PUnit.unit))
    (hfail : ∀ x u, ¬P x → ∃ e, body x u = .error e) (xs : List γ) (u : PUnit) :
    (∀ x ∈ xs, P x) ∧ forIn xs u body = .ok PUnit.unit ∨
      (¬∀ x ∈ xs, P x) ∧ ∃ e, forIn xs u body = .error e := by
  induction xs with
  | nil => exact .inl ⟨by simp, rfl⟩
  | cons x xs ih =>
    rw [List.forIn_cons]
    by_cases hx : P x
    · rw [hpass x u hx]
      rcases ih with ⟨hxs, h⟩ | ⟨hxs, e, h⟩
      · exact .inl ⟨List.forall_mem_cons.2 ⟨hx, hxs⟩, h⟩
      · exact .inr ⟨fun hall => hxs (List.forall_mem_cons.1 hall).2, e, h⟩
    · obtain ⟨e, he⟩ := hfail x u hx
      rw [he]
      exact .inr ⟨fun hall => hx (List.forall_mem_cons.1 hall).1, e, rfl⟩

/-- An object is put together exactly if every number is within its limits. -/
theorem assemble_ok_iff {s : Struct} {values : List (String × Wire)} {w : Wire} :
    assemble s values = .ok w ↔ (∀ m ∈ s.members, Fits values m) ∧ w = assembled s values := by
  obtain ⟨body, heq, hpass, hfail⟩ : ∃ body : Member → PUnit → Except Error (ForInStep PUnit),
      assemble s values = (forIn s.members PUnit.unit body >>= fun _ => pure (assembled s values)) ∧
      (∀ m u, Fits values m → body m u = .ok (.yield PUnit.unit)) ∧
      ∀ m u, ¬Fits values m → ∃ e, body m u = .error e := by
    refine ⟨_, rfl, fun m u h => ?_, fun m u h => ?_⟩
    · split
      · rename_i low high n hl hn
        have := h low high n hl hn
        rw [if_neg (by omega)]
        rfl
      · rfl
    · unfold Fits at h
      simp only [Classical.not_forall] at h
      obtain ⟨low, high, n, hl, hn, hlt⟩ := h
      simp only [hl, hn]
      rw [if_pos (by omega)]
      exact ⟨_, rfl⟩
  rw [heq]
  rcases forIn_check hpass hfail s.members PUnit.unit with ⟨hw, h⟩ | ⟨hw, e, h⟩
  · rw [h]
    exact ⟨fun h => ⟨hw, (Except.ok.inj h).symm⟩, fun h => congrArg Except.ok h.2.symm⟩
  · rw [h]
    exact ⟨nofun, fun h => absurd h.1 hw⟩

/-- Putting an object together cannot fail if its structure has no limits. -/
theorem assemble_eq {s : Struct} {values : List (String × Wire)}
    (h : ∀ m ∈ s.members, limits? m.shape = none) : assemble s values = .ok (assembled s values) :=
  assemble_ok_iff.2 ⟨fun m hm low high n hl => by simp [h m hm] at hl, rfl⟩

end Wire

open Wire (ofText ofInt)

namespace Position

/-- The lines and columns that the protocol knows. -/
def InLimits (p : Position) : Prop :=
  (0 ≤ p.line ∧ p.line ≤ 2147483647) ∧ 0 ≤ p.character ∧ p.character ≤ 2147483647

theorem toWire_ok_iff {p : Position} {w : Wire} : p.toWire = .ok w ↔
    p.InLimits ∧ w = .object "Position" [("line", ofInt p.line), ("character", ofInt p.character)] := by
  have hs : Wire.struct? "Position" =
    some ⟨"Position", [Wire.need "line" .uint, Wire.need "character" .uint]⟩ := rfl
  unfold toWire Wire.make
  simp only [hs]
  rw [Wire.assemble_ok_iff]
  simp [Wire.Fits, Wire.limits?, Wire.need, ofInt, Wire.Struct.written, Wire.isNothing,
    List.lookup_cons, Wire.assembled, InLimits]

/-- A position on the wire, as a value. -/
def wireValue (p : Position) : Value :=
  table [("line", .int p.line), ("character", .int p.character)]

theorem toValue_of_toWire {p : Position} {w : Wire} (h : p.toWire = .ok w) :
    w.toValue = p.wireValue := by
  rw [(toWire_ok_iff.1 h).2]
  rfl

/-- The numbers of the protocol have few digits. -/
theorem fit_of_inLimits {n : Int} (h : 0 ≤ n ∧ n ≤ 2147483647) : Digits.fit n = true :=
  Digits.fit_of_abs_lt (by omega)

theorem writable_wireValue {p : Position} (h : p.InLimits) : Writable p.wireValue :=
  .table (by simp [Writable.int (fit_of_inLimits h.1), Writable.int (fit_of_inLimits h.2)])

end Position

namespace Range

theorem between_start_stop (r : Range) : between r.start r.stop = r := by
  unfold between
  rw [dif_pos r.start_notAfter_stop]

theorem toWire_ok_iff {r : Range} {w : Wire} : r.toWire = .ok w ↔
    ∃ a b, r.start.toWire = .ok a ∧ r.stop.toWire = .ok b ∧
      w = .object "Range" [("start", a), ("end", b)] := by
  have hs : Wire.struct? "Range" = some ⟨"Range", [Wire.need "start" (.struct "Position"),
    Wire.need "end" (.struct "Position")]⟩ := rfl
  unfold toWire Wire.make
  simp only [hs, bind_ok_iff]
  constructor
  · rintro ⟨a, ha, b, hb, h⟩
    refine ⟨a, b, ha, hb, ?_⟩
    rw [(Wire.assemble_ok_iff.1 h).2]
    simp [Wire.assembled, Wire.Struct.written, Wire.need, List.lookup_cons]
  · rintro ⟨a, b, ha, hb, rfl⟩
    refine ⟨a, ha, b, hb, ?_⟩
    rw [Wire.assemble_eq (by simp [Wire.need, Wire.limits?])]
    simp [Wire.assembled, Wire.Struct.written, Wire.need, List.lookup_cons]

/-- A range on the wire, as a value. -/
def wireValue (r : Range) : Value :=
  table [("start", r.start.wireValue), ("end", r.stop.wireValue)]

theorem toValue_of_toWire {r : Range} {w : Wire} (h : r.toWire = .ok w) :
    w.toValue = r.wireValue := by
  obtain ⟨a, b, ha, hb, rfl⟩ := toWire_ok_iff.1 h
  simp [Wire.toValue, Wire.memberValues, Position.toValue_of_toWire ha,
    Position.toValue_of_toWire hb, wireValue, table]

theorem writable_wireValue {r : Range} (h : r.start.InLimits) (h' : r.stop.InLimits) :
    Writable r.wireValue :=
  .table (by simp [Position.writable_wireValue h, Position.writable_wireValue h'])

end Range

namespace ContentChange

/-- A record of an edit on the wire, as a value. -/
def wireValue (c : ContentChange) : Value :=
  table [("range", c.range.wireValue), ("text", .str (String.ofList c.text)),
    ("rangeLength", .int c.length)]

/-- The limits within which the record of an edit can be sent. -/
def InLimits (c : ContentChange) : Prop :=
  c.range.start.InLimits ∧ c.range.stop.InLimits ∧ 0 ≤ c.length ∧ c.length ≤ 2147483647

theorem toWire_ok_iff {c : ContentChange} {w : Wire} : c.toWire = .ok w ↔
    ∃ r, c.range.toWire = .ok r ∧ (0 ≤ c.length ∧ c.length ≤ 2147483647) ∧
      w = .object "TextDocumentContentChangePartial" [("range", r),
        ("text", ofText (String.ofList c.text)), ("rangeLength", ofInt c.length)] := by
  have hs : Wire.struct? "TextDocumentContentChangePartial" =
    some ⟨"TextDocumentContentChangePartial", [Wire.need "range" (.struct "Range"),
      Wire.need "text" .text, Wire.may "rangeLength" .uint]⟩ := rfl
  unfold toWire Wire.make
  simp only [hs, bind_ok_iff, Wire.assemble_ok_iff]
  simp [Wire.Fits, Wire.limits?, Wire.need, Wire.may, ofText, ofInt, Wire.Struct.written,
    Wire.isNothing, List.lookup_cons, Wire.assembled]

theorem toWire_ok {c : ContentChange} (h : c.InLimits) :
    ∃ w, c.toWire = .ok w := by
  obtain ⟨h₁, h₂, h₃⟩ := h
  have hstart := Position.toWire_ok_iff.2 ⟨h₁, rfl⟩
  have hstop := Position.toWire_ok_iff.2 ⟨h₂, rfl⟩
  exact ⟨_, toWire_ok_iff.2 ⟨_, Range.toWire_ok_iff.2 ⟨_, _, hstart, hstop, rfl⟩, h₃, rfl⟩⟩

theorem toValue_of_toWire {c : ContentChange} {w : Wire} (h : c.toWire = .ok w) :
    w.toValue = c.wireValue := by
  obtain ⟨r, hr, -, rfl⟩ := toWire_ok_iff.1 h
  simp [Wire.toValue, Wire.memberValues, Range.toValue_of_toWire hr, wireValue, table, ofText, ofInt]

theorem inLimits_of_toWire {c : ContentChange} {w : Wire} (h : c.toWire = .ok w) : c.InLimits := by
  obtain ⟨r, hr, hlength, -⟩ := toWire_ok_iff.1 h
  obtain ⟨a, b, ha, hb, -⟩ := Range.toWire_ok_iff.1 hr
  exact ⟨(Position.toWire_ok_iff.1 ha).1, (Position.toWire_ok_iff.1 hb).1, hlength⟩

theorem writable_wireValue {c : ContentChange} (h : c.InLimits) : Writable c.wireValue :=
  .table (by simp [Range.writable_wireValue h.1 h.2.1, Writable.str,
    Writable.int (Position.fit_of_inLimits h.2.2)])

/-- A server reads off a change what was recorded of it. -/
theorem delta_wireValue (c : ContentChange) :
    Delta.of? c.wireValue = some (.part c.range c.text) := by
  simp [Delta.of?, wireValue, textAt?, Delta.positionAt?, numberAt?, Range.wireValue,
    Position.wireValue]
  exact c.range.between_start_stop

end ContentChange

/-! ### Documents -/

namespace Document

/-- The version of a document is one that the protocol knows. -/
def VersionFits (d : Document) : Prop := -2147483648 ≤ d.version ∧ d.version ≤ 2147483647

/-- The parameters that announce a document. -/
def announcement (d : Document) : Value :=
  table [("textDocument", table [("uri", .str d.identity), ("languageId", .str d.languageId),
    ("version", .int d.version), ("text", .str d.content)])]

theorem toItem_ok_iff {d : Document} {w : Wire} : d.toItem = .ok w ↔
    d.VersionFits ∧ w = .object "TextDocumentItem" [("uri", ofText d.identity),
      ("languageId", ofText d.languageId), ("version", ofInt d.version),
      ("text", ofText d.content)] := by
  have hs : Wire.struct? "TextDocumentItem" = some ⟨"TextDocumentItem", [Wire.need "uri" .text,
    Wire.need "languageId" .raw, Wire.need "version" .int32, Wire.need "text" .text]⟩ := rfl
  unfold toItem Wire.make
  simp only [hs, Wire.assemble_ok_iff]
  simp [Wire.Fits, Wire.limits?, Wire.need, ofText, ofInt, Wire.Struct.written, Wire.isNothing,
    List.lookup_cons, Wire.assembled, VersionFits]

theorem toIdentifier_eq (d : Document) :
    d.toIdentifier = .ok (.object "TextDocumentIdentifier" [("uri", ofText d.identity)]) := by
  have hs : Wire.struct? "TextDocumentIdentifier" =
    some ⟨"TextDocumentIdentifier", [Wire.need "uri" .text]⟩ := rfl
  unfold toIdentifier Wire.make
  simp only [hs]
  rw [Wire.assemble_eq (by simp [Wire.need, Wire.limits?])]
  simp [Wire.assembled, Wire.Struct.written, Wire.need, List.lookup_cons]

theorem toVersionedIdentifier_ok_iff {d : Document} {w : Wire} :
    d.toVersionedIdentifier = .ok w ↔ d.VersionFits ∧
      w = .object "VersionedTextDocumentIdentifier" [("version", ofInt d.version),
        ("uri", ofText d.identity)] := by
  have hs : Wire.struct? "VersionedTextDocumentIdentifier" =
    some ⟨"VersionedTextDocumentIdentifier", [Wire.need "version" .int32,
      Wire.need "uri" .text]⟩ := rfl
  unfold toVersionedIdentifier Wire.make
  simp only [hs, Wire.assemble_ok_iff]
  simp [Wire.Fits, Wire.limits?, Wire.need, ofText, ofInt, Wire.Struct.written, Wire.isNothing,
    List.lookup_cons, Wire.assembled, VersionFits]

theorem toWholeChange_eq (d : Document) : d.toWholeChange =
    .ok (.object "TextDocumentContentChangeWholeDocument" [("text", ofText d.content)]) := by
  have hs : Wire.struct? "TextDocumentContentChangeWholeDocument" =
    some ⟨"TextDocumentContentChangeWholeDocument", [Wire.need "text" .text]⟩ := rfl
  unfold toWholeChange Wire.make
  simp only [hs]
  rw [Wire.assemble_eq (by simp [Wire.need, Wire.limits?])]
  simp [Wire.assembled, Wire.Struct.written, Wire.need, List.lookup_cons]

/-- Parameters that name a document. -/
def named (d : Document) (more : List (String × Value)) : Value :=
  table (("textDocument", table [("uri", .str d.identity)]) :: more)

/-- The parameters of a change of a document. -/
def revision (d : Document) (changes : List Value) : Value :=
  table [("textDocument", table [("version", .int d.version), ("uri", .str d.identity)]),
    ("contentChanges", .list changes)]

/-- The change that replaces the whole text, as a value. -/
def wholeValue (d : Document) : Value := table [("text", .str d.content)]

theorem VersionFits.fit {d : Document} (h : d.VersionFits) : Digits.fit d.version = true :=
  Digits.fit_of_abs_lt (by unfold VersionFits at h; omega)

theorem writable_announcement {d : Document} (h : d.VersionFits) : Writable d.announcement := by
  refine .table (List.forall_mem_singleton.2 (.table ?_))
  simp [Writable.str, Writable.int h.fit]

theorem writable_named (d : Document) {more : List (String × Value)}
    (h : ∀ e ∈ more, Writable e.2) : Writable (d.named more) :=
  .table (List.forall_mem_cons.2 ⟨.table (by simp [Writable.str]), h⟩)

theorem writable_revision {d : Document} (hv : d.VersionFits) {changes : List Value}
    (h : ∀ v ∈ changes, Writable v) : Writable (d.revision changes) := by
  refine .table (List.forall_mem_cons.2 ⟨.table ?_, List.forall_mem_singleton.2 (.list h)⟩)
  simp [Writable.str, Writable.int hv.fit]

theorem writable_wholeValue (d : Document) : Writable d.wholeValue :=
  .table (by simp [Writable.str])

/-- The whole text is a change of the whole text. -/
theorem delta_wholeValue (d : Document) : Delta.of? d.wholeValue = some (.whole d.text) := by
  simp [Delta.of?, wholeValue, textAt?, content]

/-- A server reads off an announcement the name, the text and the version of the document. -/
theorem told_announcement (d : Document) : Told.of? "textDocument/didOpen" d.announcement =
    some (.opened d.identity d.text d.version) := by
  simp [Told.of?, announcement, about?, textAt?, numberAt?, content]

theorem told_revision (d : Document) (changes : List Value) :
    Told.of? "textDocument/didChange" (d.revision changes) =
      some (.changed d.identity d.version (changes.filterMap Delta.of?)) := by
  simp [Told.of?, revision, about?, textAt?, numberAt?, itemsAt]

theorem told_closing (d : Document) (more : List (String × Value)) :
    Told.of? "textDocument/didClose" (d.named more) = some (.closed d.identity) := by
  simp [Told.of?, named, about?, textAt?]

theorem told_mentioning (d : Document) (more : List (String × Value)) {method : String}
    (h : method ∈ Told.mentioning) :
    Told.of? method (d.named more) = some (.mentioned d.identity) := by
  have habout : about? (d.named more) = some d.identity := by simp [named, about?, textAt?]
  simp only [Told.mentioning, List.mem_cons, List.not_mem_nil, or_false] at h
  rcases h with rfl | rfl | rfl | rfl <;> simp [Told.of?, habout, Told.mentioning]

end Document

/-! ### Parameters -/

/-- **What can be announced**: exactly the documents whose version the protocol knows. -/
theorem Tracker.openParams_ok_iff {d : Document} {v : Value} :
    openParams d = .ok v ↔ d.VersionFits ∧ v = d.announcement := by
  unfold openParams
  simp only [bind_ok_iff, mapError_ok_iff, Document.toItem_ok_iff]
  constructor
  · rintro ⟨w, ⟨hv, rfl⟩, h⟩
    exact ⟨hv, (Except.ok.inj h).symm⟩
  · rintro ⟨hv, rfl⟩
    exact ⟨_, ⟨hv, rfl⟩, rfl⟩

namespace Relay

theorem identityParams_eq (d : Document) (more : List (String × Value)) :
    identityParams d more = .ok (d.named more) := by
  unfold identityParams
  rw [d.toIdentifier_eq]
  rfl

theorem changeParams_ok_iff {d : Document} {ws : List Wire} {v : Value} :
    changeParams d ws = .ok v ↔ d.VersionFits ∧ v = d.revision (ws.map (·.toValue)) := by
  unfold changeParams
  simp only [bind_ok_iff, mapError_ok_iff, Document.toVersionedIdentifier_ok_iff]
  constructor
  · rintro ⟨w, ⟨hv, rfl⟩, h⟩
    exact ⟨hv, (Except.ok.inj h).symm⟩
  · rintro ⟨hv, rfl⟩
    exact ⟨_, ⟨hv, rfl⟩, rfl⟩

/-- Records of edits that were put into objects of the protocol. -/
theorem values_of_mapM {cs : List ContentChange} {ws : List Wire}
    (h : cs.mapM ContentChange.toWire = .ok ws) :
    ws.map (·.toValue) = cs.map (·.wireValue) ∧ ∀ c ∈ cs, c.InLimits := by
  induction cs generalizing ws with
  | nil =>
    cases h
    exact ⟨rfl, nofun⟩
  | cons c cs ih =>
    rw [List.mapM_cons] at h
    obtain ⟨w, hw, h⟩ := bind_ok_iff.1 h
    obtain ⟨ws', hws, h⟩ := bind_ok_iff.1 h
    cases h
    obtain ⟨hvalues, hin⟩ := ih hws
    refine ⟨?_, List.forall_mem_cons.2 ⟨ContentChange.inLimits_of_toWire hw, hin⟩⟩
    rw [List.map_cons, List.map_cons, c.toValue_of_toWire hw, hvalues]

/-- All records within the limits can be put into objects of the protocol. -/
theorem mapM_toWire_ok {cs : List ContentChange} (h : ∀ c ∈ cs, c.InLimits) :
    ∃ ws, cs.mapM ContentChange.toWire = .ok ws := by
  induction cs with
  | nil => exact ⟨[], rfl⟩
  | cons c cs ih =>
    obtain ⟨hc, hcs⟩ := List.forall_mem_cons.1 h
    obtain ⟨w, hw⟩ := c.toWire_ok hc
    obtain ⟨ws, hws⟩ := ih hcs
    refine ⟨w :: ws, ?_⟩
    rw [List.mapM_cons, hw, hws]
    rfl

end Relay

/-- The parameters of a query name the document and a position within the limits. -/
theorem Query.params_ok {d : Document} {p : Position} {v : Value} (h : params d p = .ok v) :
    p.InLimits ∧ v = d.named [("position", p.wireValue)] := by
  unfold params at h
  rw [d.toIdentifier_eq] at h
  obtain ⟨_, hi, h⟩ := bind_ok_iff.1 h
  obtain ⟨w, hw, h⟩ := bind_ok_iff.1 h
  cases hi
  cases h
  have hw := mapError_ok_iff.1 hw
  refine ⟨(Position.toWire_ok_iff.1 hw).1, ?_⟩
  rw [Position.toValue_of_toWire hw]
  rfl

end EditorBridge
