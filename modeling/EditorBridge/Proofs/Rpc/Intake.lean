/-
A whole buffer of messages.

What one message does to an end is known, so it is known of a batch, of a body and of all
bodies that are complete in a buffer, by induction on each of them.  If all items are civil
everything is handled in one go, and nothing is left of the buffer but what misses something
(`receive_contained`).  One item that is not ends the work on the buffer in the middle: a
response with a text for an error takes its request out of the table, never ends it, and
leaves the calls behind it unanswered (`receive_bareError`).

So whatever chunks an open end is fed, the answers that it writes belong to its debts one by one,
in the order in which they came in (`feed_answers`): one for every call with an id, one for
every item that is no message and one for every body that cannot be read.  Notifications and
responses are no debts, so nobody answers them.  What the answer to a call says is left to
its handler, which may do whatever it likes as long as it is fair, as those of a language
client are.  All of this rests on items that are civil, too: one that is not takes the calls
behind it down, and nobody ever answers them (`receive_bareErrorBatch`).
-/
import EditorBridge.Proofs.Rpc.Containment
import EditorBridge.Proofs.Rpc.Stream

namespace EditorBridge

open Json (Plain Writable)

namespace Link

open Act (Ends)
open Rpc (Bytes)

variable {p : PeerId} {l : Link}

/-! ### Batches and bodies -/

/-- The requests that are answered by one of several items. -/
def answeredBy (ms : List Value) (r : PendingRequest) : Bool := ms.any (responds · r)

/-- **A batch** is taken item by item. -/
theorem receiveAll_handled {ms : List Value} (hw : Waits p l) (hf : AllFair (l.handlers p))
    (hp : ∀ m ∈ ms, Plain m) (hc : ∀ m ∈ ms, Civil m) :
    Ends (ForIn.forIn ms PUnit.unit fun m (_ : PUnit) => do
      receiveMessage p m
      return ForInStep.yield PUnit.unit) l fun x l' =>
        (∃ b, x = .ok b) ∧ Handled p (ms.filterMap debt?) (answeredBy ms) l l' := by
  induction ms generalizing l with
  | nil => exact .pure ⟨⟨_, rfl⟩, .refl p l⟩
  | cons m ms ih =>
    obtain ⟨hp, hps⟩ := List.forall_mem_cons.1 hp
    obtain ⟨hc, hcs⟩ := List.forall_mem_cons.1 hc
    rw [List.forIn_cons]
    refine .bind (.bind ((receiveMessage_handled hw hf hp hc).mono fun x l₁ h₁ => ?_))
    obtain ⟨rfl, h₁⟩ := h₁
    have hf₁ : AllFair (l₁.handlers p) := h₁.handlers ▸ hf
    refine .pure ((ih (h₁.waits hw) hf₁ hps hcs).mono fun x l₂ h₂ => ⟨h₂.1, ?_⟩)
    have hdebts : (m :: ms).filterMap debt? = (debt? m).toList ++ ms.filterMap debt? := by
      cases hd : debt? m <;> simp [hd]
    rw [hdebts]
    exact h₁.trans h₂.2

/-- The items of a value: those of a batch, or the value itself. -/
def itemsOf : Value → List Value
  | .list ms => ms
  | m => [m]

theorem plain_of_bodyValue {m : Machine} {body : Bytes} {charset : String} {v : Value}
    (h : bodyValue m body charset = .ok v) : ∀ m ∈ itemsOf v, Plain m := by
  obtain ⟨text, -, h⟩ := bind_ok_iff.1 h
  have hparse : (Json.parse (String.ofList text)).mapError Failure.json = .ok v := by
    dsimp only at h
    split at h
    · exact h
    · cases h
  have hv := Json.plain_of_parse (mapError_ok_iff.1 hparse)
  cases v with
  | list ms =>
    cases hv with
    | list hitems => exact hitems
  | _ => simpa [itemsOf] using hv

end Link

namespace Rpc.Decision

open Link (Debt debt? itemsOf bodyValue)

/-- The items that come in with a decision. -/
def items (m : Machine) : Decision → List Value
  | dropped _ => []
  | taken body charset => ((bodyValue m body charset).toOption.map itemsOf).getD []

/-- What has to be answered about a decision. -/
def debts (m : Machine) : Decision → List Debt
  | dropped _ => []
  | taken body charset => match bodyValue m body charset with
    | .ok v => (itemsOf v).filterMap debt?
    | .error f => [.unreadable f]

/-- What is decided is within the means: the stack is deep enough for a body, and no text in it
has half a surrogate pair, for which there is no character. -/
def Bearable (m : Machine) : Decision → Prop
  | dropped _ => True
  | taken body charset => bodyValue m body charset ≠ .error .exhausted ∧
    ∀ place, bodyValue m body charset ≠ .error (.json ⟨.surrogate, place⟩)

end Rpc.Decision

namespace Link

open Act (Ends after)
open Rpc (Bytes Decision Stuck Unfinished front scan textBytes)

variable {p : PeerId} {l : Link} {e e' : Env Link} {bs : Bytes}

/-- **A body** is taken, or refused if it cannot be read. -/
theorem carryOut_handled {d : Decision} (hw : Waits p l) (hf : AllFair (l.handlers p))
    (hb : d.Bearable l.machine) (hc : ∀ m ∈ d.items l.machine, Civil m) :
    Ends (carryOut p d) l fun x l' =>
      x = .ok () ∧ Handled p (d.debts l.machine) (answeredBy (d.items l.machine)) l l' := by
  cases d with
  | dropped headers => exact .read (.logBuilt ⟨rfl, .refl p l⟩ nofun)
  | taken body charset =>
    refine .bind (.outcome ((readBody_ends body charset l).mono fun x l' h => ?_))
    obtain ⟨rfl, rfl⟩ := h
    simp only [Decision.items] at hc
    simp only [Decision.debts, Decision.items]
    cases hv : bodyValue l'.machine body charset with
    | error f =>
      have hne : f ≠ .exhausted := fun hf => hb.1 (by rw [hv, hf])
      dsimp only
      split
      · cases ‹Except.error f = .ok _›
      · cases ‹Except.error f = .ok _›
      · exact absurd (Except.error.inj ‹Except.error f = .error _›) hne
      · obtain rfl := Except.error.inj ‹Except.error f = .error _›
        refine .read (.bind (.log ?_))
        refine (sendError_ends .null (.int (by decide)) (.str _) .null l').mono fun x l₁ h => ?_
        exact ⟨h.1, h.2.handled (.unreadable f)⟩
    | ok v =>
      have hplain := plain_of_bodyValue hv
      rw [hv] at hc
      have hc : ∀ m ∈ itemsOf v, Civil m := hc
      have hone (hv : itemsOf v = [v]) : Ends (receiveMessage p v) l' fun x l₁ =>
          x = .ok () ∧ Handled p ((itemsOf v).filterMap debt?) (answeredBy (itemsOf v)) l' l₁ := by
        rw [hv] at hc hplain ⊢
        refine (receiveMessage_handled hw hf (hplain v (by simp)) (hc v (by simp))).mono
          fun x l₁ h => ⟨h.1, ?_⟩
        have hdebts : [v].filterMap debt? = (debt? v).toList := by cases hd : debt? v <;> simp [hd]
        rw [hdebts]
        exact h.2.congr fun r _ => by simp [answeredBy]
      cases v with
      | list ms =>
        refine .bind ((receiveAll_handled hw hf hplain hc).mono fun x l₁ h => ?_)
        obtain ⟨⟨b, rfl⟩, h⟩ := h
        exact .pure ⟨rfl, h⟩
      | _ => exact hone rfl

/-! ### Buffers -/

/-- **Several bodies** are taken one after the other. -/
theorem carryOutAll_handled {ds : List Decision} (hw : Waits p l) (hf : AllFair (l.handlers p))
    (hb : ∀ d ∈ ds, d.Bearable l.machine)
    (hc : ∀ m ∈ ds.flatMap (Decision.items l.machine), Civil m) :
    Ends (carryOutAll p ds) l fun x l' =>
      x = .ok () ∧ Handled p (ds.flatMap (Decision.debts l.machine))
        (answeredBy (ds.flatMap (Decision.items l.machine))) l l' := by
  induction ds generalizing l with
  | nil => exact .pure ⟨rfl, .refl p l⟩
  | cons d ds ih =>
    rw [List.flatMap_cons] at hc
    obtain ⟨hc, hcs⟩ := List.forall_mem_append.1 hc
    obtain ⟨hb, hbs⟩ := List.forall_mem_cons.1 hb
    unfold carryOutAll
    refine .bind ((carryOut_handled hw hf hb hc).mono fun x l₁ h₁ => ?_)
    obtain ⟨rfl, h₁⟩ := h₁
    have hf₁ : AllFair (l₁.handlers p) := h₁.handlers ▸ hf
    have hmachine : l₁.machine = l.machine := congrArg Wiring.machine h₁.quiet.wiring
    rw [← hmachine] at hbs hcs
    refine (ih (h₁.waits hw) hf₁ hbs hcs).mono fun x l₂ h₂ => ⟨h₂.1, ?_⟩
    have htrans := h₁.trans h₂.2
    rw [hmachine] at htrans
    refine htrans.congr fun r _ => ?_
    simp [answeredBy]

/-- Working a buffer off goes through if what it decides does, and no length is unreadable. -/
theorem drain_ok (h : carryOutAll p (scan bs).1 e = (.ok (), e')) (hs : ¬Stuck (scan bs).2) :
    (drain p bs (after (held p bs) e)).1 = .ok () := by
  induction hlen : bs.length using Nat.strong_induction_on generalizing bs e with
  | _ n ih =>
    subst hlen
    cases hfront : front bs with
    | incomplete =>
      rw [drain_of_incomplete hfront]
      rfl
    | tooLong n =>
      rcases Rpc.front_cases bs with ⟨_, _, _, _, hf⟩ | ⟨_, _, _, _, _, _, hf⟩ | ⟨hf, -⟩ |
        ⟨_, -, hstuck⟩
      · cases hfront.symm.trans hf
      · cases hfront.symm.trans hf
      · cases hfront.symm.trans hf
      · rw [Rpc.scan_of_tooLong hfront] at hs
        exact absurd hstuck hs
    | unmarked headers rest =>
      rw [Rpc.scan_of_unmarked hfront] at h hs
      obtain ⟨e₁, hd, hrest⟩ := carryOutAll_cons h
      have hheld := (ignores_carryOut (p := p) (b := bs) (.dropped headers)).ignores e
      rw [hd] at hheld
      rw [drain_of_unmarked hfront, Act.run_bind, hheld]
      dsimp only
      rw [Act.run_bind, onPeer_buffer]
      exact ih _ (Rpc.length_of_front_unmarked hfront) hrest hs rfl
    | message body charset rest =>
      rw [Rpc.scan_of_message hfront] at h hs
      obtain ⟨e₁, hd, hrest⟩ := carryOutAll_cons h
      have hheld := (ignores_carryOut (p := p) (b := rest) (.taken body charset)).ignores e
      rw [hd] at hheld
      rw [drain_of_message hfront, Act.run_bind, onPeer_buffer]
      dsimp only
      rw [Act.run_bind, hheld]
      exact ih _ (Rpc.length_of_front_message hfront) hrest hs rfl

/-- Another buffer changes nothing about requests and answers. -/
theorem handled_held (hp : p < l.peers.size) (b : Bytes) :
    Handled p [] (fun _ => false) l (held p b l) where
  quiet := quiet_modify rfl
  handlers := by
    show ((touched p (fun e => { e with buffer := b }) l).peers.getD p default).handlers = _
    rw [peer_touched _ hp]
    rfl
  pending := by
    have hall : ((l.pending p).filter fun _ => !false) = l.pending p :=
      List.filter_eq_self.2 fun _ _ => rfl
    rw [hall]
    exact pending_touched (fun e => { e with buffer := b }) hp
  done _ _ h := nomatch h
  answers _ := ⟨[], (List.append_nil _).symm, .nil⟩

/-- The bytes that an end has and cannot use yet. -/
def buffer (l : Link) (p : PeerId) : Bytes := (l.peers.getD p default).buffer

/-- **Nothing that comes in does harm** if it is civil and the machine can bear it: whatever bytes
come, taking them does not fail, all that is complete is handled, and the rest waits for more bytes.
The requests that do not wait any more are those that were answered, and they have ended. -/
theorem receive_contained (hw : Waits p e.state) (hf : AllFair (e.state.handlers p))
    {bytes : Bytes} (hbs : bs = e.state.buffer p ++ bytes)
    (hb : ∀ d ∈ (scan bs).1, d.Bearable e.state.machine)
    (hc : ∀ m ∈ (scan bs).1.flatMap (Decision.items e.state.machine), Civil m)
    (hs : ¬Stuck (scan bs).2) :
    (receive p bytes e).1 = .ok () ∧
      Handled p ((scan bs).1.flatMap (Decision.debts e.state.machine))
        (answeredBy ((scan bs).1.flatMap (Decision.items e.state.machine))) e.state
        (receive p bytes e).2.state ∧
      (receive p bytes e).2.state.buffer p = (scan bs).2 ∧ Unfinished (scan bs).2 := by
  subst hbs
  have hall := carryOutAll_handled hw hf hb hc e.journal
  generalize hr : carryOutAll p (scan (e.state.buffer p ++ bytes)).1 ⟨e.journal, e.state⟩ = r
    at hall
  obtain ⟨x, e'⟩ := r
  obtain ⟨rfl, hhandled⟩ := hall
  have hself : after (held p (e.state.buffer p)) e = e :=
    congrArg (Env.mk e.journal) (held_buffer e.state p)
  have hreceive := receive_held hw.size (e.state.buffer p) bytes
  rw [hself] at hreceive
  have hp' : p < e'.state.peers.size := (hhandled.waits hw).size
  rw [hreceive, drain_held hr]
  refine ⟨drain_ok hr hs, ?_, buffer_held hp', (Rpc.scan_rest _).2.resolve_right hs⟩
  have htrans := hhandled.trans (handled_held hp' (scan (e.state.buffer p ++ bytes)).2)
  rw [List.append_nil] at htrans
  exact htrans.congr fun r _ => (Bool.or_false _).symm

/-! ### A stream that is taken, and one that is not -/

/-- The response to the first request. -/
def sevenFrame : Frame :=
  frameOf (seven 1) "\x7b\"jsonrpc\":\"2.0\",\"id\":1,\"result\":7\x7d" rfl

/-- A call that nobody handles. -/
def strangeCall : Frame :=
  frameOf (request 7 "n" .null) "\x7b\"jsonrpc\":\"2.0\",\"id\":7,\"method\":\"n\"\x7d" rfl

/-- A response with a text for an error. -/
def bareError : Frame :=
  frameOf (Value.table [("jsonrpc", version), ("id", .int 1), ("error", .str "x")])
    "\x7b\"jsonrpc\":\"2.0\",\"id\":1,\"error\":\"x\"\x7d" rfl

/-- One request was sent, and nothing has come in. -/
def asked : Env Link := (sendRequest 0 "m" .null .unchanged none ⟨{}, talking⟩).2

theorem waits_asked : Waits 0 asked.state := by
  have hsent : (sendRequest 0 "m" .null .unchanged none ⟨{}, talking⟩).1 = .ok 0 := rfl
  exact (Course.begin.next (.sent ⟨{}, hsent, rfl⟩)).waits (by decide) rfl

theorem fits_of_lt {f : Frame} (h : f.body.utf8ByteSize < 10 ^ 2) : (Piece.frame f).Fits :=
  Nat.lt_of_lt_of_le h (Nat.pow_le_pow_right (by decide) (by decide : 2 ≤ Digits.limit))

/-- What two short frames decide. -/
theorem scan_pair {f f' : Frame} (h : f.body.utf8ByteSize < 10 ^ 2)
    (h' : f'.body.utf8ByteSize < 10 ^ 2) : scan (Piece.stream [.frame f, .frame f']) =
      ([(Piece.frame f).decision, (Piece.frame f').decision], []) :=
  Piece.scan_stream
    (List.forall_mem_cons.2 ⟨fits_of_lt h, List.forall_mem_singleton.2 (fits_of_lt h')⟩)

/-- What can be read can be borne. -/
theorem bearable_of_read {m : Machine} {body : Bytes} {charset : String}
    (h : (bodyValue m body charset).isOk = true) : (Decision.taken body charset).Bearable m := by
  refine ⟨fun hv => ?_, fun place hv => ?_⟩ <;> rw [hv] at h <;> cases h

/-- A response and a call in one chunk: both are handled. -/
theorem receive_seven :
    let bs := Piece.stream [.frame sevenFrame, .frame strangeCall]
    (receive 0 bs asked).1 = .ok () ∧
      Handled 0 ((scan bs).1.flatMap (Decision.debts asked.state.machine))
        (answeredBy ((scan bs).1.flatMap (Decision.items asked.state.machine))) asked.state
        (receive 0 bs asked).2.state ∧
      (receive 0 bs asked).2.state.buffer 0 = (scan bs).2 ∧ Unfinished (scan bs).2 := by
  intro bs
  have hscan : scan bs = ([sevenFrame, strangeCall].map fun f => (Piece.frame f).decision, []) :=
    scan_pair (by decide) (by decide)
  have hbear : ∀ d ∈ (scan bs).1, d.Bearable asked.state.machine := by
    rw [hscan]
    refine List.forall_mem_cons.2 ⟨?_, List.forall_mem_singleton.2 ?_⟩
    · exact bearable_of_read (by decide +kernel)
    · exact bearable_of_read (by decide +kernel)
  have hcivil : ∀ m ∈ (scan bs).1.flatMap (Decision.items asked.state.machine), Civil m := by
    rw [hscan]
    decide +kernel
  have hrest : ¬Stuck (scan bs).2 := by
    rw [hscan]
    rintro ⟨block, behind, hcut, -⟩
    cases hcut
  exact receive_contained waits_asked nofun (List.nil_append bs).symm hbear hcivil hrest

/-- A notification with a number for a method. -/
def oddNotification : Frame :=
  frameOf (Value.table [("jsonrpc", version), ("method", .int 5)])
    "\x7b\"jsonrpc\":\"2.0\",\"method\":5\x7d" rfl

/-- **A number for a method** keeps the call behind it in the buffer. -/
theorem receive_oddNotification :
    let bs := Piece.stream [.frame oddNotification, .frame strangeCall]
    (receive 0 bs asked).1.isOk = false ∧
      (receive 0 bs asked).2.state.answers.length = 0 ∧
      (receive 0 bs asked).2.state.buffer 0 = (Piece.frame strangeCall).bytes := by
  decide +kernel

/-- **A text for an error** takes a request out of the table that then never ends, and keeps what
comes behind it in the buffer. -/
theorem receive_bareError :
    let bs := Piece.stream [.frame bareError, .frame strangeCall]
    let e := (receive 0 bs asked).2
    (receive 0 bs asked).1.isOk = false ∧ (asked.state.pending 0).length = 1 ∧
      (e.state.pending 0).length = 0 ∧ e.state.loop.done 0 = false ∧
      e.state.buffer 0 = (Piece.frame strangeCall).bytes := by
  decide +kernel

/-! ### Every call is answered once -/

/-- Answers that pay debts one by one carry their ids. -/
theorem ids_of_pays {hs : List (String × Handler)} {ds : List Debt} {rs : List Value}
    (h : List.Forall₂ (Pays p hs) ds rs) : rs.map (·.get? "id") = ds.map fun d => some d.id := by
  induction h with
  | nil => rfl
  | cons hd _ ih => rw [List.map_cons, List.map_cons, hd.id, ih]

/-- **Every call is answered once**, and so is everything else that has to be answered, in the
order in which it came in. -/
theorem feed_answers (hw : Waits p e.state) (hf : AllFair (e.state.handlers p))
    (ho : e.state.Open p) (hscan : scan (e.state.buffer p) = ([], e.state.buffer p))
    (chunks : List Bytes) (hbs : bs = e.state.buffer p ++ chunks.flatten)
    (hb : ∀ d ∈ (scan bs).1, d.Bearable e.state.machine)
    (hc : ∀ m ∈ (scan bs).1.flatMap (Decision.items e.state.machine), Civil m) :
    ∃ rs, (feed p chunks e).state.answers = e.state.answers ++ rs ∧
      List.Forall₂ (Pays p (e.state.handlers p))
        ((scan bs).1.flatMap (Decision.debts e.state.machine)) rs ∧
      rs.map (·.get? "id") =
        ((scan bs).1.flatMap (Decision.debts e.state.machine)).map fun d => some d.id := by
  subst hbs
  have hall := carryOutAll_handled hw hf hb hc e.journal
  generalize hr : carryOutAll p (scan (e.state.buffer p ++ chunks.flatten)).1 ⟨e.journal, e.state⟩ =
    r at hall
  obtain ⟨x, e'⟩ := r
  obtain ⟨rfl, hhandled⟩ := hall
  have hself : after (held p (e.state.buffer p)) e = e :=
    congrArg (Env.mk e.journal) (held_buffer e.state p)
  have hfeed := feed_held hw.size hscan chunks hr
  rw [hself] at hfeed
  obtain ⟨rs, hrs, hpays⟩ := hhandled.answers ho
  exact ⟨rs, by rw [hfeed]; exact hrs, hpays, ids_of_pays hpays⟩

/-- The end of a language client that can write. -/
def clientEnd : Env Link := ⟨{}, { peers := #[{ Peer.ofClient with outlet := some {} }] }⟩

/-- A call that a language client handles. -/
def progressCall : Frame :=
  frameOf (request 8 "window/workDoneProgress/create" .null)
    "\x7b\"jsonrpc\":\"2.0\",\"id\":8,\"method\":\"window/workDoneProgress/create\"\x7d" rfl

/-- A language client answers two calls, one of which it does not know. -/
theorem feed_answers_clientEnd :
    let bs := Piece.stream [.frame strangeCall, .frame progressCall]
    ∃ rs, (feed 0 [bs] clientEnd).state.answers = clientEnd.state.answers ++ rs ∧
      List.Forall₂ (Pays 0 (clientEnd.state.handlers 0))
        ((scan bs).1.flatMap (Decision.debts clientEnd.state.machine)) rs ∧
      rs.map (·.get? "id") =
        ((scan bs).1.flatMap (Decision.debts clientEnd.state.machine)).map fun d => some d.id := by
  intro bs
  have hw : Waits 0 clientEnd.state := ⟨by decide, nofun, .nil, nofun⟩
  have hopen : clientEnd.state.Open 0 := ⟨{}, rfl, rfl⟩
  have hscan : scan bs =
      ([strangeCall, progressCall].map fun f => (Piece.frame f).decision, []) :=
    scan_pair (by decide) (by decide)
  have hbear : ∀ d ∈ (scan bs).1, d.Bearable clientEnd.state.machine := by
    rw [hscan]
    refine List.forall_mem_cons.2 ⟨?_, List.forall_mem_singleton.2 ?_⟩
    · exact bearable_of_read (by decide +kernel)
    · exact bearable_of_read (by decide +kernel)
  have hcivil : ∀ m ∈ (scan bs).1.flatMap (Decision.items clientEnd.state.machine), Civil m := by
    rw [hscan]
    decide +kernel
  have hall : bs = clientEnd.state.buffer 0 ++ [bs].flatten := by
    rw [List.flatten_singleton]
    rfl
  exact feed_answers hw Peer.fair_clientHandlers hopen scan_nil [bs] hall hbear hcivil

/-- **A text for an error** in front of a call in a batch: the call is never answered. -/
theorem receive_bareErrorBatch :
    let call := frameOf (.list [bareError.message, strangeCall.message])
      "[\x7b\"jsonrpc\":\"2.0\",\"id\":1,\"error\":\"x\"\x7d,\x7b\"jsonrpc\":\"2.0\",\"id\":7,\"method\":\"n\"\x7d]" rfl
    let bs := Piece.stream [.frame call]
    ((scan bs).1.flatMap (Decision.debts asked.state.machine)).length = 1 ∧ (feed 0 [bs] asked).state.answers.length = 0 ∧
      (feed 0 [bs] asked).state.buffer 0 = [] := by
  decide +kernel

end Link

end EditorBridge
