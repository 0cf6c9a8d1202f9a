/-
Chunks do not matter.

An end of a connection takes bytes in chunks, and what it does about a message must not
depend on how the chunks were cut.  What the bytes decide does not: that is a function of
the bytes alone, and what was decided stays decided.  And what is done about a decision
does not look at the buffer.  So working a buffer off comes to carrying out its decisions
one after the other, with the rest in the buffer at the end (`drain_held`), and feeding
chunks comes to carrying out the decisions of all their bytes (`feed_held`).

Carrying out a decision may fail, and then the bytes behind it stay where they are until
more of them come.  That is why the decisions are asked to go through.
-/
import EditorBridge.Proofs.Rpc.Buffer
import EditorBridge.Proofs.Rpc.Header

namespace EditorBridge.Link

open Act (Ignores Keeps Reads after)
open Rpc (Bytes Decision Headers Unfinished Stuck front scan)

variable {p : PeerId} {b bs rest : Bytes} {e e' : Env Link}

/-! ### Carrying decisions out -/

/-- Does what was decided: a block without a length is recorded, a body is handled. -/
def carryOut (p : PeerId) : Decision → Act Link Unit
  | .dropped headers => do
    Act.logBuilt (← peer p).logger .error fun _ =>
      .ok ("Dropping message without a valid Content-Length header: "
        ++ (Value.table (headers.map fun e => (e.1, .str e.2))).shown)
  | .taken body charset => receiveBody p body charset

/-- Does what was decided, one thing after the other. -/
def carryOutAll (p : PeerId) : List Decision → Act Link Unit
  | [] => return
  | d :: ds => do
    carryOut p d
    carryOutAll p ds

instance ignores_carryOut (d : Decision) : Ignores (held p b) (carryOut p d) := by
  cases d with
  | dropped headers => exact ignores_logBuilt _ _
  | taken body charset => exact ignores_receiveBody body charset

instance quiet_carryOut (d : Decision) : Keeps Quiet (carryOut p d) := by
  cases d with
  | dropped headers =>
    unfold carryOut
    infer_instance
  | taken body charset => exact quiet_receiveBody body charset

instance quiet_carryOutAll (ds : List Decision) : Keeps Quiet (carryOutAll p ds) := by
  induction ds with
  | nil => exact Keeps.pure ()
  | cons d ds ih => exact Keeps.bind _ _

/-- What goes through as a whole goes through step by step. -/
theorem carryOutAll_cons {d : Decision} {ds : List Decision}
    (h : carryOutAll p (d :: ds) e = (.ok (), e')) :
    ∃ e₁, carryOut p d e = (.ok (), e₁) ∧ carryOutAll p ds e₁ = (.ok (), e') := by
  unfold carryOutAll at h
  rw [Act.run_bind] at h
  generalize carryOut p d e = r at h ⊢
  obtain ⟨_ | _, e₁⟩ := r
  · cases h
  · exact ⟨e₁, rfl, h⟩

theorem carryOutAll_append {ds ds' : List Decision}
    (h : carryOutAll p (ds ++ ds') e = (.ok (), e')) :
    ∃ e₁, carryOutAll p ds e = (.ok (), e₁) ∧ carryOutAll p ds' e₁ = (.ok (), e') := by
  induction ds generalizing e with
  | nil => exact ⟨e, rfl, h⟩
  | cons d ds ih =>
    obtain ⟨e₁, hd, hrest⟩ := carryOutAll_cons h
    obtain ⟨e₂, hds, hds'⟩ := ih hrest
    refine ⟨e₂, ?_, hds'⟩
    unfold carryOutAll
    rw [Act.run_bind, hd]
    exact hds

/-- No end comes or goes meanwhile. -/
theorem size_of_carryOutAll {ds : List Decision} (h : carryOutAll p ds e = (.ok (), e')) :
    e'.state.peers.size = e.state.peers.size := by
  have hquiet := (quiet_carryOutAll (p := p) ds).keeps e
  rw [h] at hquiet
  exact congrArg Wiring.ends hquiet.wiring

/-! ### Working a buffer off -/

/-- What a buffer begins with decides how it is worked off. -/
theorem drain_eq (p : PeerId) (bs : Bytes) :
    drain p bs = (match front bs with
      | .incomplete => pure ()
      | .tooLong n => throw (.json ⟨.tooManyDigits n, default⟩)
      | .unmarked headers rest => do
        carryOut p (.dropped headers)
        onPeer p fun e => { e with buffer := rest }
        drain p rest
      | .message body charset rest => do
        onPeer p fun e => { e with buffer := rest }
        carryOut p (.taken body charset)
        drain p rest) := by
  rw [drain]
  split <;> simp_all [carryOut]

theorem drain_of_unmarked {headers : Headers} (h : front bs = .unmarked headers rest) :
    drain p bs = (do
      carryOut p (.dropped headers)
      onPeer p fun e => { e with buffer := rest }
      drain p rest) := by
  rw [drain_eq, h]

theorem drain_of_message {body : Bytes} {charset : String}
    (h : front bs = .message body charset rest) :
    drain p bs = (do
      onPeer p fun e => { e with buffer := rest }
      carryOut p (.taken body charset)
      drain p rest) := by
  rw [drain_eq, h]

theorem drain_of_incomplete (h : front bs = .incomplete) : drain p bs = pure () := by
  rw [drain_eq, h]

theorem drain_of_tooLong {n : Nat} (h : front bs = .tooLong n) :
    drain p bs = throw (.json ⟨.tooManyDigits n, default⟩) := by
  rw [drain_eq, h]

/-- Another buffer takes the place of the one that was there. -/
theorem onPeer_buffer (p : PeerId) (b b' : Bytes) (e : Env Link) :
    onPeer p (fun e => { e with buffer := b }) (after (held p b') e) = (.ok (), after (held p b) e) := by
  have hheld : held p b (held p b' e.state) = held p b e.state := held_held
  exact congrArg (fun l => (Except.ok (), (⟨e.journal, l⟩ : Env Link))) hheld

/-- **Working a buffer off** comes to carrying out what it decides, and to its rest. -/
theorem drain_held (h : carryOutAll p (scan bs).1 e = (.ok (), e')) :
    (drain p bs (after (held p bs) e)).2 = after (held p (scan bs).2) e' := by
  induction hlen : bs.length using Nat.strong_induction_on generalizing bs e with
  | _ n ih =>
    subst hlen
    cases hf : front bs with
    | incomplete =>
      rw [Rpc.scan_of_incomplete hf] at h ⊢
      cases h
      rw [drain_of_incomplete hf]
      rfl
    | tooLong n =>
      rw [Rpc.scan_of_tooLong hf] at h ⊢
      cases h
      rw [drain_of_tooLong hf]
      rfl
    | unmarked headers rest =>
      rw [Rpc.scan_of_unmarked hf] at h ⊢
      obtain ⟨e₁, hd, hrest⟩ := carryOutAll_cons h
      have hheld := (ignores_carryOut (p := p) (b := bs) (.dropped headers)).ignores e
      rw [hd] at hheld
      rw [drain_of_unmarked hf, Act.run_bind, hheld]
      dsimp only
      rw [Act.run_bind, onPeer_buffer]
      exact ih _ (Rpc.length_of_front_unmarked hf) hrest rfl
    | message body charset rest =>
      rw [Rpc.scan_of_message hf] at h ⊢
      obtain ⟨e₁, hd, hrest⟩ := carryOutAll_cons h
      have hheld := (ignores_carryOut (p := p) (b := rest) (.taken body charset)).ignores e
      rw [hd] at hheld
      rw [drain_of_message hf, Act.run_bind, onPeer_buffer]
      dsimp only
      rw [Act.run_bind, hheld]
      exact ih _ (Rpc.length_of_front_message hf) hrest rfl

/-! ### Feeding chunks -/

/-- Takes chunks, one after the other; a failure of one does not keep the next one away. -/
def feed (p : PeerId) (chunks : List Bytes) (e : Env Link) : Env Link :=
  chunks.foldl (fun e chunk => (receive p chunk e).2) e

/-- A chunk is put behind what is there, and the buffer is worked off. -/
theorem receive_held (hp : p < e.state.peers.size) (b chunk : Bytes) :
    receive p chunk (after (held p b) e) = drain p (b ++ chunk) (after (held p (b ++ chunk)) e) := by
  have hb : ((after (held p b) e).state.peers.getD p default).buffer = b := buffer_held hp
  unfold receive
  rw [Act.run_bind, (reads_peer p).reads]
  dsimp only
  rw [hb, Act.run_bind, onPeer_buffer]

/-- **Feeding chunks** comes to carrying out what all their bytes decide, and to the rest of them,
if it goes through. -/
theorem feed_held (hp : p < e.state.peers.size) (hb : scan b = ([], b)) (chunks : List Bytes)
    (h : carryOutAll p (scan (b ++ chunks.flatten)).1 e = (.ok (), e')) :
    feed p chunks (after (held p b) e) = after (held p (scan (b ++ chunks.flatten)).2) e' := by
  induction chunks generalizing b e with
  | nil =>
    rw [List.flatten_nil, List.append_nil, hb] at h ⊢
    cases h
    rfl
  | cons chunk chunks ih =>
    have hscan := Rpc.scan_append (b ++ chunk) chunks.flatten
    rw [List.append_assoc] at hscan
    rw [List.flatten_cons, hscan] at h ⊢
    obtain ⟨e₁, hfirst, hlater⟩ := carryOutAll_append h
    have hp₁ : p < e₁.state.peers.size := by
      rw [size_of_carryOutAll hfirst]
      exact hp
    show feed p chunks (receive p chunk (after (held p b) e)).2 = _
    rw [receive_held hp, drain_held hfirst]
    exact ih hp₁ (Rpc.scan_scan_rest _) hlater

theorem scan_nil : scan [] = ([], []) := Rpc.scan_of_incomplete rfl

theorem after_held_nil (hb : (e.state.peers.getD p default).buffer = []) :
    after (held p []) e = e := by
  have hheld := held_buffer e.state p
  rw [hb] at hheld
  exact congrArg (Env.mk e.journal) hheld

/-- **Chunks do not matter**: whatever bytes an end with an empty buffer is fed, it carries out
what they decide, in order, and keeps an end of them.  No block of headers is complete in what it
keeps, or a body misses something, or a length cannot be read. -/
theorem feed_eq (bs : Bytes) (hp : p < e.state.peers.size)
    (hb : (e.state.peers.getD p default).buffer = [])
    (hok : (carryOutAll p (scan bs).1 e).1 = .ok ()) :
    (∀ chunks : List Bytes, chunks.flatten = bs →
      feed p chunks e = after (held p (scan bs).2) (carryOutAll p (scan bs).1 e).2) ∧
    (scan bs).2 <:+ bs ∧ (Unfinished (scan bs).2 ∨ Stuck (scan bs).2) := by
  refine ⟨?_, Rpc.scan_rest bs⟩
  rintro chunks rfl
  have hall : carryOutAll p (scan ([] ++ chunks.flatten)).1 e =
      (.ok (), (carryOutAll p (scan chunks.flatten).1 e).2) := Prod.ext hok rfl
  have hfeed := feed_held hp scan_nil chunks hall
  rwa [after_held_nil hb] at hfeed

/-- A link with one end that has not received anything. -/
def oneEnd : Env Link := ⟨{}, { peers := #[{}] }⟩

/-- A block without a length, cut in the middle of its empty line, and a byte behind it. -/
theorem feed_bareBlock : feed 0 [[65, 13, 10], [13, 10, 66]] oneEnd =
    after (held 0 [66]) (carryOutAll 0 [.dropped []] oneEnd).2 := by
  have hfront : front [65, 13, 10, 13, 10, 66] = .unmarked [] [66] := rfl
  have hrest : front [66] = .incomplete := rfl
  have hscan : scan [65, 13, 10, 13, 10, 66] = ([.dropped []], [66]) := by
    rw [Rpc.scan_of_unmarked hfront, Rpc.scan_of_incomplete hrest]
  have hok : (carryOutAll 0 (scan [65, 13, 10, 13, 10, 66]).1 oneEnd).1 = .ok () := by
    rw [hscan]
    rfl
  have hfeed := feed_eq [65, 13, 10, 13, 10, 66] (by decide) rfl hok
  rw [hscan] at hfeed
  exact hfeed.1 _ rfl

/-- A block that tells a length of nothing but zeros. -/
def zeros (n : Nat) : Bytes :=
  Rpc.asciiBytes (Rpc.lengthLine (List.replicate n '0')) ++ Rpc.emptyLine

/-- So many zeros are never read: the block stays, though it is complete and its body has no
bytes. -/
theorem feed_zeros {n : Nat} (h : Digits.limit < n) :
    feed 0 [zeros n] oneEnd = after (held 0 (zeros n)) oneEnd ∧ Stuck (zeros n) := by
  have hdigits : ∀ c ∈ List.replicate n '0', c.isDigit = true := by
    intro c hc
    rw [List.eq_of_mem_replicate hc]
    decide
  have hover := Rpc.overlong_lengthLine hdigits (by rwa [List.length_replicate])
  have hcut := Rpc.cutAtEmptyLine_lengthLine hdigits []
  rw [List.append_nil] at hcut
  have hscan : scan ([] ++ [zeros n].flatten) = ([], zeros n) := by
    rw [List.nil_append, List.flatten_singleton]
    exact Rpc.scan_of_tooLong (Rpc.front_of_overlong hcut hover)
  have hfeed := feed_held (e := oneEnd) (p := 0) (by decide) scan_nil [zeros n]
    (by rw [hscan]; rfl)
  rw [after_held_nil rfl, hscan] at hfeed
  exact ⟨hfeed, _, _, hcut, hover⟩

/-- One zero more than can be read is a length of nothing, and yet its block is left over. -/
theorem not_unfinished_of_zeros :
    Digits.value (List.replicate (Digits.limit + 1) '0') = 0 ∧
      ((feed 0 [zeros (Digits.limit + 1)] oneEnd).state.peers.getD 0 default).buffer =
        zeros (Digits.limit + 1) ∧
      ¬Unfinished (zeros (Digits.limit + 1)) := by
  have hvalue (n : Nat) : Digits.value (List.replicate n '0') = 10 ^ n * 0 :=
    Nat.ofDigitChars_replicate_zero
  obtain ⟨hfeed, hstuck⟩ := feed_zeros (Nat.lt_succ_self Digits.limit)
  refine ⟨(hvalue _).trans (Nat.mul_zero _), ?_, hstuck.not_unfinished⟩
  rw [hfeed]
  exact buffer_held (by decide)

end EditorBridge.Link
