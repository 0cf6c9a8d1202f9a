/-
Reading undoes writing.

What one end writes is a sequence of frames, and between them there may be blocks of
headers that tell no length.  However such a stream is cut into chunks, the other end
passes over the blocks and takes the body of every frame, in order, each once and in the
character set in which it was written; and what it reads off a body is the message that
the frame carries.  Nothing is left of the stream.

All this holds as long as the messages can be handled, on the machine that there is.  A
message that cannot be is nothing that the frames tell: it ends the work on the buffer, and
the frames behind it are only looked at when more bytes come (`feed_unhashable`).
-/
import EditorBridge.Proofs.Rpc.Chunks

namespace EditorBridge

open Rpc (Bytes Decision Unmarked cutAtEmptyLine emptyLine scan textBytes)

/-- A value is read as it is written. -/
def Json.ReadsBack (v : Value) : Prop := ∀ text, Frame.render v = .ok text → parse text = .ok v

/-! ### Streams -/

/-- A block of headers that tells no length and ends with its first empty line. -/
structure BareBlock where
  headers : Bytes
  unmarked : Unmarked headers
  ends : cutAtEmptyLine (headers ++ emptyLine) = some (headers, [])

/-- What stands on the wire. -/
inductive Piece where
  | bare (block : BareBlock)
  | frame (f : Frame)

namespace Piece

/-- The bytes of a piece. -/
def bytes : Piece → Bytes
  | bare block => block.headers ++ emptyLine
  | frame f => textBytes f.text

/-- What a piece decides. -/
def decision : Piece → Decision
  | bare block => .dropped (Rpc.Headers.ofBytes block.headers)
  | frame f => .taken (textBytes f.body) Rpc.defaultCharset

/-- A body is not longer than its length can tell. -/
def Fits : Piece → Prop
  | bare _ => True
  | frame f => f.body.utf8ByteSize < 10 ^ Digits.limit

/-- The bytes of pieces one behind the other. -/
def stream (ps : List Piece) : Bytes := (ps.map bytes).flatten

/-- A piece in front of other bytes is what is decided first. -/
theorem scan_bytes_append {x : Piece} (h : x.Fits) (rest : Bytes) :
    scan (x.bytes ++ rest) = (x.decision :: (scan rest).1, (scan rest).2) := by
  cases x with
  | bare block =>
    have hcut := Rpc.cutAtEmptyLine_append block.ends rest
    exact Rpc.scan_of_unmarked (Rpc.front_of_unmarked hcut block.unmarked)
  | frame f =>
    have hfront := Rpc.front_framed h rest
    rw [← f.framed] at hfront
    exact Rpc.scan_of_message hfront

/-- **A stream** decides what its pieces decide, and nothing is left of it. -/
theorem scan_stream {ps : List Piece} (h : ∀ x ∈ ps, x.Fits) :
    scan (stream ps) = (ps.map decision, []) := by
  induction ps with
  | nil => exact Link.scan_nil
  | cons x ps ih =>
    obtain ⟨hx, hps⟩ := List.forall_mem_cons.1 h
    have hstream : stream (x :: ps) = x.bytes ++ stream ps := rfl
    rw [hstream, scan_bytes_append hx, ih hps]
    rfl

end Piece

namespace Link

open Act (Ends after)
open Piece (stream)

variable {p : PeerId} {e : Env Link}

/-! ### Bodies -/

/-- The value that a body carries, as a machine reads it. -/
def bodyValue (m : Machine) (body : Bytes) (charset : String) : Except Failure Value := do
  let text := String.ofList (← (Text.decodeNamed m.decode charset body).mapError .unreadable)
  if m.handles text then (Json.parse text).mapError .json else .error .exhausted

theorem readBody_ends (body : Bytes) (charset : String) (l : Link) :
    Ends (readBody body charset) l fun x l' => x = bodyValue l.machine body charset ∧ l' = l := by
  unfold readBody readBodyOn bodyValue
  refine .read (.bind (.ofExcept ?_))
  cases (Text.decodeNamed l.machine.decode charset body).mapError Failure.unreadable with
  | error f => exact ⟨rfl, rfl⟩
  | ok text =>
    refine .bind (.logBuilt ?_ nofun)
    cases hm : l.machine.handles (String.ofList text) with
    | true =>
      rw [if_pos rfl]
      exact .ofExcept ⟨by simp [bind, Except.bind, hm], rfl⟩
    | false => exact .throw ⟨by simp [bind, Except.bind, hm], rfl⟩

/-- A body for which the stack is not deep enough is not taken. -/
theorem receiveBody_exhausted {body : Bytes} {charset : String} {l : Link}
    (h : bodyValue l.machine body charset = .error .exhausted) :
    Ends (receiveBody p body charset) l fun x l' => x = .error .exhausted ∧ l' = l := by
  refine .bind (.outcome ((readBody_ends body charset l).mono fun x l' hx => ?_))
  obtain ⟨rfl, rfl⟩ := hx
  rw [h]
  exact .throw ⟨rfl, rfl⟩

/-- Wherever all is carried out, the stack was deep enough for the bodies. -/
theorem bodyValue_ne_exhausted {ds : List Decision} (h : (carryOutAll p ds e).1 = .ok ())
    {body : Bytes} {charset : String} (hd : .taken body charset ∈ ds) :
    bodyValue e.state.machine body charset ≠ .error .exhausted := by
  induction ds generalizing e with
  | nil => cases hd
  | cons d ds ih =>
    have hall : carryOutAll p (d :: ds) e = (.ok (), (carryOutAll p (d :: ds) e).2) :=
      Prod.ext h rfl
    obtain ⟨e₁, hhead, htail⟩ := carryOutAll_cons hall
    rcases List.mem_cons.1 hd with rfl | hd
    · intro hbody
      have hfails := (receiveBody_exhausted (p := p) hbody e.journal).1
      rw [show receiveBody p body charset ⟨e.journal, e.state⟩ = _ from hhead] at hfails
      cases hfails
    · have hmachine : e₁.state.machine = e.state.machine := by
        have hq := (quiet_carryOut (p := p) d).ends e.state e.journal
        rw [show carryOut p d ⟨e.journal, e.state⟩ = _ from hhead] at hq
        exact congrArg Wiring.machine hq.wiring
      rw [← hmachine]
      exact ih (by rw [htail]) hd

/-- **The body of a frame** is read as the message that the frame carries, if JSON is read as it is
written and the stack is deep enough. -/
theorem bodyValue_frame {m : Machine} {f : Frame} (h : Json.ReadsBack f.message)
    (hdeep : bodyValue m (textBytes f.body) Rpc.defaultCharset ≠ .error .exhausted) :
    bodyValue m (textBytes f.body) Rpc.defaultCharset = .ok f.message := by
  have hdecode : Text.decodeNamed m.decode Rpc.defaultCharset (textBytes f.body) =
      .ok f.body.toList := by
    have hname : Text.charset? Rpc.defaultCharset = some .utf8 := by decide
    have hutf8 := Text.Utf8.decode?_encode f.body.toList
    rw [← Rpc.textBytes_eq] at hutf8
    unfold Text.decodeNamed
    rw [hname]
    show (Text.Utf8.decode? _).mapError _ = _
    rw [hutf8]
    rfl
  have hvalue : bodyValue m (textBytes f.body) Rpc.defaultCharset =
      if m.handles f.body then (Json.parse f.body).mapError .json else .error .exhausted := by
    unfold bodyValue
    rw [hdecode]
    simp [Except.mapError, bind, Except.bind]
  rw [hvalue] at hdeep ⊢
  split at hdeep
  · rename_i hm
    rw [if_pos hm, h f.body f.rendered]
    rfl
  · exact absurd rfl hdeep

/-- **Reading undoes writing**: a stream of frames and bare blocks, cut into any chunks, comes to
its bodies being taken, each in its turn, and each body is read as its message whenever it is read
on the machine that there is. -/
theorem feed_stream (ps : List Piece) (hfits : ∀ x ∈ ps, x.Fits)
    (hjson : ∀ f, .frame f ∈ ps → Json.ReadsBack f.message)
    (hp : p < e.state.peers.size) (hb : (e.state.peers.getD p default).buffer = [])
    (hok : (carryOutAll p (ps.map Piece.decision) e).1 = .ok ()) :
    (∀ chunks : List Bytes, chunks.flatten = stream ps →
      feed p chunks e = after (held p []) (carryOutAll p (ps.map Piece.decision) e).2) ∧
    ∀ f, .frame f ∈ ps → ∀ e' : Env Link, e'.state.machine = e.state.machine →
      (readBody (textBytes f.body) Rpc.defaultCharset e').1 = .ok f.message := by
  refine ⟨fun chunks hchunks => ?_, fun f hf e' hmachine => ?_⟩
  rotate_left
  · have hdeep := bodyValue_ne_exhausted hok (List.mem_map_of_mem (f := Piece.decision) hf)
    rw [← hmachine] at hdeep
    rw [← bodyValue_frame (hjson f hf) hdeep]
    exact (readBody_ends _ _ e'.state e'.journal).1
  have hscan := Piece.scan_stream hfits
  have hall : carryOutAll p (scan ([] ++ chunks.flatten)).1 e =
      (.ok (), (carryOutAll p (ps.map Piece.decision) e).2) := by
    rw [List.nil_append, hchunks, hscan]
    exact Prod.ext hok rfl
  have hfeed := feed_held hp scan_nil chunks hall
  rwa [after_held_nil hb, List.nil_append, hchunks, hscan] at hfeed

/-- The frame of a message with such a text. -/
def frameOf (message : Value) (body : String) (h : Frame.render message = .ok body) : Frame :=
  let text := Rpc.framed body
  ⟨none, text, message, body, h, rfl⟩

theorem readsBack_of_parse {f : Frame} (h : Json.parse f.body = .ok f.message) :
    Json.ReadsBack f.message := by
  intro text ht
  have hbody : text = f.body := Except.ok.inj (ht.symm.trans f.rendered)
  rw [hbody, h]

/-- A table without members. -/
def noMembers : Frame := frameOf (.dict []) "\x7b\x7d" rfl

/-- A line that is no header. -/
def noHeader : BareBlock := ⟨[65], .inl rfl, rfl⟩

/-- Two messages with a bare block between them, byte by byte. -/
theorem feed_stream_noMembers :
    let ps := [.frame noMembers, .bare noHeader, .frame noMembers]
    feed 0 ((stream ps).map ([·])) oneEnd =
      after (held 0 []) (carryOutAll 0 (ps.map Piece.decision) oneEnd).2 := by
  intro ps
  have hgoes : (carryOutAll 0 (ps.map Piece.decision) oneEnd).1.isOk = true := by decide +kernel
  have hok : (carryOutAll 0 (ps.map Piece.decision) oneEnd).1 = .ok () := by
    cases hr : (carryOutAll 0 (ps.map Piece.decision) oneEnd).1 with
    | ok _ => rfl
    | error f =>
      rw [hr] at hgoes
      cases hgoes
  have hfits : ∀ x ∈ ps, x.Fits := by
    have hsmall : noMembers.body.utf8ByteSize < 10 ^ Digits.limit :=
      Nat.lt_of_lt_of_le (by decide) (Nat.pow_le_pow_right (by decide) (by decide : 1 ≤ Digits.limit))
    intro x hx
    simp only [ps, List.mem_cons, List.not_mem_nil, or_false] at hx
    rcases hx with rfl | rfl | rfl
    · exact hsmall
    · trivial
    · exact hsmall
  have hjson : ∀ f, .frame f ∈ ps → Json.ReadsBack f.message := by
    intro f hf
    simp only [ps, List.mem_cons, List.not_mem_nil, or_false, Piece.frame.injEq, reduceCtorEq,
      false_or, or_self] at hf
    subst hf
    exact readsBack_of_parse (f := noMembers) rfl
  refine (feed_stream ps hfits hjson (by decide) rfl hok).1 _ ?_
  simp [← List.flatMap_def]

/-- A notification with a method that cannot be looked up. -/
def unhashable : Frame :=
  frameOf (Value.table [("jsonrpc", version), ("method", .list [])])
    "\x7b\"jsonrpc\":\"2.0\",\"method\":[]\x7d" rfl

/-- A message that cannot be handled keeps the one behind it in the buffer. -/
theorem feed_unhashable :
    (∀ f ∈ [unhashable, noMembers], (Json.parse f.body).toOption.any f.message.same = true) ∧
      ((feed 0 [stream [.frame unhashable, .frame noMembers]] oneEnd).state.peers.getD 0
        default).buffer = textBytes noMembers.text := by
  decide +kernel

end Link

end EditorBridge
