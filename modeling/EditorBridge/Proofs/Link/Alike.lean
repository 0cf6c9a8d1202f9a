/-
Links that differ in what becomes of formatting.

Nobody waits for a request to format a document, and nothing is done with what it comes to.
Two links with a recorder are `Alike` if they differ in such requests only, and then
everything else that is sent, answered and cancelled comes to the same on both.

Requests to format have futures like all others, so the future of a request may have another
number on the other side.  Pairs of futures are carried along, one pair for each request that
was sent on both sides (`Matched`).
-/
import EditorBridge.Proofs.Abreast
import EditorBridge.Proofs.Link.Sending
import EditorBridge.Proofs.Lists

namespace EditorBridge

open Act (Abreast Ends Same)

/-- The method of a request to format a document. -/
def Relay.method : String := "textDocument/formatting"

/-- Whether a message asks to format a document. -/
def Note.formats (n : Note) : Bool := n.kind == "request" && n.method == some Relay.method

/-- Somebody is to be told when formatting is over. -/
def Future.Formats (x : Future Reply Callback) : Prop := ∃ uri, .formatted uri ∈ x.callbacks

theorem Future.not_formats {x : Future Reply Callback} (h : x.callbacks = []) : ¬x.Formats := by
  rintro ⟨uri, huri⟩
  rw [h] at huri
  cases huri

/-- What a recorder took, but for requests to format. -/
def Recorder.others (r : Recorder) : List Note := r.notes.filter (!·.formats)

/-- If requests to format are refused, then not by ending the program. -/
def Recorder.Gentle (r : Recorder) : Prop :=
  ∀ f, r.sendFails.lookup Relay.method = some f → f.isExit = false

namespace Link

variable {ps qs : List (FutureId × FutureId)} {f f' : FutureId} {l l' l₁ l₂ : Link}
  {a a' b : Array (Future Reply Callback)} {method : String}

/-! ### Futures -/

/-- The futures of a pair have ended in the same way, or not at all, and are not about formatting;
no future is in two pairs. -/
structure Matched (ps : List (FutureId × FutureId)) (a a' : Array (Future Reply Callback)) :
    Prop where
  same : ∀ p ∈ ps, ∃ x x', a[p.1]? = some x ∧ a'[p.2]? = some x' ∧ x'.ending = x.ending ∧
    ¬x.Formats ∧ ¬x'.Formats
  apart : ∀ p ∈ ps, ∀ q ∈ ps, p.1 = q.1 ↔ p.2 = q.2

namespace Matched

theorem nil : Matched [] a a' := ⟨nofun, nofun⟩

theorem lt (h : Matched ps a a') {p : FutureId × FutureId} (hp : p ∈ ps) :
    p.1 < a.size ∧ p.2 < a'.size := by
  obtain ⟨x, x', hx, hx', -⟩ := h.same p hp
  exact ⟨(Array.getElem?_eq_some_iff.1 hx).1, (Array.getElem?_eq_some_iff.1 hx').1⟩

/-- A request is sent on both sides. -/
theorem push (h : Matched ps a a') :
    Matched (ps ++ [(a.size, a'.size)]) (a.push {}) (a'.push {}) := by
  have hnew : ¬({} : Future Reply Callback).Formats := Future.not_formats rfl
  refine ⟨fun p hp => ?_, fun p hp q hq => ?_⟩
  · rcases List.mem_append.1 hp with hp | hp
    · obtain ⟨x, x', hx, hx', hsame⟩ := h.same p hp
      obtain ⟨hlt, hlt'⟩ := h.lt hp
      refine ⟨x, x', ?_, ?_, hsame⟩
      · rw [Array.getElem?_push, if_neg (Nat.ne_of_lt hlt), hx]
      · rw [Array.getElem?_push, if_neg (Nat.ne_of_lt hlt'), hx']
    · obtain rfl := List.mem_singleton.1 hp
      exact ⟨{}, {}, Array.getElem?_push_size, Array.getElem?_push_size, rfl, hnew, hnew⟩
  · rcases List.mem_append.1 hp with hp | hp <;> rcases List.mem_append.1 hq with hq | hq
    · exact h.apart p hp q hq
    · obtain rfl := List.mem_singleton.1 hq
      obtain ⟨hlt, hlt'⟩ := h.lt hp
      exact iff_of_false (Nat.ne_of_lt hlt) (Nat.ne_of_lt hlt')
    · obtain rfl := List.mem_singleton.1 hp
      obtain ⟨hlt, hlt'⟩ := h.lt hq
      exact iff_of_false (Nat.ne_of_gt hlt) (Nat.ne_of_gt hlt')
    · rw [List.mem_singleton.1 hp, List.mem_singleton.1 hq]
      exact iff_of_true rfl rfl

/-- A request ends on both sides. -/
theorem set (h : Matched ps a a') (hp : (f, f') ∈ ps) (e : Ending Reply) :
    Matched ps (a.setIfInBounds f { ending := some e })
      (a'.setIfInBounds f' { ending := some e }) := by
  have hended : ¬({ ending := some e } : Future Reply Callback).Formats := Future.not_formats rfl
  refine ⟨fun p hmem => ?_, h.apart⟩
  by_cases hf : f = p.1
  · have hf' : f' = p.2 := (h.apart _ hp p hmem).1 hf
    obtain ⟨hlt, hlt'⟩ := h.lt hmem
    refine ⟨_, _, ?_, ?_, rfl, hended, hended⟩
    · rw [hf, Array.getElem?_setIfInBounds_self_of_lt hlt]
    · rw [hf', Array.getElem?_setIfInBounds_self_of_lt hlt']
  · have hf' : f' ≠ p.2 := fun he => hf ((h.apart _ hp p hmem).2 he)
    rw [Array.getElem?_setIfInBounds_ne hf, Array.getElem?_setIfInBounds_ne hf']
    exact h.same p hmem

/-- Nothing ends but futures that are about formatting; others may be waited for. -/
def Keeps (a b : Array (Future Reply Callback)) : Prop :=
  ∀ (i : FutureId) (x : Future Reply Callback), a[i]? = some x → ¬x.Formats →
    ∃ y, b[i]? = some y ∧ y.ending = x.ending ∧ ¬y.Formats

theorem left (h : Matched ps a a') (hb : Keeps a b) : Matched ps b a' := by
  refine ⟨fun p hp => ?_, h.apart⟩
  obtain ⟨x, x', hx, hx', he, hf, hf'⟩ := h.same p hp
  obtain ⟨y, hy, hend, hn⟩ := hb _ _ hx hf
  exact ⟨y, x', hy, hx', he.trans hend.symm, hn, hf'⟩

theorem right (h : Matched ps a a') (hb : Keeps a' b) : Matched ps a b := by
  refine ⟨fun p hp => ?_, h.apart⟩
  obtain ⟨x, x', hx, hx', he, hf, hf'⟩ := h.same p hp
  obtain ⟨y, hy, hend, hn⟩ := hb _ _ hx' hf'
  exact ⟨x, y, hx, hy, hend.trans he, hf, hn⟩

end Matched

/-! ### Links -/

/-- What is to happen when a request is cancelled that was sent on both sides. -/
inductive Heeded (ps : List (FutureId × FutureId)) : Notice → Notice → Prop
  | note {m : String} {f f' : FutureId} (h : (f, f') ∈ ps) (hm : m ≠ Relay.method) :
    Heeded ps (.note m f) (.note m f')

/-- Two tokens of the same requests. -/
structure Tokened (ps : List (FutureId × FutureId)) (t t' : Token Notice) : Prop where
  requested : t'.requested = t.requested
  callbacks : List.Forall₂ (Heeded ps) t.callbacks t'.callbacks

/-- A request that waits for its answer on both sides. -/
def Enqueued (ps : List (FutureId × FutureId)) (x x' : FutureId × Wire.Target) : Prop :=
  (x.1, x'.1) ∈ ps ∧ x'.2 = x.2

/-- Two recorders that differ in what they took and do about requests to format. -/
structure Recorded (ps : List (FutureId × FutureId)) (r r' : Recorder) : Prop where
  others : r'.others = r.others
  refusals : ∀ m, m ≠ Relay.method → r'.sendFails.lookup m = r.sendFails.lookup m
  responses : ∀ m, m ≠ Relay.method → r'.responses.lookup m = r.responses.lookup m
  failsCancelled : r'.failsCancelled = r.failsCancelled
  waiting : ∀ m, m ≠ Relay.method →
    Option.Rel (List.Forall₂ (Enqueued ps)) (r.waiting.lookup m) (r'.waiting.lookup m)
  gentle : r.Gentle
  gentle' : r'.Gentle

/-- Two links that differ in what becomes of requests to format. -/
structure Alike (ps : List (FutureId × FutureId)) (l l' : Link) : Prop where
  recording : l.recording = true
  recording' : l'.recording = true
  recorder : Recorded ps l.recorder l'.recorder
  size : l'.tokens.size = l.tokens.size
  tokens : ∀ t, Tokened ps (l.tokens.getD t default) (l'.tokens.getD t default)
  futures : Matched ps l.loop.futures l'.loop.futures

/-! ### More pairs -/

theorem Heeded.mono {n n' : Notice} (h : Heeded ps n n') (hs : ps ⊆ qs) : Heeded qs n n' := by
  cases h with
  | note h hm => exact .note (hs h) hm

theorem Tokened.mono {t t' : Token Notice} (h : Tokened ps t t') (hs : ps ⊆ qs) :
    Tokened qs t t' := ⟨h.1, h.2.imp fun _ _ hn => hn.mono hs⟩

theorem Recorded.mono {r r' : Recorder} (h : Recorded ps r r') (hs : ps ⊆ qs) :
    Recorded qs r r' := by
  refine { h with waiting := fun m hm => ?_ }
  have hw := h.waiting m hm
  generalize r.waiting.lookup m = x, r'.waiting.lookup m = x' at hw ⊢
  cases hw with
  | some hw => exact .some (hw.imp fun _ _ hx => ⟨hs hx.1, hx.2⟩)
  | none => exact .none

/-! ### What happens on one side -/

/-- Nothing happens but to requests to format, and somebody may wait for others. -/
structure Beside (l l₁ : Link) : Prop where
  recording : l₁.recording = l.recording
  tokens : l₁.tokens = l.tokens
  others : l₁.recorder.others = l.recorder.others
  refusals : ∀ m, m ≠ Relay.method →
    l₁.recorder.sendFails.lookup m = l.recorder.sendFails.lookup m
  responses : ∀ m, m ≠ Relay.method →
    l₁.recorder.responses.lookup m = l.recorder.responses.lookup m
  failsCancelled : l₁.recorder.failsCancelled = l.recorder.failsCancelled
  waiting : ∀ m, m ≠ Relay.method → l₁.recorder.waiting.lookup m = l.recorder.waiting.lookup m
  gentle : l.recorder.Gentle → l₁.recorder.Gentle
  futures : Matched.Keeps l.loop.futures l₁.loop.futures

namespace Beside

theorem refl (l : Link) : Beside l l :=
  ⟨rfl, rfl, rfl, fun _ _ => rfl, fun _ _ => rfl, rfl, fun _ _ => rfl, id,
    fun _ x h hf => ⟨x, h, rfl, hf⟩⟩

theorem trans (h : Beside l l₁) (h' : Beside l₁ l₂) : Beside l l₂ where
  recording := h'.recording.trans h.recording
  tokens := h'.tokens.trans h.tokens
  others := h'.others.trans h.others
  refusals m hm := (h'.refusals m hm).trans (h.refusals m hm)
  responses m hm := (h'.responses m hm).trans (h.responses m hm)
  failsCancelled := h'.failsCancelled.trans h.failsCancelled
  waiting m hm := (h'.waiting m hm).trans (h.waiting m hm)
  gentle hg := h'.gentle (h.gentle hg)
  futures i x hx hf := by
    obtain ⟨y, hy, he, hn⟩ := h.futures i x hx hf
    obtain ⟨z, hz, he', hn'⟩ := h'.futures i y hy hn
    exact ⟨z, hz, he'.trans he, hn'⟩

theorem left (hb : Beside l l₁) (h : Alike ps l l') : Alike ps l₁ l' where
  recording := hb.recording.trans h.recording
  recording' := h.recording'
  recorder :=
    { others := h.recorder.others.trans hb.others.symm
      refusals := fun m hm => (h.recorder.refusals m hm).trans (hb.refusals m hm).symm
      responses := fun m hm => (h.recorder.responses m hm).trans (hb.responses m hm).symm
      failsCancelled := h.recorder.failsCancelled.trans hb.failsCancelled.symm
      waiting := fun m hm => by
        rw [hb.waiting m hm]
        exact h.recorder.waiting m hm
      gentle := hb.gentle h.recorder.gentle
      gentle' := h.recorder.gentle' }
  size := by rw [hb.tokens, h.size]
  tokens := by
    rw [hb.tokens]
    exact h.tokens
  futures := h.futures.left hb.futures

theorem right (hb : Beside l' l₁) (h : Alike ps l l') : Alike ps l l₁ where
  recording := h.recording
  recording' := hb.recording.trans h.recording'
  recorder :=
    { others := hb.others.trans h.recorder.others
      refusals := fun m hm => (hb.refusals m hm).trans (h.recorder.refusals m hm)
      responses := fun m hm => (hb.responses m hm).trans (h.recorder.responses m hm)
      failsCancelled := hb.failsCancelled.trans h.recorder.failsCancelled
      waiting := fun m hm => by
        rw [hb.waiting m hm]
        exact h.recorder.waiting m hm
      gentle := h.recorder.gentle
      gentle' := hb.gentle h.recorder.gentle' }
  size := by rw [hb.tokens, h.size]
  tokens := by
    rw [hb.tokens]
    exact h.tokens
  futures := h.futures.right hb.futures

end Beside

/-! ### What happens on both sides -/

namespace Alike

/-- Nothing has been sent that waits for an answer. -/
theorem fresh (hrec : l.recording = true) (htokens : l.tokens = #[])
    (hwaiting : l.recorder.waiting = []) (hg : l.recorder.Gentle) : Alike [] l l where
  recording := hrec
  recording' := hrec
  recorder :=
    { others := rfl
      refusals := fun _ _ => rfl
      responses := fun _ _ => rfl
      failsCancelled := rfl
      waiting := fun m _ => by
        rw [hwaiting]
        exact .none
      gentle := hg
      gentle' := hg }
  size := rfl
  tokens t := by
    rw [htokens]
    exact ⟨rfl, .nil⟩
  futures := .nil

/-- It is decided on both sides what is refused and what is answered. -/
theorem decided (h : Alike ps l l') (sendFails : List (String × Failure))
    (responses : List (String × Response)) (failsCancelled : Bool)
    (hg : ∀ f, sendFails.lookup Relay.method = some f → f.isExit = false) :
    Alike ps { l with recorder := { l.recorder with sendFails, responses, failsCancelled } }
      { l' with recorder := { l'.recorder with sendFails, responses, failsCancelled } } :=
  { h with
    recorder :=
      { h.recorder with
        refusals := fun _ _ => rfl
        responses := fun _ _ => rfl
        failsCancelled := rfl
        gentle := hg
        gentle' := hg } }

/-- Both take the same message. -/
theorem noted (h : Alike ps l l') (n : Note) :
    Alike ps { l with recorder := { l.recorder with notes := l.recorder.notes ++ [n] } }
      { l' with recorder := { l'.recorder with notes := l'.recorder.notes ++ [n] } } := by
  refine { h with recorder := { h.recorder with others := ?_ } }
  have hothers := h.recorder.others
  simp only [Recorder.others, List.filter_append] at hothers ⊢
  rw [hothers]

theorem note (h : Alike ps l l') (n : Note) : Abreast (note n) (note n) l l' fun r s x s' =>
    r = .ok () ∧ x = .ok () ∧ Alike ps s s' := by
  unfold Link.note onRecorder
  exact .change ⟨rfl, rfl, h.noted n⟩

/-- Loops may go on as long as the futures of the requests match. -/
theorem withLoop (h : Alike ps l l') (hs : ps ⊆ qs) {lo lo' : Loop Reply Callback Job}
    (hlo : Matched qs lo.futures lo'.futures) :
    Alike qs { l with loop := lo } { l' with loop := lo' } where
  recording := h.recording
  recording' := h.recording'
  recorder := h.recorder.mono hs
  size := h.size
  tokens t := (h.tokens t).mono hs
  futures := hlo

/-- A token is replaced on both sides. -/
theorem withToken (h : Alike ps l l') {x x' : Token Notice} (hx : Tokened ps x x') (t : TokenId) :
    Alike ps { l with tokens := l.tokens.setIfInBounds t x }
      { l' with tokens := l'.tokens.setIfInBounds t x' } := by
  refine { h with size := by simp [h.size], tokens := fun u => ?_ }
  by_cases htu : t = u
  · subst htu
    by_cases hlt : t < l.tokens.size
    · have hlt' : t < l'.tokens.size := h.size ▸ hlt
      simpa [hlt, hlt'] using hx
    · have hlt' : ¬t < l'.tokens.size := h.size ▸ hlt
      have hnone : Tokened ps default default := ⟨rfl, .nil⟩
      simpa [hlt, hlt'] using hnone
  · have hu := h.tokens u
    simpa [Array.getElem?_setIfInBounds_ne htu] using hu

/-- A token is made on both sides. -/
theorem newToken (h : Alike ps l l') : Abreast newToken newToken l l' (Same (Alike ps)) := by
  have hget (ts : Array (Token Notice)) (t : TokenId) :
      (ts.push {}).getD t default = if t = ts.size then {} else ts.getD t default := by
    simp only [Array.getD_eq_getD_getElem?, Array.getElem?_push]
    split <;> rfl
  refine .read (.change_bind (.pure ⟨congrArg Except.ok h.size.symm, ?_⟩))
  refine { h with size := by simp [h.size], tokens := fun t => ?_ }
  show Tokened ps ((l.tokens.push {}).getD t default) ((l'.tokens.push {}).getD t default)
  rw [hget, hget, h.size]
  split
  · exact ⟨rfl, .nil⟩
  · exact h.tokens t

/-- A request ends on both sides, unless it has ended before. -/
theorem settleOpen (h : Alike ps l l') (hp : (f, f') ∈ ps) (e : Ending Reply) :
    Abreast (settleOpen f e) (settleOpen f' e) l l' (Same (Alike ps)) := by
  obtain ⟨x, x', hx, hx', he, -⟩ := h.futures.same _ hp
  refine .read ?_
  unfold Loop.settle?
  rw [hx, hx']
  dsimp only
  rw [he]
  cases x.ending.isSome with
  | true => exact .pure ⟨rfl, h⟩
  | false =>
    exact .change_bind (.pure ⟨rfl, h.withLoop (List.Subset.refl ps) (h.futures.set hp e)⟩)

end Alike

/-- Failures of those who heed the end of a token are recorded on both sides. -/
theorem abreast_call {R : Link → Link → Prop} {a b : Act Link Unit}
    (h : Abreast a b l l' (Same R)) :
    Abreast (Token.call a) (Token.call b) l l' (Same R) := by
  refine .bind (.outcome (h.mono fun r s x t hr => ?_))
  obtain ⟨rfl, hs⟩ := hr
  cases r with
  | ok _ => exact .pure ⟨rfl, hs⟩
  | error f =>
    dsimp only
    split
    · exact .throw ⟨rfl, hs⟩
    · exact .log ⟨rfl, hs⟩

namespace Alike

theorem heed {n n' : Notice} (h : Alike ps l l') (hn : Heeded ps n n') :
    Abreast (heed n) (heed n') l l' (Same (Alike ps)) := by
  cases hn with
  | @note method f f' hp hm =>
    have hnoted := h.noted { kind := "cancel", method := some method }
    have hfails := h.recorder.failsCancelled
    refine .change_bind (.read ?_)
    dsimp only
    by_cases hc : l.recorder.failsCancelled = true
    · rw [if_pos hc, if_pos (hfails.trans hc)]
      refine .bind ((hnoted.settleOpen hp _).mono fun r s x t hr => ?_)
      obtain ⟨rfl, hs⟩ := hr
      cases r with
      | error f => exact ⟨rfl, hs⟩
      | ok _ => exact .pure ⟨rfl, hs⟩
    · rw [if_neg hc, if_neg (hfails ▸ hc)]
      exact .pure ⟨rfl, hnoted⟩

theorem watch {n n' : Notice} (h : Alike ps l l') (hn : Heeded ps n n') (t : TokenId) :
    Abreast (watch t n) (watch t n') l l' (Same (Alike ps)) := by
  have ht := h.tokens t
  refine .read ?_
  unfold Token.register
  rw [ht.requested]
  cases (l.tokens.getD t default).requested with
  | true =>
    refine .change_bind ?_
    refine .bind ((abreast_call ((h.withToken ht t).heed hn)).mono fun r s x t hr => ?_)
    obtain ⟨rfl, hs⟩ := hr
    cases r with
    | error f => exact ⟨rfl, hs⟩
    | ok _ => exact .pure ⟨rfl, hs⟩
  | false =>
    have hwatched : Tokened ps { callbacks := (l.tokens.getD t default).callbacks ++ [n] }
        { callbacks := (l'.tokens.getD t default).callbacks ++ [n'] } :=
      ⟨rfl, List.rel_append ht.callbacks (.cons hn .nil)⟩
    exact .change_bind (.pure ⟨rfl, h.withToken hwatched t⟩)

/-- A token is cancelled on both sides. -/
theorem cancelToken (h : Alike ps l l') (t : TokenId) :
    Abreast (cancelToken t) (cancelToken t) l l' (Same (Alike ps)) := by
  have hnotices {ns ns' : List Notice} (hn : List.Forall₂ (Heeded ps) ns ns')
      {s s' : Link} (hs : Alike ps s s') :
      Abreast (do for n in ns do Token.call (Link.heed n))
        (do for n in ns' do Token.call (Link.heed n)) s s' (Same (Alike ps)) := by
    refine .bind ((Abreast.forIn (hn.imp fun n n' hn s t hs => ?_) hs).mono fun r s x t hr => ?_)
    · refine .bind ((abreast_call (hs.heed hn)).mono fun r s x t hr => ?_)
      obtain ⟨rfl, hs⟩ := hr
      cases r with
      | error f => exact ⟨rfl, hs⟩
      | ok _ => exact .pure ⟨rfl, hs⟩
    · obtain ⟨rfl, hs⟩ := hr
      cases r with
      | error f => exact ⟨rfl, hs⟩
      | ok _ => exact .pure ⟨rfl, hs⟩
  have ht := h.tokens t
  refine .read ?_
  unfold Token.cancel
  rw [ht.requested]
  cases (l.tokens.getD t default).requested with
  | true => exact .change_bind (hnotices .nil (h.withToken ht t))
  | false => exact .change_bind (hnotices ht.callbacks (h.withToken ⟨rfl, .nil⟩ t))

/-! ### Sending -/

theorem checkSend (h : Alike ps l l') (hm : method ≠ Relay.method) :
    Abreast (checkSend method) (checkSend method) l l' fun r s x t =>
      r = x ∧ s = l ∧ t = l' := by
  refine .read ?_
  rw [h.recorder.refusals method hm]
  cases l.recorder.sendFails.lookup method with
  | none => exact .pure ⟨rfl, rfl, rfl⟩
  | some f => exact .throw ⟨rfl, rfl, rfl⟩

/-- **A notification** is taken on both sides, or on none. -/
theorem sendNotification (h : Alike ps l l') (hm : method ≠ Relay.method) (params : Value) :
    Abreast (sendNotification method params) (sendNotification method params) l l'
      (Same (Alike ps)) := by
  refine .read ?_
  rw [if_pos h.recording, if_pos h.recording']
  refine .bind ((h.checkSend hm).mono fun r s x t hr => ?_)
  obtain ⟨rfl, rfl, rfl⟩ := hr
  cases r with
  | error f => exact ⟨rfl, h⟩
  | ok _ =>
    refine (h.note { kind := "notification", method := some method, params }).mono ?_
    rintro r s x s' ⟨rfl, rfl, hs⟩
    exact ⟨rfl, hs⟩

/-- What a request was sent as on the two sides, if it was. -/
def Requested (ps : List (FutureId × FutureId)) :
    Except Failure FutureId → Except Failure FutureId → Prop
  | .ok g, .ok g' => (g, g') ∈ ps
  | .error e, .error e' => e = e'
  | _, _ => False

/-- Requests have ended in the same way, if they have. -/
theorem ending (h : Alike ps l l') (hp : (f, f') ∈ ps) : l'.loop.ending? f' = l.loop.ending? f := by
  obtain ⟨x, x', hx, hx', he, -⟩ := h.futures.same _ hp
  rw [Loop.ending?, Loop.ending?, hx, hx']
  exact he

/-- A request waits behind the others of its method on both sides. -/
theorem enqueue (h : Alike ps l l') (hm : method ≠ Relay.method) (hp : (f, f') ∈ ps)
    (target : Wire.Target) :
    Alike ps { l with recorder := l.recorder.enqueue method f target }
      { l' with recorder := l'.recorder.enqueue method f' target } := by
  have hlookup (r : Recorder) (g : FutureId) (m : String) :
      (r.enqueue method g target).waiting.lookup m =
        if m = method then some ((r.waiting.lookup method).getD [] ++ [(g, target)])
        else r.waiting.lookup m := lookup_replaced _ _ _ _
  refine { h with recorder := { h.recorder with waiting := fun m hm' => ?_ } }
  rw [hlookup, hlookup]
  split
  · have hw := h.recorder.waiting method hm
    refine .some (List.rel_append ?_ (.cons ⟨hp, rfl⟩ .nil))
    generalize l.recorder.waiting.lookup method = x, l'.recorder.waiting.lookup method = x' at hw ⊢
    cases hw with
    | some hw => exact hw
    | none => exact .nil
  · exact h.recorder.waiting m hm'

/-- A request ends at once on both sides, or waits. -/
theorem answerAtOnce (h : Alike ps l l') (hm : method ≠ Relay.method) (hp : (f, f') ∈ ps)
    (target : Wire.Target) :
    Abreast (answerAtOnce method target f) (answerAtOnce method target f') l l'
      fun r s x t => Alike ps s t ∧ Requested ps r x := by
  refine .read ?_
  rw [Loop.done, Loop.done, h.ending hp]
  dsimp only
  split
  · refine .read ?_
    rw [h.recorder.responses method hm]
    cases l.recorder.responses.lookup method with
    | some r =>
      refine .bind (.bind ((h.settleOpen hp (Response.ending target r)).mono fun y s z t hy => ?_))
      obtain ⟨rfl, hs⟩ := hy
      cases y with
      | error e => exact ⟨hs, rfl⟩
      | ok b =>
        cases b with
        | true => exact .pure (.pure ⟨hs, hp⟩)
        | false => exact .throw ⟨hs, rfl⟩
    | none => exact .change_bind (.pure ⟨h.enqueue hm hp target, hp⟩)
  · exact .pure ⟨h, hp⟩

/-- A future is made on both sides. -/
theorem newFuture (h : Alike ps l l') : Abreast newFuture newFuture l l' fun r s x s' =>
    ∃ p, r = .ok p.1 ∧ x = .ok p.2 ∧ Alike (ps ++ [p]) s s' :=
  .read (.change_bind (.pure ⟨_, rfl, rfl,
    h.withLoop (List.subset_append_left ps _) h.futures.push⟩))

/-- **A request** is sent on both sides, or on none. -/
theorem sendQuery (h : Alike ps l l') (hm : method ≠ Relay.method) (params : Value)
    (target : Wire.Target) (t : TokenId) :
    Abreast (sendQuery method params target (some t)) (sendQuery method params target (some t)) l l'
      fun r s x s' => ∃ qs, ps ⊆ qs ∧ Alike qs s s' ∧ Requested qs r x := by
  refine .read ?_
  rw [if_pos h.recording, if_pos h.recording']
  refine .bind ((h.checkSend hm).mono fun r s x s' hr => ?_)
  obtain ⟨rfl, rfl, rfl⟩ := hr
  cases r with
  | error f => exact ⟨ps, List.Subset.refl ps, h, rfl⟩
  | ok _ =>
    refine .bind ((h.note { kind := "request", method := some method, params }).mono
      fun r s x s' hr => ?_)
    obtain ⟨rfl, rfl, hs⟩ := hr
    refine .bind (hs.newFuture.mono fun r s x s' hr => ?_)
    obtain ⟨p, rfl, rfl, hs⟩ := hr
    have hsub := List.subset_append_left ps [p]
    have hp : p ∈ ps ++ [p] := List.mem_append_right _ (List.mem_singleton_self _)
    refine .bind ((hs.watch (.note hp hm) t).mono fun r s x s' hr => ?_)
    obtain ⟨rfl, hs⟩ := hr
    cases r with
    | error f => exact ⟨_, hsub, hs, rfl⟩
    | ok _ => exact (hs.answerAtOnce hm hp target).mono fun r s x s' hr => ⟨_, hsub, hr⟩

end Alike

/-! ### Answering -/

theorem Alike.takeWaiting (h : Alike ps l l') (hm : method ≠ Relay.method) :
    Abreast (takeWaiting method) (takeWaiting method) l l' fun r s x s' => Alike ps s s' ∧
      match r, x with
      | .ok y, .ok y' => Enqueued ps y y'
      | .error e, .error e' => e = e'
      | _, _ => False := by
  have hw := h.recorder.waiting method hm
  refine .read ?_
  generalize l.recorder.waiting.lookup method = y, l'.recorder.waiting.lookup method = y' at hw ⊢
  cases hw with
  | none => exact .throw ⟨h, rfl⟩
  | some hw =>
    cases hw with
    | nil => exact .throw ⟨h, rfl⟩
    | @cons first first' rest rest' hfirst hrest =>
      have htaken : Alike ps
          { l with recorder := { l.recorder with
            waiting := (method, rest) :: l.recorder.waiting.filter (·.1 ≠ method) } }
          { l' with recorder := { l'.recorder with
            waiting := (method, rest') :: l'.recorder.waiting.filter (·.1 ≠ method) } } := by
        refine { h with recorder := { h.recorder with waiting := fun m hm' => ?_ } }
        dsimp only
        rw [lookup_replaced, lookup_replaced]
        split
        · exact .some hrest
        · exact h.recorder.waiting m hm'
      unfold onRecorder
      exact .change_bind (.pure ⟨htaken, hfirst⟩)

/-- The oldest request of a method that is open ends. -/
def endOldest (method : String) (ending : Wire.Target → Ending Reply) : Act Link Unit := do
  let (f, target) ← takeWaiting method
  let _ ← settleOpen f (ending target)

/-- **A request ends** on both sides. -/
theorem Alike.endOldest (h : Alike ps l l') (hm : method ≠ Relay.method)
    (ending : Wire.Target → Ending Reply) :
    Abreast (endOldest method ending) (endOldest method ending) l l' (Same (Alike ps)) := by
  refine .bind ((h.takeWaiting hm).mono fun r s x s' hr => ?_)
  obtain ⟨hs, hr⟩ := hr
  match r, x, hr with
  | .error e, .error _, rfl => exact ⟨rfl, hs⟩
  | .ok (f, target), .ok (f', _), ⟨hp, rfl⟩ =>
    refine .bind ((hs.settleOpen hp (ending target)).mono fun r s x s' hr => ?_)
    obtain ⟨rfl, hs⟩ := hr
    cases r with
    | error e => exact ⟨rfl, hs⟩
    | ok b => exact .pure ⟨rfl, hs⟩

/-! ### Requests to format -/

theorem Matched.Keeps.of_below (h : ∀ i < a.size, b[i]? = a[i]?) : Matched.Keeps a b :=
  fun i x hx hf => ⟨x, (h i (Array.getElem?_eq_some_iff.1 hx).1).trans hx, rfl, hf⟩

/-- A request to format is taken. -/
theorem Beside.taken {lo : Loop Reply Callback Job} (params : Value)
    (waiting : List (String × List (FutureId × Wire.Target)))
    (hlo : ∀ i < l.loop.futures.size, lo.futures[i]? = l.loop.futures[i]?)
    (hw : ∀ m, m ≠ Relay.method → waiting.lookup m = l.recorder.waiting.lookup m) :
    Beside l { l with
      loop := lo
      recorder := { l.recorder with
        notes := l.recorder.notes ++ [{ kind := "request", method := some Relay.method, params }]
        waiting } } where
  recording := rfl
  tokens := rfl
  others := by simp [Recorder.others, Note.formats]
  refusals _ _ := rfl
  responses _ _ := rfl
  failsCancelled := rfl
  waiting := hw
  gentle := id
  futures := .of_below hlo

/-- **A request to format** is refused, or has a future of its own. -/
theorem sendFormatting_ends {params : Value} {target : Wire.Target} (hrec : l.recording = true)
    (hg : l.recorder.Gentle) :
    Ends (sendQuery Relay.method params target none) l fun r l₁ => Beside l l₁ ∧ match r with
      | .ok f => f = l.loop.futures.size ∧ l₁.recorder.notes = l.recorder.notes ++
          [{ kind := "request", method := some Relay.method, params }]
      | .error e => e.isExit = false ∧ l₁ = l := by
  refine .read ?_
  rw [if_pos hrec]
  refine .bind (checkSend_ends.mono fun r s hr => ?_)
  obtain ⟨rfl, hr⟩ := hr
  cases r with
  | error f => exact ⟨.refl s, hg f hr, rfl⟩
  | ok _ =>
    unfold note onRecorder
    refine .change_bind ?_
    refine .bind (newFuture_ends.mono fun r l₁ hr => ?_)
    obtain ⟨rfl, rfl⟩ := hr
    have hnew (i : FutureId) (hi : i < s.loop.futures.size) :
        s.loop.create.2.futures[i]? = s.loop.futures[i]? := by
      rw [Loop.create, Array.getElem?_push, if_neg (Nat.ne_of_lt hi)]
    have hopen : s.loop.create.2.futures[s.loop.futures.size]? = some {} := Array.getElem?_push_size
    refine .read ?_
    rw [if_pos (by simp [Loop.done, Loop.ending?, hopen])]
    refine .read ?_
    cases s.recorder.responses.lookup Relay.method with
    | none =>
      refine .change_bind (.pure ⟨.taken params _ hnew fun m hm => ?_, rfl, rfl⟩)
      exact (lookup_replaced _ _ _ _).trans (if_neg hm)
    | some answer =>
      refine .bind (.bind (.read ?_))
      unfold Loop.settle?
      rw [hopen]
      refine .change_bind (.pure (.pure (.pure
        ⟨.taken params _ (fun i hi => ?_) fun _ _ => rfl, rfl, rfl⟩)))
      rw [Array.getElem?_setIfInBounds_ne (Nat.ne_of_gt hi)]
      exact hnew i hi

/-- Asking for a callback concerns the future that it is about only. -/
theorem getElem?_whenDone {lo : Loop Reply Callback Job} {k : Callback} {i : FutureId}
    (h : f ≠ i) : (lo.whenDone .call f k).futures[i]? = lo.futures[i]? := by
  unfold Loop.whenDone
  split
  · rfl
  · split
    · rfl
    · exact Array.getElem?_setIfInBounds_ne h

/-- **A request to format** is followed up. -/
theorem Beside.followed (h : Beside l l₁) (uri : String) :
    Beside l { l₁ with loop := l₁.loop.whenDone .call l.loop.futures.size (.formatted uri) } := by
  refine { h with futures := fun i x hx hf => ?_ }
  have hlt : i < l.loop.futures.size := (Array.getElem?_eq_some_iff.1 hx).1
  obtain ⟨y, hy, hkept⟩ := h.futures i x hx hf
  exact ⟨y, (getElem?_whenDone (Nat.ne_of_gt hlt)).trans hy, hkept⟩

/-- A future that somebody wants to format with ends. -/
theorem Beside.settled {x : Future Reply Callback} {e : Ending Reply}
    {lo : Loop Reply Callback Job} (hx : l.loop.futures[f]? = some x) (hf : x.Formats)
    (h : l.loop.settle? .call f e = some lo) : Beside l { l with loop := lo } := by
  refine { Beside.refl l with futures := fun i y hy hn => ?_ }
  have hne : f ≠ i := by
    rintro rfl
    cases hx.symm.trans hy
    exact hn hf
  unfold Loop.settle? at h
  rw [hx] at h
  dsimp only at h
  split at h
  · cases h
  · cases h
    exact ⟨y, (Array.getElem?_setIfInBounds_ne hne).trans hy, rfl, hn⟩

/-- **A request to format ends**, in whatever way. -/
theorem endFormatting_ends {x : Future Reply Callback} {target : Wire.Target}
    {rest : List (FutureId × Wire.Target)}
    (hw : l.recorder.waiting.lookup Relay.method = some ((f, target) :: rest))
    (hx : l.loop.futures[f]? = some x) (hf : x.Formats) (ending : Wire.Target → Ending Reply) :
    Ends (endOldest Relay.method ending) l fun _ l₁ =>
      Beside l l₁ ∧ l₁.recorder.notes = l.recorder.notes := by
  have htaken : Beside l { l with recorder := { l.recorder with
      waiting := (Relay.method, rest) :: l.recorder.waiting.filter (·.1 ≠ Relay.method) } } :=
    { Beside.refl l with
      waiting := fun m hm => (lookup_replaced _ _ _ _).trans (if_neg hm) }
  unfold endOldest takeWaiting onRecorder
  refine .bind (.read ?_)
  rw [hw]
  refine .change_bind (.pure (.bind (.read ?_)))
  dsimp only
  cases hlo : l.loop.settle? .call f (ending target) with
  | none => exact .pure (.pure ⟨htaken, rfl⟩)
  | some lo => exact .change_bind (.pure (.pure ⟨htaken.trans (.settled hx hf hlo), rfl⟩))

end Link

end EditorBridge
