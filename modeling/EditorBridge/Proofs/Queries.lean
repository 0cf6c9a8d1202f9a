/-
What becomes of a query.

A query announces its document, sends a request, and waits for the future of it.  However long
that takes and whatever else goes on in the meantime, two things decide what the query comes
to: how the future has ended, and whether the token of the query has been cancelled by then.

A request that is sent at once ends with its response or with the connection.  One that has to
wait for the server ends like the request that is sent for it later, or is dropped when the
server is gone (`Link.Fate`).  A query that was cancelled forgives failures of the connection,
and an error that the server answered with is one of them.  It does not forgive a response
that does not fit, nor the end of the server before the request was sent.
-/
import EditorBridge.Proofs.Handlers
import EditorBridge.Proofs.Rpc.Cancelling
import EditorBridge.Proofs.Server.Stopping

namespace EditorBridge

open Act (Ends Gives Leaves)

/-! ### What the future of a request comes to -/

namespace Link

variable {p : PeerId} {l l' : Link} {f g : FutureId} {e : Ending Reply} {target : Wire.Target}

/-- A way in which the future ends that a query waits for: from one link to another. -/
inductive Fate (p : PeerId) (target : Wire.Target) :
    FutureId → Link → Ending Reply → Link → Prop
  /-- A response comes in. -/
  | answered {message : Value} {r : PendingRequest} {l l' : Link} (hm : IsAnswer message)
    (hr : (l.pending p).find? (isFor message) = some r) (ht : r.target = target)
    (h : Leaves (receiveMessage p message) l l') :
    Fate p target r.future l (answerTo target message) l'
  /-- The connection is lost. -/
  | lost {reason : Option String} {r : PendingRequest} {l l' : Link} (hr : r ∈ l.pending p)
    (h : Leaves (connectionLost p reason) l l') :
    Fate p target r.future l (.failed (.connectionLost reason)) l'
  /-- The server is gone before the request was sent. -/
  | dropped {method : String} {params : Value} {token : Option TokenId} {g : FutureId}
    {l l' : Link} (hc : l.client.peer = none)
    (h : Leaves (sendQueued (.request method params target token g)) l l') :
    Fate p target g l (.failed (.client .notRunning)) l'
  /-- The request was sent later, and its future has ended. -/
  | passed {f g : FutureId} {e : Ending Reply} {l l' : Link} {b b' : Workbench}
    (hfate : Fate p target f l e l') (hlt : f < l.loop.futures.size)
    (hu : l.loop.ending? f = none) (hb : b.link.loop.ending? f = l'.loop.ending? f)
    (h : Leaves (Workbench.doJob (.call (.pass g) f)) b b') : Fate p target g b.link e b'.link

/-- A future that is to end with others does, unless it had ended before. -/
theorem Settling.ends {fs : List FutureId} (h : l.Settling fs e l') (hg : g ∈ fs)
    (hlt : g < l.loop.futures.size) (hu : l.loop.ending? g = none) :
    l'.loop.ending? g = some e := by
  obtain ⟨lo, hlo, rfl⟩ := h
  exact (hlo.here g hg hlt).trans (by rw [hu]; rfl)

/-- The request that had to wait for a server that is gone fails. -/
theorem sendQueued_fails {method : String} {params : Value} {token : Option TokenId}
    (hc : l.client.peer = none) (hu : l.loop.done g = false) :
    Ends (sendQueued (.request method params target token g)) l fun _ =>
      l.Settling [g] (.failed (.client .notRunning)) := by
  unfold sendQueued
  refine .read ?_
  rw [hu]
  refine .bind (.outcome (.bind ((clientPeer_none hc).mono fun x l₁ hx => ?_)))
  obtain ⟨rfl, rfl⟩ := hx
  exact settle_settles g _ l₁

/-- What a callback does that passes the end of a future on. -/
theorem pass_settles {b : Workbench} (he : b.link.loop.ending? f = some e) :
    Ends (Workbench.doJob (.call (.pass g) f)) b fun _ b' => b.link.Settling [g] e b'.link := by
  have hpass : Ends (Workbench.copyEnding f g) b.link fun _ => b.link.Settling [g] e := by
    refine .read ?_
    rw [he]
    refine .bind ((settleOpen_settles g e b.link).mono fun x l' h => ?_)
    obtain ⟨⟨_, rfl⟩, h⟩ := h
    exact .pure h
  show Ends (Workbench.onLink (Workbench.copyEnding f g)) b _
  exact .on hpass

/-- **A future that a query waits for** ends as told. -/
theorem Fate.ends (h : Fate p target g l e l') (hlt : g < l.loop.futures.size)
    (hu : l.loop.ending? g = none) : l'.loop.ending? g = some e := by
  induction h with
  | answered hm hr ht h =>
    have hends := h.elim (hm.receiveMessage_settles _)
    rw [hr] at hends
    subst ht
    exact hends.ends (by simp) hlt hu
  | lost hr h =>
    exact (h.elim (connectionLost_settles _ _)).ends (List.mem_map_of_mem hr) hlt hu
  | dropped hc h =>
    have hd : Loop.done _ _ = false := Option.isSome_eq_false_iff.2 (Option.isNone_iff_eq_none.2 hu)
    exact (h.elim (sendQueued_fails hc hd)).ends (by simp) hlt hu
  | passed _ hlt' hu' hb h ih =>
    have he := hb.trans (ih hlt' hu')
    exact (h.elim (pass_settles he)).ends (by simp) hlt hu

/-- An answer fits, or it does not fit, or it tells of an error. -/
theorem IsAnswer.answerTo_cases {message : Value} (h : IsAnswer message) (target : Wire.Target) :
    (∃ w, answerTo target message = .result (.wire w)) ∨
      (∃ x, answerTo target message = .failed (.wire x)) ∨
      ∃ code text data, answerTo target message = .failed (.remote code text data) := by
  unfold answerTo endingOf
  rcases h.error with hnull | ⟨entries, herr⟩
  · simp only [hnull, Value.isNull, if_true]
    cases Wire.read target ((message.get? "result").getD .null) with
    | ok w => exact .inl ⟨w, rfl⟩
    | error x => exact .inr (.inl ⟨x, rfl⟩)
  · simp only [herr, Option.getD_some, Value.isNull]
    exact .inr (.inr ⟨_, _, _, rfl⟩)

/-- Whether a cancelled query forgives what its request has come to. -/
def Forgiven (e : Ending Reply) : Prop := ∀ f, e.toExcept = .error f → f.isConnection = true

/-- **What a cancelled query does not forgive** is a response that does not fit, and the end of the
server before the request was sent. -/
theorem Fate.forgiven (h : Fate p target g l e l') :
    Forgiven e ∨ (∃ x, e = .failed (.wire x)) ∨ e = .failed (.client .notRunning) := by
  induction h with
  | @answered message r l l' hm =>
    rcases hm.answerTo_cases target with ⟨w, he⟩ | ⟨x, he⟩ | ⟨code, text, data, he⟩
    · exact .inl fun f hf => by rw [he] at hf; cases hf
    · exact .inr (.inl ⟨x, he⟩)
    · exact .inl fun f hf => by rw [he] at hf; cases hf; rfl
  | lost => exact .inl fun f hf => by cases hf; rfl
  | dropped => exact .inr (.inr rfl)
  | passed _ _ _ _ _ ih => exact ih

end Link

/-! ### What a query makes of it -/

namespace Query

variable {q : Query} {requested : Bool} {r : Except Failure Reply} {y : Except Failure Step}
  {t : TokenId} {l : Link} {w : Workbench} {rest : List Resumption} {s s' : Tracker × Link}
  {d : Document} {pos : Position} {schemes : List String} {token : Option TokenId}

/-- What a query comes to, given what its request has come to. -/
structure Concludes (q : Query) (requested : Bool) (r : Except Failure Reply)
    (y : Except Failure Step) : Prop where
  /-- A query that was cancelled yields nothing, if its request did not fail or failed with the
  connection. -/
  dropped : requested = true → (∀ f, r = .error f → f.isConnection = true) →
    y = .ok (.done .nothing)
  /-- It does not forgive other failures. -/
  raised : requested = true → ∀ f, r = .error f → f.isConnection = false → y = .error f
  /-- A query that was not cancelled yields the answer. -/
  converted : requested = false → ∀ x, r = .ok x → y = (q.convert x.asWire).map .done
  /-- Or it fails as its request did. -/
  failed : requested = false → ∀ f, r = .error f → y = .error f

/-- A query that comes to something is over. -/
theorem Concludes.over (h : Concludes q requested r y) :
    (∃ x, y = .ok (.done x)) ∨ ∃ f, y = .error f := by
  cases r with
  | ok x =>
    cases requested with
    | true => exact .inl ⟨_, h.dropped rfl nofun⟩
    | false =>
      rw [h.converted rfl x rfl]
      cases q.convert x.asWire with
      | ok x' => exact .inl ⟨x', rfl⟩
      | error f => exact .inr ⟨f, rfl⟩
  | error f =>
    cases requested with
    | true =>
      cases hf : f.isConnection with
      | true => exact .inl ⟨_, h.dropped rfl fun g hg => by cases hg; exact hf⟩
      | false => exact .inr ⟨f, h.raised rfl f rfl hf⟩
    | false => exact .inr ⟨f, h.failed rfl f rfl⟩

/-- The answer to a request as a query hears it. -/
def heard (requested : Bool) : Except Failure Reply → Except Failure Reply
  | .ok x => .ok (if requested then .nothing else x)
  | .error f => if f.isConnection && requested then .ok .nothing else .error f

theorem answered_ends (method : String) (t : TokenId) (r : Except Failure Reply) (l : Link) :
    Ends (answered method t r) l fun y l' =>
      l' = l ∧ y = (heard (l.requested t) r).map .done := by
  unfold answered heard Link.requested
  cases r with
  | ok x =>
    refine .read ?_
    cases (l.tokens.getD t default).requested with
    | true => exact .bind (.log (.pure ⟨rfl, rfl⟩))
    | false => exact .pure ⟨rfl, rfl⟩
  | error f =>
    dsimp only
    refine .read ?_
    cases f.isConnection <;> cases (l.tokens.getD t default).requested
    · exact .throw ⟨rfl, rfl⟩
    · exact .throw ⟨rfl, rfl⟩
    · exact .throw ⟨rfl, rfl⟩
    · exact .bind (.log (.pure ⟨rfl, rfl⟩))

theorem converted_ends {σ : Type} (q : Query) (r : Except Failure Reply) (s : σ) :
    Ends (converted q r) s fun y s' => s' = s ∧ y = (r.bind (q.convert ·.asWire)).map .done := by
  unfold converted
  refine .bind (.ofExcept ?_)
  cases r with
  | error f => exact ⟨rfl, rfl⟩
  | ok x =>
    refine .bind (.ofExcept ?_)
    cases hx : q.convert x.asWire with
    | error f => exact ⟨rfl, by simp [Except.bind, Except.map, hx]⟩
    | ok x' => exact .pure ⟨rfl, by simp [Except.bind, Except.map, hx]⟩

/-- Null is no answer. -/
theorem convert_nothing (q : Query) : q.convert .nothing = .ok .nothing := rfl

theorem concludes_heard (q : Query) (requested : Bool) (r : Except Failure Reply) :
    Concludes q requested r (((heard requested r).bind (q.convert ·.asWire)).map .done) := by
  refine ⟨fun hreq hf => ?_, fun hreq f hr hf => ?_, fun hreq x hr => ?_, fun hreq f hr => ?_⟩
  · cases r with
    | ok x => simp [heard, hreq, Except.bind, Except.map, Reply.asWire, convert_nothing]
    | error f =>
      have hf := hf f rfl
      simp [heard, hreq, hf, Except.bind, Except.map, Reply.asWire, convert_nothing]
  · subst hr
    simp [heard, hf, Except.bind, Except.map]
  · subst hr
    simp [heard, hreq, Except.bind]
  · subst hr
    simp [heard, hreq, Except.bind, Except.map]

/-! ### Going on with the answer -/

/-- What a query has left to do while it waits. -/
inductive Left (q : Query) (t : TokenId) : List Resumption → Prop
  | bare : Left q t [.answered q.method t, .converted q]
  | recorded : Left q t [.answered q.method t, .converted q, .traced logger q.callName]

/-- What is left is done one thing after the other. -/
theorem resumeAll_cons {k : Resumption} {x : Except Failure Reply}
    {Q : Except Failure Step → Workbench → Prop}
    (hk : Ends (Workbench.resume k r) w fun y w' => w' = w ∧ y = x.map .done)
    (h : Ends (Workbench.resumeAll rest x) w Q) : Ends (Workbench.resumeAll (k :: rest) r) w Q := by
  unfold Workbench.resumeAll
  refine .bind (.outcome (hk.mono fun y w' hy => ?_))
  obtain ⟨rfl, rfl⟩ := hy
  cases x with
  | ok x => exact h
  | error f => exact h

/-- What a query comes to that goes on depends on the end of its request and on its token, and
nothing else happens. -/
theorem Left.resumeAll_heard (h : Left q t rest) (r : Except Failure Reply) (w : Workbench) :
    Ends (Workbench.resumeAll rest r) w fun y w' => w' = w ∧
      y = ((heard (w.link.requested t) r).bind (q.convert ·.asWire)).map .done := by
  have hanswered : Ends (Workbench.resume (.answered q.method t) r) w fun y w' =>
      w' = w ∧ y = (heard (w.link.requested t) r).map .done := by
    show Ends (Workbench.onLink (answered q.method t r)) w _
    refine .on ((answered_ends q.method t r w.link).mono fun y l' hy => ?_)
    obtain ⟨rfl, rfl⟩ := hy
    exact ⟨rfl, rfl⟩
  have hconverted : Ends (Workbench.resume (.converted q) (heard (w.link.requested t) r)) w
      fun y w' => w' = w ∧
        y = ((heard (w.link.requested t) r).bind (q.convert ·.asWire)).map .done :=
    converted_ends q _ w
  have hdone (x : Except Failure Reply) :
      Ends (Workbench.resumeAll [] x) w fun y w' => w' = w ∧ y = x.map .done := by
    refine .bind (.ofExcept ?_)
    cases x with
    | ok x => exact .pure ⟨rfl, rfl⟩
    | error f => exact ⟨rfl, rfl⟩
  cases h with
  | bare => exact resumeAll_cons hanswered (resumeAll_cons hconverted (hdone _))
  | recorded =>
    have htraced (x : Except Failure Reply) :
        Ends (Workbench.resume (.traced logger q.callName) x) w
          fun y w' => w' = w ∧ y = x.map .done :=
      .afterCall ⟨rfl, rfl⟩
    exact resumeAll_cons hanswered
      (resumeAll_cons hconverted (resumeAll_cons (htraced _) (hdone _)))

/-- **A query goes on** once its request has come to something. -/
theorem Left.resumeAll (h : Left q t rest) (r : Except Failure Reply) (w : Workbench) :
    Ends (Workbench.resumeAll rest r) w fun y w' =>
      w' = w ∧ Concludes q (w.link.requested t) r y := by
  refine (h.resumeAll_heard r w).mono fun y w' hy => ?_
  obtain ⟨rfl, rfl⟩ := hy
  exact ⟨rfl, concludes_heard q _ r⟩

/-! ### Beginning -/

/-- What a request comes to at once. -/
inductive Came (q : Query) (v : Value) (t : TokenId) (l : Link) : Except Failure Reply → Link → Prop
  | refused {f : Failure} {l' : Link}
    (h : Gives (Link.sendQuery q.method v q.target (some t)) l (.error f) l') :
    Came q v t l (.error f) l'
  | ended {f : FutureId} {e : Ending Reply} {l' : Link}
    (h : Gives (Link.sendQuery q.method v q.target (some t)) l (.ok f) l')
    (he : l'.loop.ending? f = some e) : Came q v t l e.toExcept l'

/-- How a query begins. -/
inductive Begun (q : Query) (d : Document) (pos : Position) (t : TokenId) :
    Except Failure Step → Tracker × Link → Prop
  /-- The document cannot be announced. -/
  | unannounced {s s' : Tracker × Link} {f : Failure}
    (h : Gives (Tracker.ensureOpen d) s (.error f) s') : Begun q d pos t (.error f) s'
  /-- There is no such place in a document. -/
  | misplaced {s' : Tracker × Link} {f : Failure} (h : params d pos = .error f) :
    Begun q d pos t (.error f) s'
  /-- The request does not have to be waited for. -/
  | concluded {v : Value} {r : Except Failure Reply} {y : Except Failure Step} {t' : Tracker}
    {l l' : Link} (hv : params d pos = .ok v) (h : Came q v t l r l')
    (hy : Concludes q (l'.requested t) r y) : Begun q d pos t y (t', l')
  /-- The query waits for its request. -/
  | waits {v : Value} {f : FutureId} {rest : List Resumption} {t' : Tracker} {l l' : Link}
    (hv : params d pos = .ok v)
    (h : Gives (Link.sendQuery q.method v q.target (some t)) l (.ok f) l')
    (he : l'.loop.ending? f = none) (hrest : Left q t rest) :
    Begun q d pos t (.ok (.wait f rest)) (t', l')

/-- How a request is sent. -/
inductive Asks (q : Query) (v : Value) (t : TokenId) (s : Tracker × Link) :
    Except Failure Step → Tracker × Link → Prop
  | came {r : Except Failure Reply} {l' : Link} (h : Came q v t s.2 r l') :
    Asks q v t s ((heard (l'.requested t) r).map .done) (s.1, l')
  | waits {f : FutureId} {l' : Link}
    (h : Gives (Link.sendQuery q.method v q.target (some t)) s.2 (.ok f) l')
    (he : l'.loop.ending? f = none) :
    Asks q v t s (.ok (.wait f [.answered q.method t])) (s.1, l')

theorem request_asks {v : Value} (hv : params d pos = .ok v) (t : TokenId) (s : Tracker × Link) :
    Ends (q.request v t) s (Asks q v t s) := by
  have hwritable : Json.Writable v := by
    obtain ⟨hin, rfl⟩ := params_ok hv
    exact d.writable_named (by simp [Position.writable_wireValue hin])
  have hanswered {r : Except Failure Reply} {l' : Link} (hr : Came q v t s.2 r l') :
      Ends (answered q.method t r) l' fun y l₁ => Asks q v t s y (s.1, l₁) := by
    refine (answered_ends q.method t r l').mono fun y l₁ hy => ?_
    obtain ⟨rfl, rfl⟩ := hy
    exact .came hr
  unfold request
  refine .bind ((Tracker.logParams_ends hwritable s).mono fun x s₁ hx => ?_)
  obtain ⟨rfl, rfl⟩ := hx
  refine .bind (.outcome (ends_onLink ((Ends.gives _ _).mono fun x l' hsent => ?_)))
  cases x with
  | error f => exact ends_onLink (hanswered (.refused hsent))
  | ok f =>
    refine ends_onLink (.read ?_)
    cases he : l'.loop.ending? f with
    | none => exact .pure (.waits hsent he)
    | some e => exact hanswered (.ended hsent he)

/-- What a query that has to wait has left to do is what it does with the answer. -/
def Bare (q : Query) (t : TokenId) (y : Except Failure Step) : Prop :=
  ∀ f rest, y = .ok (.wait f rest) → rest = [.answered q.method t, .converted q]

/-- Sending the request is the last thing that a query does at first. -/
theorem calling_begins {v : Value} (hv : params d pos = .ok v) (t : TokenId) (s : Tracker × Link) :
    Ends (Step.calling (q.request v t) (.converted q) (converted q)) s
      fun y s' => Begun q d pos t y s' ∧ Bare q t y := by
  refine .called ((request_asks hv t s).mono fun y s' hy => ?_)
  cases hy with
  | waits h he =>
    refine ⟨.waits hv h he .bare, fun f rest heq => ?_⟩
    cases heq
    rfl
  | @came r l' h =>
    have hconcludes := concludes_heard q (l'.requested t) r
    generalize heard (l'.requested t) r = x at hconcludes
    have hconverted (x : Except Failure Reply)
        (hx : Concludes q (l'.requested t) r ((x.bind (q.convert ·.asWire)).map .done)) :
        Ends (converted q x) (s.1, l') fun y s' => Begun q d pos t y s' ∧ Bare q t y := by
      refine (converted_ends q x _).mono fun y s₁ hy => ?_
      obtain ⟨rfl, rfl⟩ := hy
      refine ⟨.concluded hv h hx, fun f rest heq => ?_⟩
      rw [heq] at hx
      rcases hx.over with ⟨_, hover⟩ | ⟨_, hover⟩ <;> cases hover
    cases x with
    | ok x => exact hconverted _ hconcludes
    | error f => exact hconverted _ hconcludes

theorem ask_begins (h : d.takesPart schemes = true) (s : Tracker × Link) :
    Ends (ask schemes q d pos token) s fun y s' =>
      ∃ t, (∀ u, token = some u → t = u) ∧ Begun q d pos t y s' ∧ Bare q t y := by
  have hrest (t : TokenId) (s : Tracker × Link) : Ends (do
      let _ ← Tracker.ensureOpen d
      let params ← Act.ofExcept (params d pos)
      Step.calling (q.request params t) (.converted q) (converted q)) s
        fun y s' => Begun q d pos t y s' ∧ Bare q t y := by
    refine .bind ((Ends.gives _ s).mono fun x s₁ hx => ?_)
    cases x with
    | error f => exact ⟨.unannounced hx, nofun⟩
    | ok b =>
      refine .bind (.ofExcept ?_)
      cases hv : params d pos with
      | error f => exact ⟨.misplaced hv, nofun⟩
      | ok v => exact calling_begins hv t s₁
  unfold ask
  rw [if_neg (by simp [h])]
  refine .bind (.log ?_)
  cases token with
  | some t => exact .bind (.pure ((hrest t s).mono fun y s' hy => ⟨t, by simp, hy⟩))
  | none =>
    refine .bind (ends_onLink (.read (.change_bind (.pure ?_))))
    exact (hrest _ _).mono fun y s' hy => ⟨_, nofun, hy⟩

/-- **A query begins** by announcing its document and sending its request. -/
theorem tracedAsk_begins (h : d.takesPart schemes = true) (s : Tracker × Link) :
    Ends (tracedAsk schemes q d pos token) s fun y s' =>
      ∃ t, (∀ u, token = some u → t = u) ∧ Begun q d pos t y s' := by
  refine .read (.recorded (ask_begins h s) ?_ ?_ ?_)
  · rintro y s' ⟨t, ht, hb, -⟩
    exact ⟨t, ht, hb⟩
  · rintro f more s' ⟨t, ht, hb, hbare⟩
    obtain rfl := hbare f more rfl
    refine ⟨t, ht, ?_⟩
    cases hb with
    | concluded hv h hy => rcases hy.over with ⟨_, hover⟩ | ⟨_, hover⟩ <;> cases hover
    | waits hv h he hrest => exact .waits hv h he .recorded
  · rintro more s' ⟨t, ht, hb, -⟩
    cases hb with
    | concluded hv h hy => rcases hy.over with ⟨_, hover⟩ | ⟨_, hover⟩ <;> cases hover

/-- **What becomes of a query.**  It waits for its request, unless the request has come to
something at once.  Once the request has ended, in whatever way and however late, the query
yields the converted answer or fails as the request did if it was not cancelled by then.  If it
was, it yields nothing, but for two ways in which a request can end: with a response that does
not fit, and with the end of the server before the request was sent. -/
theorem tracedAsk_concludes (h : d.takesPart schemes = true) (s : Tracker × Link) :
    Ends (tracedAsk schemes q d pos token) s fun y s' =>
      ∃ t, (∀ u, token = some u → t = u) ∧ Begun q d pos t y s' ∧
        ∀ f rest, y = .ok (.wait f rest) → ∀ p e l l', Link.Fate p q.target f l e l' →
          f < l.loop.futures.size → l.loop.ending? f = none →
          (Link.Forgiven e ∨ (∃ x, e = .failed (.wire x)) ∨ e = .failed (.client .notRunning)) ∧
          ∀ w : Workbench, w.link.loop.ending? f = l'.loop.ending? f →
            Ends (Workbench.resumeAll rest ((w.link.loop.ending? f).getD .cancelled).toExcept) w
              fun y' w' => w' = w ∧ Concludes q (w.link.requested t) e.toExcept y' := by
  refine (tracedAsk_begins h s).mono fun y s' ⟨t, ht, hb⟩ => ⟨t, ht, hb, ?_⟩
  intro f rest heq p e l l' hfate hlt hu
  subst heq
  refine ⟨hfate.forgiven, fun w hw => ?_⟩
  have hleft : Left q t rest := by
    cases hb with
    | concluded hv hc hy => rcases hy.over with ⟨_, hover⟩ | ⟨_, hover⟩ <;> cases hover
    | waits hv hsent he hrest => exact hrest
  rw [hw, hfate.ends hlt hu]
  exact hleft.resumeAll e.toExcept w

/-- A file to ask about. -/
def askedFile : Document := .opened { scheme := "file", path := "/x" } ['b'] "plaintext" 1

/-- A client whose server is ready, and a token. -/
def serving : Link := { Link.cancellable with client := { peer := some 0, initialized := true } }

/-- The link once the server has been asked for a hover. -/
def asked : Link :=
  (tracedAsk ["file"] .hover askedFile ⟨0, 0⟩ (some 0) ⟨default, ({}, serving)⟩).2.state.2

/-- The link once the editor has cancelled that. -/
def cancelled : Link := (Link.cancelToken 0 ⟨default, asked⟩).2.state

/-- A response that is no hover. -/
def misfit : Value := Link.response (.int 1) (.int 5)

/-- The link once such a response has come in. -/
def misled : Link := (Link.receiveMessage 0 misfit ⟨default, cancelled⟩).2.state

theorem isAnswer_misfit : Link.IsAnswer misfit where
  table := ⟨_, rfl⟩
  version := by simp [misfit, Link.response, Link.version, Value.same]
  call := by simp [misfit, Link.response]
  error := .inl (by simp [misfit, Link.response])

theorem answerTo_misfit :
    Link.answerTo (target .hover) misfit = .failed (.wire (.noMembers "int")) := by
  have hread : Wire.read (target .hover) (.int 5) = .error (.noMembers "int") := by
    simp only [target, Wire.read, Wire.build]
    rfl
  have hnull : (misfit.get? "error").getD .null = .null := by simp [misfit, Link.response]
  have hresult : (misfit.get? "result").getD .null = .int 5 := by simp [misfit, Link.response]
  simp only [Link.answerTo, Link.endingOf, hnull, hresult, hread, Value.isNull, if_true]
  rfl

theorem find?_isFor_misfit : (cancelled.pending 0).find? (Link.isFor misfit) =
    some ⟨1, "textDocument/hover", 0, .struct "Hover"⟩ := by
  have hpending : cancelled.pending 0 = [⟨1, "textDocument/hover", 0, .struct "Hover"⟩] := rfl
  rw [hpending]
  simp [Link.isFor, misfit, Link.response, Link.requestNumber?]

/-- It ends the future that the query waits for. -/
theorem fate_misfit : Link.Fate 0 (target .hover) 0 cancelled
    (.failed (.wire (.noMembers "int"))) misled :=
  answerTo_misfit ▸ .answered isAnswer_misfit find?_isFor_misfit rfl ⟨default, rfl⟩

/-- A hover of a file is begun, cancelled, and answered with something else. -/
theorem tracedAsk_misfit : askedFile.takesPart ["file"] = true ∧ ∃ rest tracker,
    Gives (tracedAsk ["file"] .hover askedFile ⟨0, 0⟩ (some 0)) ({}, serving) (.ok (.wait 0 rest))
      (tracker, asked) ∧
    ∀ w : Workbench, w.link.loop.ending? 0 = misled.loop.ending? 0 →
      Ends (Workbench.resumeAll rest ((w.link.loop.ending? 0).getD .cancelled).toExcept) w
        fun y w' => w' = w ∧
          Concludes .hover (w.link.requested 0) (.error (.wire (.noMembers "int"))) y := by
  have htakes : askedFile.takesPart ["file"] = true := rfl
  have hgives : ∃ rest tracker, Gives (tracedAsk ["file"] .hover askedFile ⟨0, 0⟩ (some 0))
      ({}, serving) (.ok (.wait 0 rest)) (tracker, asked) := ⟨_, _, default, rfl, rfl⟩
  obtain ⟨rest, tracker, hgives⟩ := hgives
  obtain ⟨t, ht, -, hwaits⟩ := hgives.elim (tracedAsk_concludes htakes _)
  obtain rfl := ht 0 rfl
  exact ⟨htakes, rest, tracker, hgives,
    (hwaits 0 rest rfl 0 _ _ _ fate_misfit (by decide) rfl).2⟩

/-- **Not every cancelled query yields nothing**: the token is cancelled while the server thinks
about a hover, and the failure to read what it answers is raised all the same. -/
theorem resumeAll_misfit : ∃ rest tracker,
    Gives (tracedAsk ["file"] .hover askedFile ⟨0, 0⟩ (some 0)) ({}, serving) (.ok (.wait 0 rest))
      (tracker, asked) ∧
    Leaves (Link.cancelToken 0) asked cancelled ∧
    Leaves (Link.receiveMessage 0 misfit) cancelled misled ∧
    misled.requested 0 = true ∧
    ∀ w : Workbench, w.link = misled →
      Ends (Workbench.resumeAll rest ((misled.loop.ending? 0).getD .cancelled).toExcept) w
        fun y _ => y = .error (.wire (.noMembers "int")) := by
  have hanswered : Leaves (Link.receiveMessage 0 misfit) cancelled misled := ⟨default, rfl⟩
  have hrequested : misled.requested 0 = true := by
    have hends := hanswered.elim (isAnswer_misfit.receiveMessage_settles _)
    rw [find?_isFor_misfit] at hends
    obtain ⟨lo, -, hlink⟩ := hends
    rw [hlink]
    rfl
  have hended : misled.loop.ending? 0 = some (.failed (.wire (.noMembers "int"))) :=
    fate_misfit.ends (by decide) rfl
  refine ⟨[.answered (method .hover) 0, .converted .hover], _, ⟨default, rfl, rfl⟩, ⟨default, rfl⟩,
    hanswered, hrequested, fun w hw => ?_⟩
  rw [hended]
  refine (Left.bare.resumeAll _ w).mono fun y w' hy => ?_
  rw [hw] at hy
  exact hy.2.raised hrequested _ rfl rfl

end Query

end EditorBridge
