/-
The course of an event.

Whatever is done to an event with scripted listeners, by its user or by a listener that is being
called, is told as a history: who was added, removed or taken away with all the others, and who
died because nobody held it any more.  Everything an action answers is then said about that
history and not about the list that the event keeps.  Above all this is so of a call: the
listeners who have a turn are those who were there when it began, in the order of their places
(`IsRoster`), and what happens in their turns is what `Dispatched` says.

The actions of a listener are played inside its turn, and they may call the event again.  So the
rules stand on each other: what a call does is told by what actions do, and the other way round,
and the number of calls that may be nested ends this (`Performs`).  The theorem at the end follows
them rule by rule.  What carries it is that the list agrees with the history at every moment
(`Moment.Sound`).
-/
import EditorBridge.Event.Scripted
import EditorBridge.Proofs.Event.Roster
import EditorBridge.Proofs.Event.Turns

namespace EditorBridge.Event

open Act (Ends Reads)
open Moments (Comes Course Plays)

/-! ### Moments -/

/-- A session together with what has befallen the listeners of its event so far. -/
structure Moment where
  past : List (Change Listener) := []
  session : Session := {}

/-- Iterating over the event gives those who are there, in their order, and all of them live. -/
structure Moment.Sound (m : Moment) : Prop where
  roster : IsRoster m.past m.session.event.listeners
  held : ∀ k ∈ m.session.event.listeners, m.session.holds k = true

instance : Moments Moment Session where
  state := Moment.session
  Sound := Moment.Sound

theorem Moment.state_eq (m : Moment) : Moments.state m = m.session := rfl

/-- What a session is apart from the listeners of its event. -/
def Session.apart (s : Session) : Session := { s with event := {} }

/-- Something befalls the listeners, and apart from them the session becomes another one. -/
structure Moment.Goes (cs : List (Change Listener)) (s : Session) (m m' : Moment) : Prop where
  past : m'.past = m.past ++ cs
  apart : m'.session.apart = s.apart
  sound : m'.Sound

/-- The session becomes another one, and the listeners whom nobody holds any more die. -/
inductive Moment.LetsGo (s : Session) (m m' : Moment) : Prop
  | intro {ks : List Listener} (hks : ∀ k, k ∈ ks ↔ Registered m.past k ∧ s.holds k = false)
    (h : m.Goes (ks.map .died) s m')

/-! ### What befalls the listeners -/

/-- The listener that a name stands for. -/
def Session.named (s : Session) (name : String) : Except Failure Listener :=
  match s.names.lookup ((name.splitOn ".").headD name) with
  | some i => .ok ⟨i, name⟩
  | none => .error (.unknownName ((name.splitOn ".").headD name))

/-- What an action does, given what a call does. -/
inductive Does (calls : Value → Value → Moment → Except Failure Answer → Moment → Prop) :
    Action → Moment → Except Failure Answer → Moment → Prop
  | define {name : String} {answer : Value} {failure : Option Failure} {script : List Action}
    {m m' : Moment}
    (h : m.LetsGo (m.session.introduce name [(name, ⟨answer, failure, script⟩)]) m') :
    Does calls (.define name answer failure script) m (.ok .nothing) m'
  | defineObject {name : String} {parts : List (String × Value × Option Failure × List Action)}
    {m m' : Moment}
    (h : m.LetsGo (m.session.introduce name
      (parts.map fun p => (name ++ "." ++ p.1, ⟨p.2.1, p.2.2.1, p.2.2.2⟩))) m') :
    Does calls (.defineObject name parts) m (.ok .nothing) m'
  | add {name : String} {k : Listener} {m m' : Moment} (hk : m.session.named name = .ok k)
    (h : m.Goes [.added k] m.session m') : Does calls (.add name) m (.ok .nothing) m'
  | remove {name : String} {k : Listener} {m m' : Moment} (hk : m.session.named name = .ok k)
    (h : m.Goes [.removed k] m.session m') : Does calls (.remove name) m (.ok .nothing) m'
  | contains {name : String} {k : Listener} {m : Moment} {b : Bool}
    (hk : m.session.named name = .ok k) (hb : b = true ↔ Registered m.past k) :
    Does calls (.contains name) m (.ok (.flag b)) m
  | drop {name : String} {m m' : Moment} (hname : (m.session.names.lookup name).isSome)
    (h : m.LetsGo (m.session.drop name) m') : Does calls (.drop name) m (.ok .nothing) m'
  | clear {m m' : Moment} (h : m.Goes [.cleared] m.session m') :
    Does calls .clear m (.ok .nothing) m'
  | call {arguments named : Value} {m m' : Moment} {r : Except Failure Answer}
    (h : calls arguments named m r m') : Does calls (.call arguments named) m r m'
  /-- A name that stands for nothing. -/
  | unknown {a : Action} {name : String} {f : Failure} {m : Moment}
    (ha : a ∈ [.add name, .remove name, .contains name]) (hf : m.session.named name = .error f) :
    Does calls a m (.error f) m
  | unknownDrop {name : String} {m : Moment} (hname : m.session.names.lookup name = none) :
    Does calls (.drop name) m (.error (.unknownName name)) m

/-! ### What happens in a turn -/

section Turns

variable (does : Action → Moment → Except Failure Answer → Moment → Prop)

/-- What a listener answers, or how it fails, after its script was played. -/
def Behaviour.outcome (b : Behaviour) (played : Except Failure Unit) : Except Failure Value :=
  match played, b.failure with
  | .error f, _ => .error f
  | .ok (), some f => .error f
  | .ok (), none => .ok b.answer

/-- A listener is called: the one that was called before it is let go, it does what its script
says, and then it answers, or fails and is held by its failure. -/
inductive Responds (arguments named : Value) (k : Listener) (m : Moment) :
    Except Failure Value → Moment → Prop
  | answered {m₁ m' : Moment} {r : Except Failure Unit} {x : Value}
    (h : m.LetsGo (m.session.enter arguments named k) m₁)
    (hs : Plays does (m₁.session.behaviour k).script m₁ r m')
    (hx : (m₁.session.behaviour k).outcome r = .ok x) :
    Responds arguments named k m (.ok x) m'
  | failed {m₁ m₂ m' : Moment} {r : Except Failure Unit} {f : Failure}
    (h : m.LetsGo (m.session.enter arguments named k) m₁)
    (hs : Plays does (m₁.session.behaviour k).script m₁ r m₂)
    (hf : (m₁.session.behaviour k).outcome r = .error f)
    (hheld : m₂.Goes [] (m₂.session.fail k) m') :
    Responds arguments named k m (.error f) m'

/-- The event is called: those who were there when the call began have their turns. -/
inductive Calls (arguments named : Value) (m : Moment) : Except Failure Answer → Moment → Prop
  | intro {ks : List Listener} {ts : List (Turn Moment Listener Value)} {m₁ m₂ m' : Moment}
    {r : Except Failure (List (Except Failure Value))}
    (hks : IsRoster m.past ks) (honce : ks.Nodup) (hbegin : m.Goes [] m.session.begin m₁)
    (hts : Dispatched (fun m => m.session.holds) (Responds does arguments named) ks m₁ ts r m₂)
    (hover : m₂.LetsGo m₂.session.finish m') :
    Calls arguments named m (r.map .results) m'

end Turns

/-- What an action does, if no more calls than that can be nested. -/
def Performs : Nat → Action → Moment → Except Failure Answer → Moment → Prop
  | 0 => Does fun _ _ m r m' =>
      r = .error (.raised "RecursionError" "maximum recursion depth exceeded") ∧ m' = m
  | depth + 1 => Does (Calls (Performs depth))

variable {α β : Type} {m m' : Moment} {s : Session} {k : Listener} {depth : Nat}
  {calls : Value → Value → Moment → Except Failure Answer → Moment → Prop}
  {does : Action → Moment → Except Failure Answer → Moment → Prop}
  {act : Action → Act Session Answer}

/-! ### The list agrees with the history -/

theorem Moment.sound_initial : Moment.Sound {} := ⟨isRoster_nil, List.forall_mem_nil _⟩

/-- Nothing befalls the listeners, and whoever was held still is. -/
theorem Moment.Sound.goes (h : m.Sound) (hevent : s.event = m.session.event)
    (hheld : ∀ k, m.session.holds k = true → s.holds k = true) :
    m.Goes [] s ⟨m.past ++ [], s⟩ :=
  ⟨rfl, rfl, by simpa [hevent] using h.roster, fun k hk => hheld k (h.held k (hevent ▸ hk))⟩

/-- Those who are not held any more leave the list. -/
theorem Moment.Sound.letsGo (h : m.Sound) (hevent : s.event = m.session.event.retain s.holds) :
    m.LetsGo s ⟨m.past ++ (m.session.event.listeners.filter (!s.holds ·)).map .died, s⟩ := by
  refine .intro (fun k => ?_) ⟨rfl, rfl, ?_, fun k hk => ?_⟩
  · rw [List.mem_filter, h.roster.mem, Bool.not_eq_true']
  · simpa only [hevent] using h.roster.retained s.holds
  · replace hk : k ∈ s.event.listeners := hk
    rw [hevent] at hk
    exact (List.mem_filter.1 hk).2

/-- The list becomes another one, and those who are on it are there and live. -/
theorem Moment.goes_event {e : Event Listener} {cs : List (Change Listener)}
    (hroster : IsRoster (m.past ++ cs) e.listeners)
    (hheld : ∀ k ∈ e.listeners, m.session.holds k = true) :
    m.Goes cs m.session ⟨m.past ++ cs, { m.session with event := e }⟩ :=
  ⟨rfl, rfl, hroster, hheld⟩

theorem Moment.LetsGo.sound (h : m.LetsGo s m') : m'.Sound := by
  obtain ⟨-, h⟩ := h
  exact h.sound

/-- Whoever is held is held when one more dispatch goes on. -/
theorem Session.holds_begin (h : s.holds k = true) : s.begin.holds k = true := by
  rcases Bool.or_eq_true_iff.1 h with h | h <;> simp [Session.holds, Session.begin, h]

/-- Whoever is held is held when somebody has failed. -/
theorem Session.holds_fail {k' : Listener} (h : s.holds k = true) : (s.fail k').holds k = true := by
  rcases Bool.or_eq_true_iff.1 h with h | h
  · simp [Session.holds, Session.fail, h]
  · cases hgoing : s.going with
    | nil => simp [hgoing] at h
    | cons d ds =>
      rw [hgoing, List.any_cons, Bool.or_eq_true_iff] at h
      rcases h with hd | hds
      · rcases Bool.or_eq_true_iff.1 hd with hlast | hfailed
        · simp [Session.holds, Session.fail, hgoing, Hold.has, hlast]
        · rw [List.contains_iff_mem] at hfailed
          simp [Session.holds, Session.fail, hgoing, Hold.has, hfailed]
      · simp [Session.holds, Session.fail, hgoing, hds]

instance reads_holds (k : Listener) :
    Reads (do return (← Act.state).holds k : Act Session Bool) fun s => s.holds k :=
  ⟨fun _ => rfl⟩

/-- What a name stands for is held by the name. -/
theorem Session.holds_of_named {name : String} (h : s.named name = .ok k) : s.holds k = true := by
  unfold Session.named at h
  split at h
  · rename_i i hi
    cases h
    obtain ⟨before, after, hnames, -⟩ := List.lookup_eq_some_iff.1 hi
    simp [Session.holds, hnames]
  · cases h

/-! ### What the acts do -/

variable {f : Session → Session} {g : Unit → Act Session β} {Q : Except Failure β → Moment → Prop}

/-- The session changes, and whoever is not held any more dies. -/
theorem comes_letsGo (hm : m.Sound)
    (hf : (f m.session).event = m.session.event.retain (f m.session).holds)
    (hg : ∀ m₁, m.LetsGo (f m.session) m₁ → Comes (g ()) m₁ Q) : Comes (Act.change f >>= g) m Q :=
  .change_bind _ rfl (hg _ (hm.letsGo hf))

/-- A name is looked up. -/
theorem comes_find {name : String} {g : Listener → Act Session β} (hm : m.Sound)
    (hok : ∀ k, m.session.named name = .ok k → Comes (g k) m Q)
    (herror : ∀ f, m.session.named name = .error f → Q (.error f) m) :
    Comes (Session.find name >>= g) m Q := by
  have hfind : Comes (Session.find name) m fun r m' => r = m.session.named name ∧ m' = m := by
    unfold Session.find
    refine .read ?_
    rw [Moment.state_eq]
    cases hi : m.session.names.lookup ((name.splitOn ".").headD name) with
    | some i => exact .pure hm ⟨by simp only [Session.named, hi], rfl⟩
    | none => exact .throw hm ⟨by simp only [Session.named, hi], rfl⟩
  refine .bind hfind ?_ ?_
  · rintro k _ - ⟨hk, rfl⟩
    exact hok k hk.symm
  · rintro f _ ⟨hf, rfl⟩
    exact herror f hf.symm

/-- **What an action does**, whatever calls do. -/
theorem performWith_does {call : Value → Value → Act Session Answer}
    (hcall : ∀ arguments named m, m.Sound →
      Comes (call arguments named) m (calls arguments named m)) (hm : m.Sound) (a : Action) :
    Comes (performWith call a) m (Does calls a m) := by
  cases a with
  | define name answer failure script =>
    exact comes_letsGo hm rfl fun m₁ h => .pure h.sound (.define h)
  | defineObject name parts =>
    exact comes_letsGo hm rfl fun m₁ h => .pure h.sound (.defineObject h)
  | add name =>
    refine comes_find hm (fun k hk => ?_) fun f hf => .unknown (by simp) hf
    have hheld : ∀ k' ∈ (m.session.event.add k).listeners, m.session.holds k' = true := by
      intro k' hk'
      rcases mem_add.1 hk' with hk' | rfl
      · exact hm.held k' hk'
      · exact Session.holds_of_named hk
    have hgoes := Moment.goes_event (hm.roster.added k) hheld
    exact .change_bind _ rfl (.pure hgoes.sound (.add hk hgoes))
  | remove name =>
    refine comes_find hm (fun k hk => ?_) fun f hf => .unknown (by simp) hf
    have hheld : ∀ k' ∈ (m.session.event.remove k).listeners, m.session.holds k' = true :=
      fun k' hk' => hm.held k' (List.mem_of_mem_filter hk')
    have hgoes := Moment.goes_event (hm.roster.removed k) hheld
    exact .change_bind _ rfl (.pure hgoes.sound (.remove hk hgoes))
  | contains name =>
    refine comes_find hm (fun k hk => ?_) fun f hf => .unknown (by simp) hf
    refine Ends.read (Comes.pure hm (.contains hk ?_))
    rw [← hm.roster.mem]
    exact decide_eq_true_iff
  | drop name =>
    refine Ends.read ?_
    split
    · rename_i hname
      exact .bind (.throw ⟨m, rfl, hm, .unknownDrop (Option.isNone_iff_eq_none.1 hname)⟩)
    · rename_i hname
      have hsome : (m.session.names.lookup name).isSome := by simpa [Moment.state_eq] using hname
      exact comes_letsGo hm rfl fun m₁ h => .pure h.sound (.drop hsome h)
  | clear =>
    have hgoes := Moment.goes_event hm.roster.cleared (List.forall_mem_nil _)
    exact .change_bind _ rfl (.pure hgoes.sound (.clear hgoes))
  | call arguments named => exact (hcall arguments named m hm).mono fun r m' h => .call h

/-- **A listener is called.** -/
theorem respond_responds (hact : ∀ a m, m.Sound → Comes (act a) m (does a m)) (hm : m.Sound)
    (arguments named : Value) (k : Listener) :
    Comes (respond act arguments named k) m (Responds does arguments named k m) := by
  unfold respond
  refine comes_letsGo hm rfl fun m₁ hm₁ => .read ?_
  refine .outcome_bind (P := fun x m₂ => ∃ r, Plays does (m₁.session.behaviour k).script m₁ r m₂ ∧
    (m₁.session.behaviour k).outcome r = x) ?_ fun x m₂ hm₂ hx => ?_
  · refine .bind (.plays (fun a _ => hact a) hm₁.sound) (fun _ m₂ hm₂ hr => ?_) fun f m₂ hf => ?_
    · cases hfailure : (m₁.session.behaviour k).failure with
      | none => exact .pure hm₂ ⟨_, hr, by simp [Behaviour.outcome, hfailure, Moment.state_eq]⟩
      | some f =>
        have hfails : (m₁.session.behaviour k).outcome (.ok ()) = .error f := by
          simp [Behaviour.outcome, hfailure]
        exact Ends.bind (.throw ⟨m₂, rfl, hm₂, _, hr, hfails⟩)
    · exact ⟨_, hf, rfl⟩
  · obtain ⟨r, hr, hx⟩ := hx
    cases x with
    | ok x => exact .ofExcept hm₂ (.answered hm₁ hr hx)
    | error f =>
      have hgoes := hm₂.goes (s := m₂.session.fail k) rfl fun _ => Session.holds_fail
      exact .change_bind _ rfl (.ofExcept hgoes.sound (.failed hm₁ hr hx hgoes))

/-- **The event is called.** -/
theorem callEvent_calls (hact : ∀ a m, m.Sound → Comes (act a) m (does a m)) (hm : m.Sound)
    (arguments named : Value) :
    Comes (callEvent act arguments named) m (Calls does arguments named m) := by
  have hbegin := hm.goes (s := m.session.begin) rfl fun _ => Session.holds_begin
  unfold callEvent
  refine .change_bind ⟨m.past ++ [], m.session.begin⟩ rfl (.read ?_)
  have hturns : Comes (m.session.event.dispatch (fun k => do return (← Act.state).holds k)
      (respond act arguments named)) (⟨m.past ++ [], m.session.begin⟩ : Moment) fun r m₂ =>
      ∃ ts, Dispatched (fun m => m.session.holds) (Responds does arguments named)
        m.session.event.listeners ⟨m.past ++ [], m.session.begin⟩ ts r m₂ :=
    callEach_dispatched (fun k _ hm => respond_responds hact hm arguments named k) hbegin.sound
  refine .outcome_bind hturns fun r m₂ hm₂ hr => ?_
  obtain ⟨ts, hts⟩ := hr
  refine comes_letsGo hm₂ rfl fun m' hover => ?_
  refine .bind (P := fun x m₃ => x = r ∧ m₃ = m') (.ofExcept hover.sound ⟨rfl, rfl⟩) ?_ ?_
  · rintro xs _ - ⟨rfl, rfl⟩
    exact .pure hover.sound (.intro hm.roster hm.roster.nodup hbegin hts hover)
  · rintro f _ ⟨rfl, rfl⟩
    exact .intro hm.roster hm.roster.nodup hbegin hts hover

/-- **One action**, however deeply it nests calls. -/
theorem perform_performs (hm : m.Sound) (a : Action) :
    Comes (perform depth a) m (Performs depth a m) := by
  induction depth generalizing m a with
  | zero => exact performWith_does (fun _ _ m hm => .throw hm ⟨rfl, rfl⟩) hm a
  | succ depth ih =>
    exact performWith_does (fun arguments named m hm =>
      callEvent_calls (fun a m hm => ih hm a) hm arguments named) hm a

/-- **Every run of an event goes as told**: whatever is done one after the other to a new event,
and whatever its listeners do meanwhile, each call gives a turn to those who were there when it
began, and at every moment the event lists those who are there and live. -/
theorem run_course (depth : Nat) (as : List Action) :
    Ends (as.mapM fun a => Act.outcome (perform depth a)) {} fun r s' =>
      ∃ xs m', r = .ok xs ∧ m'.session = s' ∧ m'.Sound ∧ Course (Performs depth) as {} xs m' := by
  have hcourse : Comes (as.mapM fun a => Act.outcome (perform depth a)) ({} : Moment) fun r m' =>
      ∃ xs, r = .ok xs ∧ Course (Performs depth) as {} xs m' :=
    .course (fun a _ m hm => perform_performs hm a) Moment.sound_initial
  refine Ends.mono hcourse fun r s' ⟨m', hs', hm', xs, hxs, h⟩ => ?_
  exact ⟨xs, m', hxs, hs', hm', h⟩

end EditorBridge.Event
