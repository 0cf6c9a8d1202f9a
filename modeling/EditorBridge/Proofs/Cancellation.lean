/-
Every callback is called once.

What befalls a token is told as a history: callbacks are registered and unregistered, the token is
cancelled, callbacks are called.  Nothing is called until the token is cancelled for the first
time.  Then those who stand are called, in the order of their registration, whatever they do
meanwhile; whoever is registered later is called at once; and nobody else is called any more
(`Once`).  This is said of callbacks that are registered once each and do not ask for the end of
the program.

How a history comes about is told rule by rule (`Performs`).  The actions of a callback are played
inside its call, so the rules stand on each other as those of an event do, and the number of calls
that may be nested ends this.  What carries the law is that everything that happens after the
cancellation is, piece by piece, of the form that `Follows` describes, and such pieces can be put
together.
-/
import EditorBridge.Cancellation.Scripted
import EditorBridge.Proofs.Moments

namespace EditorBridge.Token

open Act (Ends)
open Moments (Comes Course Plays)

/-! ### Histories -/

/-- What can befall a token. -/
inductive Incident where
  | registered (i : Nat)
  | unregistered (i : Nat)
  | cancelled
  | called (i : Nat)
  deriving DecidableEq

/-- The callbacks that were registered, one after the other. -/
def registered (past : List Incident) : List Nat :=
  past.filterMap fun
    | .registered i => some i
    | _ => none

/-- The callbacks that were unregistered. -/
def unregistered (past : List Incident) : List Nat :=
  past.filterMap fun
    | .unregistered i => some i
    | _ => none

/-- The callbacks that were called, one after the other. -/
def called (past : List Incident) : List Nat :=
  past.filterMap fun
    | .called i => some i
    | _ => none

/-- The callbacks that are registered and not yet unregistered, in the order of registration. -/
def standing (past : List Incident) : List Nat :=
  (registered past).filter (· ∉ unregistered past)

/-- What happens after the cancellation: those who stood are called, in their order, and whoever
is registered is called at once.  Nobody else is called. -/
inductive Follows : List Nat → List Incident → Prop
  | nil : Follows [] []
  | standing {k : Nat} {ks : List Nat} {is : List Incident} (h : Follows ks is) :
    Follows (k :: ks) (.called k :: is)
  | late {k : Nat} {ks : List Nat} {is : List Incident} (h : Follows ks is) :
    Follows ks (.registered k :: .called k :: is)
  | unregistered {k : Nat} {ks : List Nat} {is : List Incident} (h : Follows ks is) :
    Follows ks (.unregistered k :: is)
  | cancelled {ks : List Nat} {is : List Incident} (h : Follows ks is) :
    Follows ks (.cancelled :: is)

/-- How the history of a token goes. -/
inductive Once : List Incident → Prop
  | before {past : List Incident} (hc : .cancelled ∉ past) (hcalled : called past = []) : Once past
  | after {before after : List Incident} (hc : .cancelled ∉ before) (hcalled : called before = [])
    (h : Follows (standing before) after) : Once (before ++ .cancelled :: after)

/-! ### Moments -/

/-- A session together with what has befallen its token so far. -/
structure Moment where
  past : List Incident := []
  session : Session := {}

/-- An action whose callbacks do not ask for the end of the program. -/
inductive Action.Tame : Action → Prop
  | define {name : String} {failure : Option Failure} {script : List Action}
    (hf : ∀ f, failure = some f → f.isExit = false) (hs : ∀ a ∈ script, a.Tame) :
    Tame (.define name failure script)
  | register {name registration : String} : Tame (.register name registration)
  | unregister {registration : String} : Tame (.unregister registration)
  | cancel : Tame .cancel

/-- A callback that does not ask for the end of the program. -/
structure Callback.Tame (c : Callback) : Prop where
  failure : ∀ f, c.failure = some f → f.isExit = false
  script : ∀ a ∈ c.script, a.Tame

/-- The token is what the past says: before the cancellation it keeps those who stand, and
afterwards nobody. -/
structure Moment.Sound (m : Moment) : Prop where
  requested : m.session.token.requested = true ↔ .cancelled ∈ m.past
  waiting : .cancelled ∉ m.past → (registered m.past).Nodup →
    m.session.token.callbacks = standing m.past
  spent : .cancelled ∈ m.past → m.session.token.callbacks = []
  /-- Nobody was unregistered before being registered, nor can be. -/
  unregistered : ∀ i ∈ unregistered m.past, i ∈ registered m.past
  registrations : ∀ e ∈ m.session.registrations, ∀ i, e.2 = some i → i ∈ registered m.past
  tame : ∀ c ∈ m.session.callbacks, c.Tame

instance : Moments Moment Session where
  state := Moment.session
  Sound := Moment.Sound

theorem Moment.state_eq (m : Moment) : Moments.state m = m.session := rfl

/-- What a session is apart from its token. -/
def Session.apart (s : Session) : Session := { s with token := {} }

/-- Something befalls the token, and apart from it the session becomes another one. -/
structure Moment.Goes (is : List Incident) (s : Session) (m m' : Moment) : Prop where
  past : m'.past = m.past ++ is
  apart : m'.session.apart = s.apart
  sound : m'.Sound

/-! ### What befalls the token -/

/-- What an action does, given what it is to call a callback. -/
inductive Does (runs : Nat → Moment → Except Failure Unit → Moment → Prop) :
    Action → Moment → Except Failure Unit → Moment → Prop
  | define {n : String} {failure : Option Failure} {script : List Action} {m m' : Moment}
    (h : m.Goes [] { m.session with
      callbacks := m.session.callbacks.push ⟨n, failure, script⟩
      names := name n m.session.callbacks.size m.session.names } m') :
    Does runs (.define n failure script) m (.ok ()) m'
  | register {n r : String} {i : Nat} {m m' : Moment} (hi : m.session.names.lookup n = some i)
    (hc : .cancelled ∉ m.past)
    (h : m.Goes [.registered i]
      { m.session with registrations := name r (some i) m.session.registrations } m') :
    Does runs (.register n r) m (.ok ()) m'
  /-- After the cancellation, a callback is called at once, and there is nothing to unregister. -/
  | late {n r : String} {i : Nat} {m m₁ m₂ m' : Moment} (hi : m.session.names.lookup n = some i)
    (hc : .cancelled ∈ m.past) (h : m.Goes [.registered i] m.session m₁)
    (hrun : runs i m₁ (.ok ()) m₂)
    (hname : m₂.Goes []
      { m₂.session with registrations := name r none m₂.session.registrations } m') :
    Does runs (.register n r) m (.ok ()) m'
  | unregister {r : String} {i : Nat} {m m' : Moment}
    (hr : m.session.registrations.lookup r = some (some i))
    (h : m.Goes [.unregistered i] m.session m') : Does runs (.unregister r) m (.ok ()) m'
  | nothing {r : String} {m : Moment} (hr : m.session.registrations.lookup r = some none) :
    Does runs (.unregister r) m (.ok ()) m
  | cancel {ks : List Nat} {m m₁ m' : Moment} (hc : .cancelled ∉ m.past)
    (hks : (registered m.past).Nodup → ks = standing m.past) (h : m.Goes [.cancelled] m.session m₁)
    (hruns : Plays runs ks m₁ (.ok ()) m') : Does runs .cancel m (.ok ()) m'
  | again {m m' : Moment} (hc : .cancelled ∈ m.past) (h : m.Goes [.cancelled] m.session m') :
    Does runs .cancel m (.ok ()) m'
  /-- A name that stands for nothing. -/
  | unknown {n r : String} {m : Moment} (hn : m.session.names.lookup n = none) :
    Does runs (.register n r) m (.error (.unknownName n)) m
  | unknownRegistration {r : String} {m : Moment} (hr : m.session.registrations.lookup r = none) :
    Does runs (.unregister r) m (.error (.unknownName r)) m

/-- A callback is called: it does what its script says, and how it ends is nobody's business. -/
inductive Responds (does : Action → Moment → Except Failure Unit → Moment → Prop) (i : Nat)
    (m : Moment) : Except Failure Unit → Moment → Prop
  | intro {m₁ m' : Moment} {r : Except Failure Unit}
    (h : m.Goes [.called i]
      { m.session with calls := m.session.calls ++ [(m.session.callback i).name] } m₁)
    (hs : Plays does (m.session.callback i).script m₁ r m') : Responds does i m (.ok ()) m'

/-- What an action does, if no more calls than that can be nested. -/
def Performs : Nat → Action → Moment → Except Failure Unit → Moment → Prop
  | 0 => Does (Responds fun _ m r m' =>
      r = .error (.raised "RecursionError" "maximum recursion depth exceeded") ∧ m' = m)
  | depth + 1 => Does (Responds (Performs depth))

variable {m m' : Moment} {s : Session} {i : Nat} {is is' ks ks' : List Nat} {depth : Nat}
  {past after after' : List Incident} {act : Action → Act Session Unit}
  {does : Action → Moment → Except Failure Unit → Moment → Prop}
  {run : Nat → Act Session Unit} {runs : Nat → Moment → Except Failure Unit → Moment → Prop}

/-! ### After the cancellation -/

/-- Pieces of what happens after the cancellation can be put together. -/
theorem Follows.append (h : Follows ks after) (h' : Follows ks' after') :
    Follows (ks ++ ks') (after ++ after') := by
  induction h with
  | nil => exact h'
  | standing _ ih => exact .standing ih
  | late _ ih => exact .late ih
  | unregistered _ ih => exact .unregistered ih
  | cancelled _ ih => exact .cancelled ih

/-- Those who are called are those who stood and those who were registered later. -/
theorem Follows.called_perm (h : Follows ks after) :
    (called after).Perm (ks ++ registered after) := by
  induction h with
  | nil => exact .refl _
  | standing _ ih => exact ih.cons _
  | late _ ih => exact (ih.cons _).trans List.perm_middle.symm
  | unregistered _ ih => exact ih
  | cancelled _ ih => exact ih

theorem Once.append (h : Once past) (hc : .cancelled ∈ past) (h' : Follows [] after) :
    Once (past ++ after) := by
  cases h with
  | before hnot => exact (hnot hc).elim
  | @after before _ hnot hcalled h =>
    rw [List.append_assoc, List.cons_append]
    exact .after hnot hcalled (by simpa using h.append h')

/-- Nobody is called twice. -/
theorem Once.nodup_called (h : Once past) (hpast : (registered past).Nodup) :
    (called past).Nodup := by
  cases h with
  | before _ hcalled => simp [hcalled]
  | @after before after _ hcalled h =>
    have hregistered : registered (before ++ .cancelled :: after) =
        registered before ++ registered after := by simp [registered]
    have hall : called (before ++ .cancelled :: after) = called after := by
      simpa [called] using hcalled
    rw [hregistered] at hpast
    rw [hall, h.called_perm.nodup_iff]
    exact hpast.sublist (List.filter_sublist.append_right _)

/-- From one moment to a later one, such a piece happens. -/
def Moment.Settles (ks : List Nat) (m m' : Moment) : Prop :=
  ∃ after, m'.past = m.past ++ after ∧ Follows ks after

/-- A callback is called, and then such a piece happens. -/
def Moment.Calls (i : Nat) (m m' : Moment) : Prop :=
  ∃ after, m'.past = m.past ++ .called i :: after ∧ Follows [] after

theorem Moment.Settles.trans {m₁ : Moment} (h : m.Settles ks m₁) (h' : m₁.Settles ks' m') :
    m.Settles (ks ++ ks') m' := by
  obtain ⟨after, hpast, h⟩ := h
  obtain ⟨after', hpast', h'⟩ := h'
  exact ⟨after ++ after', by rw [hpast', hpast, List.append_assoc], h.append h'⟩

theorem Moment.Settles.cancelled (h : m.Settles ks m') (hc : .cancelled ∈ m.past) :
    .cancelled ∈ m'.past := by
  obtain ⟨after, hpast, -⟩ := h
  rw [hpast]
  exact List.mem_append_left _ hc

theorem Moment.Calls.settles (h : m.Calls i m') : m.Settles [i] m' := by
  obtain ⟨after, hpast, h⟩ := h
  exact ⟨.called i :: after, hpast, .standing h⟩

/-- What is known of every action is known of a script. -/
theorem settles_of_plays {as : List Action} {r : Except Failure Unit}
    (hdoes : ∀ a m r m', does a m r m' → .cancelled ∈ m.past → m.Settles [] m')
    (h : Plays does as m r m') (hc : .cancelled ∈ m.past) : m.Settles [] m' := by
  induction h with
  | nil => exact ⟨[], (List.append_nil _).symm, .nil⟩
  | cons ha _ ih =>
    have hfirst := hdoes _ _ _ _ ha hc
    exact hfirst.trans (ih (hfirst.cancelled hc))
  | failed ha => exact hdoes _ _ _ _ ha hc

/-- Callbacks that are called one after the other. -/
theorem settles_of_calls {r : Except Failure Unit}
    (hruns : ∀ i m r m', runs i m r m' → .cancelled ∈ m.past → r = .ok () ∧ m.Calls i m')
    (h : Plays runs ks m r m') (hc : .cancelled ∈ m.past) : m.Settles ks m' := by
  induction h with
  | nil => exact ⟨[], (List.append_nil _).symm, .nil⟩
  | cons hi _ ih =>
    have hfirst := (hruns _ _ _ _ hi hc).2.settles
    exact hfirst.trans (ih (hfirst.cancelled hc))
  | failed hi => cases (hruns _ _ _ _ hi hc).1

theorem Responds.calls {r : Except Failure Unit}
    (hdoes : ∀ a m r m', does a m r m' → .cancelled ∈ m.past → m.Settles [] m')
    (h : Responds does i m r m') (hc : .cancelled ∈ m.past) : r = .ok () ∧ m.Calls i m' := by
  cases h with
  | @intro m₁ _ _ h hs =>
    have hc₁ : .cancelled ∈ m₁.past := h.past ▸ List.mem_append_left _ hc
    obtain ⟨after, hpast, hafter⟩ := settles_of_plays hdoes hs hc₁
    exact ⟨rfl, after, by rw [hpast, h.past, List.append_assoc]; rfl, hafter⟩

theorem Moment.Goes.settles {is : List Incident} (h : m.Goes is s m') (his : Follows ks is) :
    m.Settles ks m' := ⟨is, h.past, his⟩

theorem Does.settles {a : Action} {r : Except Failure Unit}
    (hruns : ∀ i m r m', runs i m r m' → .cancelled ∈ m.past → r = .ok () ∧ m.Calls i m')
    (h : Does runs a m r m') (hc : .cancelled ∈ m.past) : m.Settles [] m' := by
  have hstays : m.Settles [] m := ⟨[], (List.append_nil _).symm, .nil⟩
  cases h with
  | define h => exact h.settles .nil
  | register _ hnot => exact (hnot hc).elim
  | @late _ _ i _ m₁ m₂ _ _ _ h hrun hname =>
    have hc₁ : .cancelled ∈ m₁.past := h.past ▸ List.mem_append_left _ hc
    obtain ⟨after, hpast, hafter⟩ := (hruns _ _ _ _ hrun hc₁).2
    refine ⟨.registered i :: .called i :: after, ?_, .late hafter⟩
    rw [hname.past, hpast, h.past]
    simp
  | unregister _ h => exact h.settles (.unregistered .nil)
  | nothing => exact hstays
  | cancel hnot => exact (hnot hc).elim
  | again _ h => exact h.settles (.cancelled .nil)
  | unknown => exact hstays
  | unknownRegistration => exact hstays

/-- **After the cancellation**, an action has nobody called but those whom it registers. -/
theorem Performs.settles {a : Action} {r : Except Failure Unit} (h : Performs depth a m r m')
    (hc : .cancelled ∈ m.past) : m.Settles [] m' := by
  induction depth generalizing a m r m' with
  | zero =>
    refine Does.settles (fun i m r m' h hc => h.calls (fun a m r m' h hc => ?_) hc) h hc
    exact ⟨[], by simp [h.2], .nil⟩
  | succ depth ih =>
    exact Does.settles (fun i m r m' h hc => h.calls (fun a m r m' h hc => ih h hc) hc) h hc

theorem registered_append : registered (past ++ after) = registered past ++ registered after :=
  List.filterMap_append

theorem unregistered_append :
    unregistered (past ++ after) = unregistered past ++ unregistered after :=
  List.filterMap_append

theorem called_append : called (past ++ after) = called past ++ called after :=
  List.filterMap_append

theorem Once.called_eq_nil (h : Once past) (hc : .cancelled ∉ past) : called past = [] := by
  cases h with
  | before _ hcalled => exact hcalled
  | after => simp at hc

/-- An action is told by one rule, however deeply calls may be nested. -/
theorem Performs.exists_does {a : Action} {r : Except Failure Unit} (h : Performs depth a m r m') :
    ∃ runs, Does runs a m r m' ∧
      ∀ i m r m', runs i m r m' → .cancelled ∈ m.past → r = .ok () ∧ m.Calls i m' := by
  cases depth with
  | zero =>
    refine ⟨_, h, fun i m r m' h hc => h.calls (fun a m r m' h _ => ?_) hc⟩
    exact ⟨[], by simp [h.2], .nil⟩
  | succ depth => exact ⟨_, h, fun i m r m' h hc => h.calls (fun a m r m' h hc => h.settles hc) hc⟩

/-- An action fails only if a name stands for nothing. -/
theorem Performs.error {a : Action} {f : Failure} (h : Performs depth a m (.error f) m') :
    ∃ n, f = .unknownName n := by
  obtain ⟨_, h, -⟩ := h.exists_does
  cases h <;> exact ⟨_, rfl⟩

theorem errors_of_course {as : List Action} {xs : List (Except Failure Unit)}
    (h : Course (Performs depth) as m xs m') :
    ∀ x ∈ xs, ∀ f, x = .error f → ∃ n, f = .unknownName n := by
  induction h with
  | nil => exact nofun
  | cons h _ ih =>
    refine List.forall_mem_cons.2 ⟨fun f hf => ?_, ih⟩
    subst hf
    exact h.error

/-- **One action** keeps the law, as long as nobody is registered twice. -/
theorem Performs.once {a : Action} {r : Except Failure Unit} (h : Performs depth a m r m')
    (hm : (registered m.past).Nodup → Once m.past) (hm' : (registered m'.past).Nodup) :
    Once m'.past := by
  by_cases hc : .cancelled ∈ m.past
  · obtain ⟨after, hpast, hafter⟩ := h.settles hc
    rw [hpast, registered_append] at hm'
    rw [hpast]
    exact (hm (List.nodup_append.1 hm').1).append hc hafter
  · have hquiet (is : List Incident) (his : .cancelled ∉ is) (hcalled : called is = [])
        (hpast : m'.past = m.past ++ is) : Once m'.past := by
      rw [hpast, registered_append] at hm'
      have hnone := (hm (List.nodup_append.1 hm').1).called_eq_nil hc
      rw [hpast]
      exact .before (by simp [hc, his]) (by rw [called_append, hnone, hcalled, List.nil_append])
    obtain ⟨runs, h, hruns⟩ := h.exists_does
    cases h with
    | define h => exact hquiet [] (by simp) rfl h.past
    | register _ _ h => exact hquiet _ (by simp) rfl h.past
    | late _ hc' => exact (hc hc').elim
    | unregister _ h => exact hquiet _ (by simp) rfl h.past
    | nothing => exact hquiet [] (by simp) rfl (List.append_nil _).symm
    | cancel _ hks hcancel hcalls =>
      obtain ⟨after, hpast, hafter⟩ := settles_of_calls hruns hcalls (by simp [hcancel.past])
      rw [hcancel.past, List.append_assoc] at hpast
      rw [hpast, registered_append] at hm'
      have hdistinct := (List.nodup_append.1 hm').1
      rw [hpast]
      exact .after hc ((hm hdistinct).called_eq_nil hc) (hks hdistinct ▸ hafter)
    | again hc' => exact (hc hc').elim
    | unknown => exact hquiet [] (by simp) rfl (List.append_nil _).symm
    | unknownRegistration => exact hquiet [] (by simp) rfl (List.append_nil _).symm

/-- What is done to a token keeps the law, as long as nobody is registered twice. -/
theorem once_of_course {as : List Action} {xs : List (Except Failure Unit)}
    (h : Course (Performs depth) as m xs m') (hm : (registered m.past).Nodup → Once m.past) :
    (registered m'.past).Nodup → Once m'.past := by
  induction h with
  | nil => exact hm
  | cons h _ ih => exact ih (h.once hm)

/-! ### What the acts do -/

theorem Moment.sound_initial : Moment.Sound {} where
  requested := by simp
  waiting _ _ := rfl
  spent hc := by cases hc
  unregistered := by simp [Token.unregistered]
  registrations := by simp
  tame := by simp

/-- The callback of any number does not ask for the end of the program. -/
theorem Moment.Sound.callback_tame (h : m.Sound) (i : Nat) : (m.session.callback i).Tame := by
  unfold Session.callback
  by_cases hi : i < m.session.callbacks.size
  · rw [Array.getD_eq_getD_getElem?, Array.getElem?_eq_getElem hi]
    exact h.tame _ (Array.getElem_mem hi)
  · rw [Array.getD_eq_getD_getElem?, Array.getElem?_eq_none (Nat.le_of_not_lt hi)]
    exact ⟨nofun, nofun⟩

/-- What does not change the token keeps a moment sound. -/
theorem Moment.Sound.aside (h : m.Sound) (is : List Incident) (hregistered : registered is = [])
    (hunregistered : Token.unregistered is = []) (hc : .cancelled ∉ is)
    (htoken : s.token = m.session.token)
    (hregistrations : ∀ e ∈ s.registrations, ∀ i, e.2 = some i → i ∈ registered m.past)
    (htame : ∀ c ∈ s.callbacks, c.Tame) : m.Goes is s ⟨m.past ++ is, s⟩ where
  past := rfl
  apart := rfl
  sound := by
    have hsame : .cancelled ∈ m.past ++ is ↔ .cancelled ∈ m.past := by simp [hc]
    have hall : registered (m.past ++ is) = registered m.past := by
      simp [registered_append, hregistered]
    have hgone : Token.unregistered (m.past ++ is) = Token.unregistered m.past := by
      simp [unregistered_append, hunregistered]
    refine ⟨?_, fun hnot hdistinct => ?_, fun hc => ?_, ?_, ?_, htame⟩
    · rw [htoken, h.requested, hsame]
    · simp only [standing, hall, hgone, htoken]
      exact h.waiting (fun hc => hnot (hsame.2 hc)) (hall ▸ hdistinct)
    · rw [htoken]
      exact h.spent (hsame.1 hc)
    · simpa only [hall, hgone] using h.unregistered
    · simpa only [hall] using hregistrations

/-- A name of a registration is given anew. -/
theorem Moment.Sound.registrations_name (h : m.Sound) (after : List Incident) {r : String}
    {x : Option Nat} (hx : ∀ i, x = some i → i ∈ registered (m.past ++ after)) :
    ∀ e ∈ name r x m.session.registrations, ∀ i, e.2 = some i →
      i ∈ registered (m.past ++ after) := by
  intro e he i hi
  rcases List.mem_cons.1 he with rfl | he
  · exact hx i hi
  · rw [registered_append]
    exact List.mem_append_left _ (h.registrations e (List.mem_filter.1 he).1 i hi)

/-- A callback is given a name. -/
theorem Moment.Sound.defines (h : m.Sound) {n : String} {failure : Option Failure}
    {script : List Action} (ha : (Action.define n failure script).Tame) :
    m.Goes [] { m.session with
      callbacks := m.session.callbacks.push ⟨n, failure, script⟩
      names := name n m.session.callbacks.size m.session.names } ⟨m.past ++ [], { m.session with
        callbacks := m.session.callbacks.push ⟨n, failure, script⟩
        names := name n m.session.callbacks.size m.session.names }⟩ := by
  refine h.aside [] rfl rfl (by simp) rfl h.registrations fun c hc => ?_
  rcases Array.mem_push.1 hc with hc | rfl
  · exact h.tame c hc
  · cases ha with
    | define hf hs => exact ⟨hf, hs⟩

/-- It is noted that a callback is called. -/
theorem Moment.Sound.notes (h : m.Sound) (i : Nat) :
    m.Goes [.called i] { m.session with
      calls := m.session.calls ++ [(m.session.callback i).name] } ⟨m.past ++ [.called i],
        { m.session with calls := m.session.calls ++ [(m.session.callback i).name] }⟩ :=
  h.aside _ rfl rfl (by simp) rfl h.registrations h.tame

/-- A name is given to a registration that there is no need to take back. -/
theorem Moment.Sound.names (h : m.Sound) (r : String) :
    m.Goes [] { m.session with registrations := name r none m.session.registrations }
      ⟨m.past ++ [], { m.session with
        registrations := name r none m.session.registrations }⟩ := by
  refine h.aside [] rfl rfl (by simp) rfl ?_ h.tame
  simpa using h.registrations_name [] (x := none) nofun

/-- A callback is registered with a token that was not cancelled. -/
theorem Moment.Sound.registers (h : m.Sound) (hc : .cancelled ∉ m.past) (r : String) (i : Nat) :
    m.Goes [.registered i] { m.session with
      registrations := name r (some i) m.session.registrations } ⟨m.past ++ [.registered i],
      { m.session with
        token := ⟨m.session.token.requested, m.session.token.callbacks ++ [i]⟩
        registrations := name r (some i) m.session.registrations }⟩ where
  past := rfl
  apart := rfl
  sound := by
    have hall : registered (m.past ++ [.registered i]) = registered m.past ++ [i] := by
      simp [registered]
    have hgone : Token.unregistered (m.past ++ [.registered i]) = Token.unregistered m.past := by
      simp [Token.unregistered]
    refine ⟨?_, fun _ hdistinct => ?_, fun hc' => ?_, ?_, ?_, h.tame⟩
    · simpa using h.requested
    · rw [hall, List.nodup_append] at hdistinct
      have hnew : i ∉ Token.unregistered m.past :=
        fun hi => hdistinct.2.2 i (h.unregistered i hi) i (by simp) rfl
      rw [standing, hall, hgone, List.filter_append, ← standing, ← h.waiting hc hdistinct.1]
      simp [hnew]
    · simp [hc] at hc'
    · rw [hall, hgone]
      exact fun j hj => List.mem_append_left _ (h.unregistered j hj)
    · refine h.registrations_name _ fun j hj => ?_
      rw [hall, Option.some.inj hj]
      exact List.mem_concat_self

/-- A callback is registered with a token that was cancelled. -/
theorem Moment.Sound.registersLate (h : m.Sound) (hc : .cancelled ∈ m.past) (i : Nat) :
    m.Goes [.registered i] m.session ⟨m.past ++ [.registered i], m.session⟩ where
  past := rfl
  apart := rfl
  sound := by
    have hall : registered (m.past ++ [.registered i]) = registered m.past ++ [i] := by
      simp [registered]
    refine ⟨?_, fun hnot => ?_, fun _ => h.spent hc, ?_, ?_, h.tame⟩
    · simpa using h.requested
    · simp [hc] at hnot
    · intro j hj
      rw [hall]
      exact List.mem_append_left _ (h.unregistered j (by simpa [Token.unregistered] using hj))
    · rw [hall]
      exact fun e he j hj => List.mem_append_left _ (h.registrations e he j hj)

theorem Moment.Sound.unregisters (h : m.Sound) {i : Nat} (hi : i ∈ registered m.past) :
    m.Goes [.unregistered i] m.session ⟨m.past ++ [.unregistered i],
      { m.session with token := m.session.token.unregister i }⟩ where
  past := rfl
  apart := rfl
  sound := by
    have hall : registered (m.past ++ [.unregistered i]) = registered m.past := by simp [registered]
    have hgone : Token.unregistered (m.past ++ [.unregistered i]) =
        Token.unregistered m.past ++ [i] := by
      simp [Token.unregistered]
    refine ⟨?_, fun hnot hdistinct => ?_, fun hc => ?_, ?_, ?_, h.tame⟩
    · simpa [unregister] using h.requested
    · rw [hall] at hdistinct
      have hstand := h.waiting (fun hc => hnot (by simp [hc])) hdistinct
      have hnodup : (standing m.past).Nodup := hdistinct.filter _
      show m.session.token.callbacks.erase i = _
      rw [hstand, hnodup.erase_eq_filter, standing, standing, hall, hgone, List.filter_filter]
      refine List.filter_congr fun j _ => ?_
      simp [bne, Bool.beq_eq_decide_eq, Bool.and_comm]
    · show m.session.token.callbacks.erase i = []
      rw [h.spent (by simpa using hc), List.erase_nil]
    · rw [hall, hgone]
      rintro j hj
      rcases List.mem_append.1 hj with hj | hj
      · exact h.unregistered j hj
      · exact List.mem_singleton.1 hj ▸ hi
    · simpa only [hall] using h.registrations

theorem Moment.Sound.cancels (h : m.Sound) :
    m.Goes [.cancelled] m.session ⟨m.past ++ [.cancelled],
      { m.session with token := ⟨true, []⟩ }⟩ where
  past := rfl
  apart := rfl
  sound := by
    have hall : registered (m.past ++ [.cancelled]) = registered m.past := by simp [registered]
    refine ⟨by simp, fun hnot => by simp at hnot, fun _ => rfl, ?_, ?_, h.tame⟩
    · simp only [hall, unregistered_append]
      exact fun j hj => h.unregistered j (by simpa [Token.unregistered] using hj)
    · simpa only [hall] using h.registrations

theorem plays_not_isExit {as : List Action} {f : Failure}
    (hdoes : ∀ a m f m', does a m (.error f) m' → f.isExit = false)
    (h : Plays does as m (.error f) m') : f.isExit = false := by
  generalize hr : Except.error f = r at h
  induction h with
  | nil => cases hr
  | cons _ _ ih => exact ih hr
  | failed h =>
    cases hr
    exact hdoes _ _ _ _ h

/-- **A callback is called**, and its failure is nobody's business. -/
theorem respond_responds
    (hact : ∀ a : Action, a.Tame → ∀ m : Moment, m.Sound → Comes (act a) m (does a m))
    (hdoes : ∀ a m f m', does a m (.error f) m' → f.isExit = false) (hm : m.Sound) (i : Nat) :
    Comes (respond act i) m (Responds does i m) := by
  have htame := hm.callback_tame i
  have hnote := hm.notes i
  unfold respond Token.call
  refine .outcome_bind (P := fun r m' => (∀ f, r = .error f → f.isExit = false) ∧
    Responds does i m (.ok ()) m') ?_ ?_
  · refine .read (.change_bind ⟨m.past ++ [.called i], _⟩ rfl ?_)
    refine .bind (.plays (fun a ha => hact a (htame.script a ha)) hnote.sound) ?_ ?_
    · intro _ m₂ hm₂ hs
      have hended : Responds does i m (.ok ()) m₂ := .intro hnote hs
      cases hfailure : (m.session.callback i).failure with
      | none => exact .pure hm₂ ⟨nofun, hended⟩
      | some f =>
        have hf : ∀ f', Except.error (α := Unit) f = .error f' → f'.isExit = false :=
          fun f' hf' => Except.error.inj hf' ▸ htame.failure f hfailure
        exact .throw hm₂ ⟨hf, hended⟩
    · intro f m₂ hs
      refine ⟨fun f' hf => ?_, .intro hnote hs⟩
      cases hf
      exact plays_not_isExit hdoes hs
  · rintro r m' hm' ⟨hr, h⟩
    cases r with
    | ok => exact .pure hm' h
    | error f =>
      dsimp only
      rw [hr f rfl]
      exact Ends.logFailure ⟨m', rfl, hm', h⟩

theorem ok_of_plays {r : Except Failure Unit} (hok : ∀ i m r m', runs i m r m' → r = .ok ())
    (h : Plays runs ks m r m') : r = .ok () := by
  induction h with
  | nil => rfl
  | cons _ _ ih => exact ih
  | failed h => cases hok _ _ _ _ h

theorem Responds.ok {r : Except Failure Unit} (h : Responds does i m r m') : r = .ok () := by
  cases h
  rfl

/-- **What an action does**, whatever callbacks do. -/
theorem performWith_does (hrun : ∀ i (m : Moment), m.Sound → Comes (run i) m (runs i m))
    (hok : ∀ i m r m', runs i m r m' → r = .ok ()) {a : Action} (ha : a.Tame) (hm : m.Sound) :
    Comes (performWith run a) m (Does runs a m) := by
  cases ha with
  | @define n _ _ hf hs =>
    have hgoes := hm.defines (n := n) (.define hf hs)
    exact .change _ rfl hgoes.sound (.define hgoes)
  | @register n r =>
    refine .read ?_
    rw [Moment.state_eq]
    cases hn : m.session.names.lookup n with
    | none => exact .throw hm (.unknown hn)
    | some i =>
      refine .read ?_
      rw [Moment.state_eq]
      by_cases hc : .cancelled ∈ m.past
      · have hlate := hm.registersLate hc i
        rw [Token.register, if_pos (hm.requested.2 hc)]
        refine .change_bind ⟨m.past ++ [.registered i], m.session⟩ rfl ?_
        refine .bind (hrun i _ hlate.sound) ?_ ?_
        · intro _ m₂ hm₂ h
          have hname := hm₂.names r
          exact .change _ rfl hname.sound (.late hn hc hlate h hname)
        · intro f m₂ h
          cases hok i _ _ _ h
      · have hregisters := hm.registers hc r i
        rw [Token.register, if_neg (mt hm.requested.1 hc)]
        refine .change_bind ⟨m.past, { m.session with
          token := ⟨m.session.token.requested, m.session.token.callbacks ++ [i]⟩ }⟩ rfl ?_
        show Comes (Act.change fun s : Session =>
          { s with registrations := name r (some i) s.registrations }) _ _
        exact .change _ rfl hregisters.sound (.register hn hc hregisters)
  | @unregister r =>
    refine .read ?_
    rw [Moment.state_eq]
    cases hr : m.session.registrations.lookup r with
    | none => exact .throw hm (.unknownRegistration hr)
    | some x =>
      cases x with
      | none => exact .pure hm (.nothing hr)
      | some i =>
        obtain ⟨before, after, hregistrations, -⟩ := List.lookup_eq_some_iff.1 hr
        have hi : i ∈ registered m.past :=
          hm.registrations (r, some i) (by simp [hregistrations]) i rfl
        have hgoes := hm.unregisters hi
        exact .change _ rfl hgoes.sound (.unregister hr hgoes)
  | cancel =>
    refine .read ?_
    rw [Moment.state_eq]
    have hcancels := hm.cancels
    by_cases hc : .cancelled ∈ m.past
    · have htoken : m.session.token = ⟨true, []⟩ :=
        Token.mk.injEq .. ▸ ⟨hm.requested.2 hc, hm.spent hc⟩
      rw [Token.cancel, if_pos (hm.requested.2 hc), htoken]
      refine .change_bind ⟨m.past ++ [.cancelled], { m.session with token := ⟨true, []⟩ }⟩ rfl ?_
      exact .pure hcancels.sound (.again hc hcancels)
    · rw [Token.cancel, if_neg (mt hm.requested.1 hc)]
      refine .change_bind ⟨m.past ++ [.cancelled], { m.session with token := ⟨true, []⟩ }⟩ rfl ?_
      refine .bind (.plays (fun i _ => hrun i) hcancels.sound) ?_ ?_
      · intro _ m' hm' h
        exact .pure hm' (.cancel hc (hm.waiting hc) hcancels h)
      · intro f m' h
        cases ok_of_plays hok h

/-- **One action**, however deeply it nests calls. -/
theorem perform_performs {a : Action} (ha : a.Tame) (hm : m.Sound) :
    Comes (perform depth a) m (Performs depth a m) := by
  induction depth generalizing m a with
  | zero =>
    refine performWith_does (fun i m hm => respond_responds ?_ ?_ hm i)
      (fun _ _ _ _ => Responds.ok) ha hm
    · exact fun _ _ m hm => .throw hm ⟨rfl, rfl⟩
    · rintro _ _ f _ ⟨hf, -⟩
      cases hf
      rfl
  | succ depth ih =>
    refine performWith_does (fun i m hm => respond_responds ?_ ?_ hm i)
      (fun _ _ _ _ => Responds.ok) ha hm
    · exact fun a ha m hm => ih ha hm
    · intro a m f m' h
      obtain ⟨n, rfl⟩ := h.error
      rfl

/-- **Every callback is called once**, whatever is done one after the other to a new token and
whatever its callbacks do meanwhile, as long as nobody is registered twice and nobody asks for the
end of the program.  What a callback fails with reaches nobody. -/
theorem run_once (depth : Nat) {as : List Action} (has : ∀ a ∈ as, a.Tame) :
    (Ends (as.mapM fun a => Act.outcome (perform depth a)) {} fun r s' => ∃ xs m',
      r = .ok xs ∧ m'.session = s' ∧ m'.Sound ∧ Course (Performs depth) as {} xs m') ∧
    ∀ xs m', Course (Performs depth) as {} xs m' →
      (∀ x ∈ xs, ∀ f, x = .error f → ∃ n, f = .unknownName n) ∧
        ((registered m'.past).Nodup → Once m'.past ∧ (called m'.past).Nodup) := by
  constructor
  · have hcourse : Comes (as.mapM fun a => Act.outcome (perform depth a)) ({} : Moment) fun r m' =>
        ∃ xs, r = .ok xs ∧ Course (Performs depth) as {} xs m' :=
      .course (fun a ha _ hm => perform_performs (has a ha) hm) Moment.sound_initial
    exact Ends.mono hcourse fun r s' ⟨m', hs', hm', xs, hxs, h⟩ => ⟨xs, m', hxs, hs', hm', h⟩
  · intro xs m' h
    refine ⟨errors_of_course h, fun hdistinct => ?_⟩
    have honce := once_of_course h (fun _ => .before (by simp) rfl) hdistinct
    exact ⟨honce, honce.nodup_called hdistinct⟩

/-- A token is cancelled, and its callback registers another one, cancels again and then fails. -/
def reentrant : List Action := [
  .define "b" none [],
  .define "a" (some (.raised "ValueError" none)) [.register "b" "rb", .cancel],
  .register "a" "ra", .cancel]

theorem tame_reentrant : ∀ a ∈ reentrant, a.Tame := by
  have hquiet : Action.Tame (.define "b" none []) := .define nofun nofun
  have hscript : ∀ a ∈ [Action.register "b" "rb", .cancel], a.Tame := by
    simp [Action.Tame.register, Action.Tame.cancel]
  have hfails : Action.Tame
      (.define "a" (some (.raised "ValueError" none)) [.register "b" "rb", .cancel]) :=
    .define (fun f hf => Option.some.inj hf ▸ rfl) hscript
  simp [reentrant, hquiet, hfails, Action.Tame.register, Action.Tame.cancel]

/-- How that run goes. -/
theorem course_reentrant : ∃ m' : Moment,
    m'.past = [.registered 1, .cancelled, .called 1, .registered 0, .called 0, .cancelled] ∧
    Course (Performs 1) reentrant {} (List.replicate 4 (.ok ())) m' := by
  have b := Moment.sound_initial.defines (tame_reentrant _ (.head _))
  have a := b.sound.defines (tame_reentrant _ (.tail _ (.head _)))
  have ra := a.sound.registers (by decide) "ra" 1
  have cancelled := ra.sound.cancels
  -- The callback `a` is called, and `b` inside it.
  have calledA := cancelled.sound.notes 1
  have rb := calledA.sound.registersLate (by decide) 0
  have calledB := rb.sound.notes 0
  have named := calledB.sound.names "rb"
  have again := named.sound.cancels
  have hb : Performs 0 (.register "b" "rb") _ (.ok ()) _ :=
    .late rfl (by decide) rb (.intro calledB .nil) named
  have ha : Responds (Performs 0) 1 _ (.ok ()) _ :=
    .intro calledA (.cons hb (.cons (.again (by decide) again) .nil))
  have hcancel : Performs 1 .cancel _ (.ok ()) _ :=
    .cancel (by decide) (fun _ => rfl) cancelled (.cons ha .nil)
  exact ⟨_, rfl, .cons (.define b) (.cons (.define a) (.cons (.register rfl (by decide) ra)
    (.cons hcancel .nil)))⟩

theorem run_once_reentrant : (∀ a ∈ reentrant, a.Tame) ∧
    (Ends (reentrant.mapM fun a => Act.outcome (perform 1 a)) {} fun r s' => ∃ xs m',
      r = .ok xs ∧ m'.session = s' ∧ m'.Sound ∧ Course (Performs 1) reentrant {} xs m') ∧
    ∃ xs m', Course (Performs 1) reentrant {} xs m' ∧ (registered m'.past).Nodup ∧
      (∀ x ∈ xs, ∀ f, x = .error f → ∃ n, f = .unknownName n) ∧
        Once m'.past ∧ (called m'.past).Nodup := by
  obtain ⟨hends, hcourse⟩ := run_once 1 tame_reentrant
  obtain ⟨m', hpast, h⟩ := course_reentrant
  have hdistinct : (registered m'.past).Nodup := by
    rw [hpast]
    decide
  obtain ⟨herrors, honce⟩ := hcourse _ m' h
  exact ⟨tame_reentrant, hends, _, m', h, hdistinct, herrors, honce hdistinct⟩

/-- Everybody is called once. -/
example : ((reentrant.mapM fun a => Act.outcome (perform 1 a)) ⟨{}, {}⟩).2.state.calls =
    ["a", "b"] := by
  rfl

end EditorBridge.Token
