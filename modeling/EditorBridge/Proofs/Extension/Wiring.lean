/-
What the extension has registered, and what others have.

An activation puts the extension's relay, its query proxy and itself into lists that others
use as well.  A list is told apart into the part that is the extension's own and the others'
part.  Each stage of an activation is given by the own part, and no stage touches the
others'.  A new relay and a new proxy have numbers that nobody can have registered before
(`Sound`), and that is why the others keep their place when they are added.
-/
import EditorBridge.Proofs.Server.Activation

namespace EditorBridge

open Act (Ends)

/-- The registration that shows hovers. -/
abbrev Registration.hovering (p : Nat) : Registration := ⟨Workbench.everything, .proxy p, []⟩

/-- The registration that proposes something after some characters. -/
abbrev Registration.proposing (p : Nat) (triggers : List String) : Registration :=
  ⟨Workbench.everything, .proxy p, triggers⟩

namespace Extension

/-- Whether a registration is the extension's. -/
def provides (e : Extension) (r : Registration) : Bool :=
  e.proxy.any fun p => decide (r.provider = .proxy p)

/-- Whether a listener is the extension's. -/
def listens (e : Extension) (k : Listener) : Bool := e.relay.any fun n => decide (k = .relay n)

end Extension

/-- Everybody who is registered: providers, those who hear about documents, and those who hear of
the end of the server. -/
@[ext]
structure Roster where
  hovers : List Registration
  completions : List Registration
  opened : List Listener
  changed : List Listener
  saved : List Listener
  closed : List Listener
  stopped : List StopListener

namespace Roster

/-- Those who are chosen. -/
def choose (x : Roster) (provides : Registration → Bool) (listens : Listener → Bool)
    (stops : StopListener → Bool) : Roster where
  hovers := x.hovers.filter provides
  completions := x.completions.filter provides
  opened := x.opened.filter listens
  changed := x.changed.filter listens
  saved := x.saved.filter listens
  closed := x.closed.filter listens
  stopped := x.stopped.filter stops

/-- The extension's own part. -/
def own (x : Roster) (e : Extension) : Roster :=
  x.choose e.provides e.listens fun k => decide (k = .extension)

/-- The part of the others. -/
def others (x : Roster) (e : Extension) : Roster :=
  x.choose (fun r => !e.provides r) (fun k => !e.listens k) fun k => !decide (k = .extension)

/-- The same listeners for all events of documents. -/
def listening (hovers completions : List Registration) (listeners : List Listener)
    (stopped : List StopListener) : Roster :=
  ⟨hovers, completions, listeners, listeners, listeners, listeners, stopped⟩

/-- Those who hear about documents. -/
def hearers (x : Roster) : List Listener := x.opened ++ x.changed ++ x.saved ++ x.closed

/-- Whoever chooses nobody but one that hears of the end of the server leaves the others. -/
theorem of_none {x : Roster} {e : Extension}
    (hr : ∀ r ∈ x.hovers ++ x.completions, e.provides r = false)
    (hk : ∀ k ∈ x.hearers, e.listens k = false) :
    x.own e = listening [] [] [] (x.stopped.filter fun k => decide (k = .extension)) ∧
      x.others e = { x with stopped := x.stopped.filter fun k => !decide (k = .extension) } := by
  have hnone {α : Type} {p : α → Bool} {xs : List α} (h : ∀ a ∈ xs, p a = false) :
      xs.filter p = [] ∧ xs.filter (fun a => !p a) = xs :=
    ⟨List.filter_eq_nil_iff.2 fun a ha => by simp [h a ha],
      List.filter_eq_self.2 fun a ha => by simp [h a ha]⟩
  obtain ⟨hh, hc⟩ := List.forall_mem_append.1 hr
  simp only [hearers, List.forall_mem_append] at hk
  obtain ⟨⟨⟨ho, hch⟩, hs⟩, hcl⟩ := hk
  unfold own others choose listening
  simp only [hnone hh, hnone hc, hnone ho, hnone hch, hnone hs, hnone hcl, and_self]

/-! ### Adding and taking away -/

section Changes

variable {x : Roster} {e : Extension} {q : Query} {r : Registration} {n : Nat}

/-- One more provider. -/
def provide (x : Roster) (r : Registration) : Query → Roster
  | .hover => { x with hovers := x.hovers ++ [r] }
  | .completion => { x with completions := x.completions ++ [r] }

/-- Some providers are taken away, one after the other. -/
def dispose (x : Roster) (hs cs : List Registration) : Roster :=
  { x with hovers := hs.foldl List.erase x.hovers, completions := cs.foldl List.erase x.completions }

/-- Other listeners for all events of documents. -/
def hear (x : Roster) (f : List Listener → List Listener) : Roster :=
  { x with opened := f x.opened, changed := f x.changed, saved := f x.saved, closed := f x.closed }

theorem parts_provide (h : e.provides r = true) :
    (x.provide r q).own e = (x.own e).provide r q ∧ (x.provide r q).others e = x.others e := by
  cases q <;> simp [provide, own, others, choose, List.filter_append, h]

/-- Whoever listens is told apart by whether it is the relay of the extension. -/
theorem parts_hear {f g : List Listener → List Listener}
    (hown : ∀ ks, (f ks).filter e.listens = g (ks.filter e.listens))
    (hothers : ∀ ks, (f ks).filter (fun k => !e.listens k) = ks.filter fun k => !e.listens k) :
    (x.hear f).own e = (x.own e).hear g ∧ (x.hear f).others e = x.others e := by
  simp [hear, own, others, choose, hown, hothers]

/-- **Taking away everything that is chosen** leaves what is not. -/
theorem foldl_erase_filter {α : Type} [DecidableEq α] (p : α → Bool) (xs : List α) :
    (xs.filter p).foldl List.erase xs = xs.filter fun a => !p a := by
  have hskip {a : α} {ys zs : List α} (h : ∀ b ∈ ys, b ≠ a) :
      ys.foldl List.erase (a :: zs) = a :: ys.foldl List.erase zs := by
    induction ys generalizing zs with
    | nil => rfl
    | cons b ys ih =>
      obtain ⟨hb, hys⟩ := List.forall_mem_cons.1 h
      rw [List.foldl_cons, List.foldl_cons, List.erase_cons_tail (by simpa using hb.symm), ih hys]
  induction xs with
  | nil => rfl
  | cons a xs ih =>
    cases ha : p a with
    | true => rw [List.filter_cons_of_pos ha, List.filter_cons_of_neg (by simp [ha]),
        List.foldl_cons, List.erase_cons_head, ih]
    | false =>
      rw [List.filter_cons_of_neg (by simp [ha]), List.filter_cons_of_pos (by simp [ha]),
        hskip fun b hb => ?_, ih]
      rintro rfl
      rw [(List.mem_filter.1 hb).2] at ha
      cases ha

theorem parts_dispose : (x.dispose (x.own e).hovers (x.own e).completions).own e =
      { x.own e with hovers := [], completions := [] } ∧
    (x.dispose (x.own e).hovers (x.own e).completions).others e = x.others e := by
  have hnone {α : Type} (p : α → Bool) (xs : List α) : (xs.filter fun a => !p a).filter p = [] :=
    List.filter_eq_nil_iff.2 fun a ha => by simpa using (List.mem_filter.1 ha).2
  simp [dispose, own, others, choose, foldl_erase_filter, hnone]

end Changes

end Roster

namespace Workbench

variable {w w' : Workbench} {config : Value} {t n p : Nat} {hs cs : List Registration}
  {ls : List Listener}

/-- Everybody who is registered. -/
def roster (w : Workbench) : Roster where
  hovers := w.hovers
  completions := w.completions
  opened := w.onOpen.listeners
  changed := w.onChange.listeners
  saved := w.onSave.listeners
  closed := w.onClose.listeners
  stopped := w.onStop.listeners

/-- What is registered of the extension's. -/
def own (w : Workbench) : Roster := w.roster.own w.extension

/-- What is registered of others. -/
def others (w : Workbench) : Roster := w.roster.others w.extension

/-- Relays and proxies that are registered are there. -/
structure Present (w : Workbench) : Prop where
  proxies : ∀ r ∈ w.roster.hovers ++ w.roster.completions, ∀ p, r.provider = .proxy p →
    p < w.proxies.size
  relays : ∀ k ∈ w.roster.hearers, ∀ n, k = .relay n → n < w.relays.size

/-! ### Stages -/

/-- The extension is not active. -/
structure Inactive (config : Value) (w : Workbench) : Prop where
  extension : w.extension = { config }
  deaf : .extension ∉ w.onStop.listeners

/-- A stage of an activation: the extension has a tracker, a relay and a proxy that share it, and so
much is registered. -/
structure Stage (config : Value) (t n p : Nat) (hs cs : List Registration) (ls : List Listener)
    (w : Workbench) : Prop where
  config_eq : w.extension.config = config
  tracker : w.extension.tracker = some t
  relay : w.extension.relay = some n
  proxy : w.extension.proxy = some p
  registrations : w.extension.registrations =
    hs.map (Query.hover, ·) ++ cs.map (Query.completion, ·)
  own_eq : w.own = .listening hs cs ls [.extension]
  relays : n < w.relays.size
  proxies : p < w.proxies.size
  relayed : (w.relays.getD n default).tracker = t
  proxied : (w.proxies.getD p default).tracker = t
  registered : (w.relays.getD n default).registered = !ls.isEmpty

/-- The link is no part of it. -/
theorem Stage.link (h : Stage config t n p hs cs ls w) {l : Link} :
    Stage config t n p hs cs ls { w with link := l } :=
  ⟨h.1, h.2, h.3, h.4, h.5, h.6, h.7, h.8, h.9, h.10, h.11⟩

/-- Nothing is registered, and nothing is left to be undone, but that the extension may hear of the
end of the server. -/
structure Stopping (config : Value) (w : Workbench) : Prop where
  config_eq : w.extension.config = config
  registrations : w.extension.registrations = []
  own_eq : w.own = .listening [] [] [] w.own.stopped

/-- What is to be undone is what is registered. -/
def Accounted (w : Workbench) : Prop := w.extension.registrations =
  w.own.hovers.map (Query.hover, ·) ++ w.own.completions.map (Query.completion, ·)

theorem Stage.accounted (h : Stage config t n p hs cs ls w) : w.Accounted := by
  rw [Accounted, h.own_eq, h.registrations]
  rfl

theorem filter_deaf {ks : List StopListener} (h : .extension ∉ ks) :
    ks.filter (fun k => decide (k = .extension)) = [] ∧
      ks.filter (fun k => !decide (k = .extension)) = ks := by
  have hne : ∀ k ∈ ks, decide (k = StopListener.extension) = false := fun k hk =>
    decide_eq_false fun e => h (e ▸ hk)
  exact ⟨List.filter_eq_nil_iff.2 fun k hk => by simp [hne k hk],
    List.filter_eq_self.2 fun k hk => by simp [hne k hk]⟩

/-- Nothing that is registered is of an extension that has no relay and no proxy. -/
theorem Inactive.parts (h : Inactive config w) :
    w.own = .listening [] [] [] [] ∧ w.others = w.roster := by
  have hnone := Roster.of_none (x := w.roster) (e := w.extension)
    (fun r _ => by rw [h.extension]; rfl) fun k _ => by rw [h.extension]; rfl
  obtain ⟨hown, hothers⟩ := filter_deaf h.deaf
  rw [own, others, hnone.1, hnone.2]
  exact ⟨congrArg _ hown, congrArg (fun ks => { w.roster with stopped := ks }) hothers⟩

theorem Inactive.accounted (h : Inactive config w) : w.Accounted := by
  rw [Accounted, h.parts.1, h.extension]
  rfl

/-- What the extension leaves as it was: the others' part.  If it has a tracker that it did not have
before, that is a new and empty one. -/
structure Discreet (w w' : Workbench) : Prop where
  others : w'.others = w.others
  present : Present w → Present w'
  size : w.trackers.size ≤ w'.trackers.size
  empty : ∀ t : Nat, w.trackers[t]? = some {} → w'.trackers[t]? = some {}
  tracker : ∀ t, w'.extension.tracker = some t →
    w.extension.tracker = some t ∨ w.trackers.size ≤ t ∧ w'.trackers[t]? = some {}

instance : IsPreorder Workbench Discreet where
  refl _ := ⟨rfl, id, Nat.le_refl _, fun _ => id, fun _ => .inl⟩
  trans w w₁ w₂ h h' := by
    refine ⟨h'.others.trans h.others, h'.present ∘ h.present, Nat.le_trans h.size h'.size,
      fun t => h'.empty t ∘ h.empty t, fun t ht => ?_⟩
    rcases h'.tracker t ht with ht | ⟨hle, ht⟩
    · exact (h.tracker t ht).imp_right fun h₁ => ⟨h₁.1, h'.empty t h₁.2⟩
    · exact .inr ⟨Nat.le_trans h.size hle, ht⟩

/-- Nothing happens to trackers. -/
theorem Discreet.of_roster (hothers : w'.others = w.others) (hpresent : Present w → Present w')
    (ht : w'.trackers = w.trackers) (he : w'.extension.tracker = w.extension.tracker) :
    Discreet w w' :=
  ⟨hothers, hpresent, Nat.le_of_eq (congrArg Array.size ht.symm), fun _ h => ht ▸ h,
    fun _ h => .inl (he ▸ h)⟩

/-- The link and the journal are not the extension's. -/
theorem Discreet.of_link (l : Link) : Discreet w { w with link := l } :=
  .of_roster rfl (fun h => ⟨h.proxies, h.relays⟩) rfl rfl

/-! ### Setting up -/

/-- **Setting up** needs options for formatting that the protocol knows. -/
theorem setUp_ends {v : Value} (hv : Relay.formattingOptions (Config.tabSize w.extension.config)
    (Config.insertSpaces w.extension.config) = .ok v) : Ends setUp w fun r w' =>
      r = .ok () ∧ ∃ relay, w' = w.withRelay relay := by
  refine .bind (.log (.read ?_))
  refine .bind (.read (.change_bind (.pure (.change_bind (.bind (.ofExcept ?_))))))
  rw [show Relay.formattingOptions _ _ = _ from hv]
  refine .bind (.read (.change_bind (.pure (.bind (.read (.change_bind (.pure ?_)))))))
  exact .change_bind (.change ⟨rfl, { schemes := _, formatOnSave := _, formatting := v }, rfl⟩)

/-- A new relay and a new proxy are nobody's yet. -/
theorem discreet_withRelay (h : Present w) (hi : Inactive config w) (relay : Relay) :
    Discreet w (w.withRelay relay) ∧
      Stage config w.trackers.size w.relays.size w.proxies.size [] [] [] (w.withRelay relay) := by
  have hroster : (w.withRelay relay).roster =
      { w.roster with stopped := (w.onStop.add .extension).listeners } := rfl
  have hstop : (w.onStop.add .extension).listeners = w.onStop.listeners ++ [.extension] := by
    rw [Event.add, if_neg hi.deaf]
  have hnone := Roster.of_none (x := (w.withRelay relay).roster) (e := (w.withRelay relay).extension)
    (fun r hr => by
      refine decide_eq_false fun e => ?_
      exact Nat.lt_irrefl _ (h.proxies r hr _ e))
    (fun k hk => by
      refine decide_eq_false fun e => ?_
      exact Nat.lt_irrefl _ (h.relays k hk _ e))
  obtain ⟨hdeaf, hself⟩ := filter_deaf hi.deaf
  have hget {α : Type} [Inhabited α] (xs : Array α) (x : α) :
      (xs.push x).getD xs.size default = x := by rw [getD_push, if_pos rfl]
  have hpush (t : Nat) : (w.trackers.push {})[t]? = if t = w.trackers.size then some {} else
      w.trackers[t]? := Array.getElem?_push
  refine ⟨⟨?_, fun _ => ⟨fun r hr q hq => ?_, fun k hk q hq => ?_⟩, ?_, fun t ht => ?_,
    fun t ht => .inr ?_⟩, ?_⟩
  · rw [others, hnone.2, hi.parts.2, hroster, hstop, List.filter_append, hself]
    exact congrArg (fun ks => { w.roster with stopped := ks }) (List.append_nil _)
  · exact Nat.lt_of_lt_of_le (h.proxies r hr q hq) (by simp [Workbench.withRelay])
  · exact Nat.lt_of_lt_of_le (h.relays k hk q hq) (by simp [Workbench.withRelay])
  · simp [withRelay, withTracker]
  · show (w.trackers.push {})[t]? = some {}
    rw [hpush, ht, ite_self]
  · cases ht
    refine ⟨Nat.le_refl _, ?_⟩
    show (w.trackers.push {})[w.trackers.size]? = some {}
    rw [hpush, if_pos rfl]
  · refine ⟨?_, rfl, rfl, rfl, ?_, ?_, ?_, ?_, ?_, ?_, ?_⟩
    · exact congrArg Extension.config hi.extension
    · exact congrArg Extension.registrations hi.extension
    · rw [own, hnone.1, hroster, hstop, List.filter_append, hdeaf]
      rfl
    · simp [Workbench.withRelay]
    · simp [Workbench.withRelay]
    · exact congrArg RelayState.tracker (hget _ _)
    · exact congrArg Proxy.tracker (hget _ _)
    · exact congrArg RelayState.registered (hget _ _)

/-! ### Registering -/

/-- A provider is added for the extension. -/
theorem Stage.provide (h : Stage config t n p hs cs ls w) {q : Query} {r : Registration}
    (hr : r.provider = .proxy p) : Ends (provide q r) w fun x w' => x = .ok () ∧ Discreet w w' ∧
      w'.link = w.link ∧ w'.extension.triggers = w.extension.triggers ∧
      match q with
      | .hover => cs = [] → Stage config t n p (hs ++ [r]) [] ls w'
      | .completion => Stage config t n p hs (cs ++ [r]) ls w' := by
  have hprovides : w.extension.provides r = true := by
    simp [Extension.provides, h.proxy, hr]
  obtain ⟨hown, hothers⟩ := Roster.parts_provide (x := w.roster) (q := q) hprovides
  have hpresent {y : Registration} {c : Nat} (hp : Present w)
      (hy : y ∈ (w.roster.provide r q).hovers ++ (w.roster.provide r q).completions)
      (hc : y.provider = .proxy c) : c < w.proxies.size := by
    by_cases hyr : y = r
    · rw [hyr, hr] at hc
      cases hc
      exact h.proxies
    · refine hp.proxies y ?_ c hc
      cases q <;> simpa [Roster.provide, hyr] using hy
  have hregistered : (w.own.provide r q) = _ := congrArg (Roster.provide · r q) h.own_eq
  unfold Workbench.provide register onRegistrations onExtension
  refine .change_bind (.change ?_)
  cases q with
  | hover =>
    refine ⟨rfl, .of_roster hothers (fun hp => ⟨fun _ hy _ => hpresent hp hy, hp.relays⟩) rfl rfl,
      rfl, rfl, ?_⟩
    rintro rfl
    refine ⟨h.1, h.2, h.3, h.4, ?_, hown.trans hregistered, h.7, h.8, h.9, h.10, h.11⟩
    show w.extension.registrations ++ _ = _
    rw [h.registrations]
    simp
  | completion =>
    refine ⟨rfl, .of_roster hothers (fun hp => ⟨fun _ hy _ => hpresent hp hy, hp.relays⟩) rfl rfl,
      rfl, rfl, ?_⟩
    refine ⟨h.1, h.2, h.3, h.4, ?_, hown.trans hregistered, h.7, h.8, h.9, h.10, h.11⟩
    show w.extension.registrations ++ _ = _
    rw [h.registrations]
    simp

/-- A relay listens to whatever happens to documents. -/
def attending (n : Nat) (w : Workbench) : Workbench :=
  { w with
    onOpen := w.onOpen.add (.relay n)
    onChange := w.onChange.add (.relay n)
    onSave := w.onSave.add (.relay n)
    onClose := w.onClose.add (.relay n)
    relays := w.relays.modify n fun r => { r with registered := true } }

theorem registerRelay_attends (h : (w.relays.getD n default).registered = false) :
    Ends (registerRelay n) w fun x w' => x = .ok () ∧ w' = w.attending n := by
  unfold Workbench.registerRelay onListeners setRegistered
  refine .read ?_
  rw [h]
  exact .change_bind (.change ⟨rfl, rfl⟩)

theorem Stage.listens (h : Stage config t n p hs cs ls w) (k : Listener) :
    w.extension.listens k = decide (k = .relay n) := by
  simp [Extension.listens, h.relay]

/-- The relay comes behind everybody else. -/
theorem Stage.roster_attending (h : Stage config t n p hs cs [] w) :
    (w.attending n).roster = w.roster.hear (· ++ [.relay n]) := by
  have hadd {ks : List Listener} (hks : ks.filter w.extension.listens = []) :
      (Event.add (.relay n) ⟨ks⟩).listeners = ks ++ [.relay n] := by
    have hn : .relay n ∉ ks := fun hm => by
      simpa [h.listens] using List.filter_eq_nil_iff.1 hks _ hm
    rw [Event.add, if_neg hn]
  obtain ⟨ho, hch, hsv, hcl⟩ : w.onOpen.listeners.filter w.extension.listens = [] ∧
      w.onChange.listeners.filter w.extension.listens = [] ∧
      w.onSave.listeners.filter w.extension.listens = [] ∧
      w.onClose.listeners.filter w.extension.listens = [] :=
    ⟨congrArg Roster.opened h.own_eq, congrArg Roster.changed h.own_eq,
      congrArg Roster.saved h.own_eq, congrArg Roster.closed h.own_eq⟩
  unfold roster Roster.hear
  simp only [attending, hadd ho, hadd hch, hadd hsv, hadd hcl]

theorem Stage.present_attending (h : Stage config t n p hs cs [] w) (hp : Present w) :
    Present (w.attending n) := by
  have hsize : (w.attending n).relays.size = w.relays.size := Array.size_modify ..
  refine ⟨hp.proxies, fun k hk m hm => ?_⟩
  rw [h.roster_attending] at hk
  rw [hsize]
  have hcases : k ∈ w.roster.hearers ∨ k = .relay n := by
    simp only [Roster.hearers, Roster.hear, List.mem_append, List.mem_singleton] at hk ⊢
    grind
  rcases hcases with hk | rfl
  · exact hp.relays k hk m hm
  · cases hm
    exact h.relays

/-- The relay of the extension begins to listen. -/
theorem Stage.registerRelay (h : Stage config t n p hs cs [] w) :
    Ends (registerRelay n) w fun x w' => x = .ok () ∧ Discreet w w' ∧
      Stage config t n p hs cs [.relay n] w' := by
  have hself : [Listener.relay n].filter w.extension.listens = [.relay n] ∧
      [Listener.relay n].filter (fun k => !w.extension.listens k) = [] := by
    simp [h.listens]
  obtain ⟨hown, hothers⟩ := Roster.parts_hear (x := w.roster) (e := w.extension)
    (f := (· ++ [.relay n])) (g := (· ++ [.relay n]))
    (fun ks => by rw [List.filter_append, hself.1])
    (fun ks => by rw [List.filter_append, hself.2, List.append_nil])
  refine (registerRelay_attends h.registered).mono fun x w' hr => ?_
  obtain ⟨rfl, rfl⟩ := hr
  refine ⟨rfl, .of_roster ?_ h.present_attending rfl rfl, h.1, h.2, h.3, h.4, h.5, ?_, ?_, h.8, ?_,
    h.10, ?_⟩
  · show (w.attending n).roster.others w.extension = _
    rw [h.roster_attending, hothers]
    rfl
  · show (w.attending n).roster.own w.extension = _
    rw [h.roster_attending, hown, show w.roster.own w.extension = _ from h.own_eq]
    rfl
  · exact (Array.size_modify ..).symm ▸ h.relays
  · exact (Link.getD_modify RelayState.tracker rfl n).trans h.relayed
  · simp [attending, h.relays, Array.getElem_modify]

/-- **The extension begins to listen** to documents and shows hovers. -/
theorem Stage.listen (h : Stage config t n p [] [] [] w) : Ends listen w fun x w' =>
    x = .ok () ∧ Discreet w w' ∧ Stage config t n p [.hovering p] [] [.relay n] w' := by
  unfold Workbench.listen theRelay theProxy
  refine .bind (.log (.bind (.read ?_)))
  rw [h.relay]
  refine .pure (.bind (h.registerRelay.mono fun x w₁ h₁ => ?_))
  obtain ⟨rfl, hd₁, h₁⟩ := h₁
  refine .bind (.read ?_)
  rw [h₁.proxy]
  refine .pure ((h₁.provide (q := .hover) (r := .hovering p) rfl).mono fun x w₂ h₂ => ?_)
  obtain ⟨rfl, hd₂, -, -, h₂⟩ := h₂
  exact ⟨rfl, trans_of Discreet hd₁ hd₂, h₂ rfl⟩

/-! ### Undoing -/

/-- The workbench without some providers. -/
def disposed (w : Workbench) (hs cs : List Registration) : Workbench :=
  { w with
    hovers := hs.foldl List.erase w.hovers
    completions := cs.foldl List.erase w.completions }

/-- Providers are taken away, one after the other. -/
theorem unregister_ends (hs cs : List Registration) (w : Workbench) :
    Ends (forIn (hs.map (Query.hover, ·) ++ cs.map (Query.completion, ·)) PUnit.unit fun x _ => do
      unregister x.1 x.2
      pure (ForInStep.yield PUnit.unit)) w fun x w' => x = .ok () ∧ w' = w.disposed hs cs := by
  induction hs generalizing w with
  | cons r hs ih =>
    rw [List.map_cons, List.cons_append, List.forIn_cons]
    exact fun j => ih { w with hovers := w.hovers.erase r } j
  | nil =>
    rw [List.map_nil, List.nil_append]
    induction cs generalizing w with
    | nil => exact .pure ⟨rfl, rfl⟩
    | cons r cs ih =>
      rw [List.map_cons, List.forIn_cons]
      exact fun j => ih { w with completions := w.completions.erase r } j

/-- The relay of the extension hears no more. -/
theorem unregisterRelay_ends (hn : w.extension.relay = some n) :
    Ends (unregisterRelay n) w fun x w' => x = .ok () ∧ Discreet w w' ∧
      w'.extension = w.extension ∧ w'.own = w.own.hear fun _ => [] := by
  have hlistens (k : Listener) : w.extension.listens k = decide (k = .relay n) := by
    simp [Extension.listens, hn]
  obtain ⟨hown, hothers⟩ := Roster.parts_hear (x := w.roster) (e := w.extension)
    (f := List.filter (· ≠ .relay n)) (g := fun _ => [])
    (fun ks => by
      refine List.filter_eq_nil_iff.2 fun k hk => ?_
      rw [hlistens, decide_eq_true_eq]
      simpa using (List.mem_filter.1 hk).2)
    (fun ks => by
      rw [List.filter_filter]
      exact List.filter_congr fun k _ => by simp [hlistens])
  have hsize : (w.relays.modify n fun r => { r with registered := false }).size = w.relays.size :=
    Array.size_modify ..
  unfold unregisterRelay onListeners setRegistered
  refine .change_bind (.change ⟨rfl, .of_roster hothers (fun hp => ⟨hp.proxies, fun k hk m hm => ?_⟩)
    rfl rfl, rfl, hown⟩)
  refine Nat.lt_of_lt_of_eq (hp.relays k ?_ m hm) hsize.symm
  have hsub (ks : List Listener) : ks.filter (· ≠ .relay n) ⊆ ks :=
    List.filter_sublist.subset
  simp only [Roster.hearers, List.mem_append] at hk ⊢
  exact hk.imp (.imp (.imp (@hsub _ k) (@hsub _ k)) (@hsub _ k)) (@hsub _ k)

/-- The workbench without the providers of the extension. -/
def withdrawn (w : Workbench) : Workbench :=
  { w.disposed w.own.hovers w.own.completions with
    extension := { w.extension with registrations := [] } }

theorem discreet_withdrawn : Discreet w w.withdrawn := by
  refine .of_roster (Roster.parts_dispose (x := w.roster) (e := w.extension)).2
    (fun hp => ⟨fun r hr => hp.proxies r ?_, hp.relays⟩) rfl rfl
  have hsub (xs : List Registration) :
      (xs.filter w.extension.provides).foldl List.erase xs ⊆ xs := by
    rw [Roster.foldl_erase_filter]
    exact List.filter_sublist.subset
  exact (List.mem_append.1 hr).elim (fun hr => List.mem_append_left _ (hsub _ hr))
    fun hr => List.mem_append_right _ (hsub _ hr)

theorem own_withdrawn : w.withdrawn.own = { w.own with hovers := [], completions := [] } :=
  (Roster.parts_dispose (x := w.roster) (e := w.extension)).1

/-- What a deactivation does once the relay hears no more. -/
def withdrawAll : Act Workbench Step := do
  let rs := (← Act.state).extension.registrations
  onExtension fun e => { e with registrations := [] }
  for (q, r) in rs do unregister q r
  Step.calling (onLink Link.disconnect) .stopped stopped

/-- **Everything that is registered is undone** before the language client is stopped. -/
theorem Accounted.deactivate (h : w.Accounted) {Q : Except Failure Step → Workbench → Prop}
    (hk : ∀ w', Discreet w w' → Stopping w.extension.config w' →
      Ends (Step.calling (onLink Link.disconnect) .stopped stopped) w' Q) :
    Ends deactivate w Q := by
  -- the relay hears no more, and what is left to be undone are the providers that are registered
  have hrest (w₁ : Workbench) (hd : Discreet w w₁) (he : w₁.extension = w.extension)
      (hown : w₁.own = w.own.hear fun _ => []) : Ends withdrawAll w₁ Q := by
    have hproviders : w₁.own.hovers = w.own.hovers ∧ w₁.own.completions = w.own.completions := by
      rw [hown]
      exact ⟨rfl, rfl⟩
    have hstopping : Stopping w.extension.config w₁.withdrawn := by
      refine ⟨?_, rfl, ?_⟩
      · show w₁.extension.config = _
        rw [he]
      · rw [own_withdrawn, hown]
        rfl
    unfold withdrawAll
    refine .read ?_
    rw [he, show w.extension.registrations = _ from h, ← hproviders.1, ← hproviders.2]
    unfold onExtension
    refine .change_bind (.bind ((unregister_ends _ _ _).mono fun x w₂ h₂ => ?_))
    obtain ⟨rfl, rfl⟩ := h₂
    exact hk w₁.withdrawn (trans_of Discreet hd discreet_withdrawn) hstopping
  unfold Workbench.deactivate
  refine .read ?_
  split
  · rename_i n hn
    refine .bind ((unregisterRelay_ends hn).mono fun x w₁ h₁ => ?_)
    obtain ⟨rfl, hd, he, hown⟩ := h₁
    exact hrest w₁ hd he hown
  · rename_i hn
    have hnone : w.extension.relay = none := Option.eq_none_iff_forall_ne_some.2 hn
    refine hrest w (refl_of Discreet w) rfl ?_
    have hlistens : w.extension.listens = fun _ => false := by
      funext k
      rw [Extension.listens, hnone]
      rfl
    unfold own Roster.own Roster.choose Roster.hear
    rw [hlistens]
    simp

/-- What is registered is of others, but for the end of the server. -/
theorem Stopping.parts (h : Stopping config w) : w.roster.own w.extension =
      .listening [] [] [] (w.roster.stopped.filter fun k => decide (k = .extension)) ∧
    w.roster.others w.extension =
      { w.roster with stopped := w.roster.stopped.filter fun k => !decide (k = .extension) } := by
  have hnone {α : Type} {p : α → Bool} {xs : List α} (hxs : xs.filter p = []) :
      ∀ a ∈ xs, p a = false := fun a ha => by simpa using List.filter_eq_nil_iff.1 hxs a ha
  have hhovers := hnone (congrArg Roster.hovers h.own_eq)
  have hcompletions := hnone (congrArg Roster.completions h.own_eq)
  have hopened := hnone (congrArg Roster.opened h.own_eq)
  have hchanged := hnone (congrArg Roster.changed h.own_eq)
  have hsaved := hnone (congrArg Roster.saved h.own_eq)
  have hclosed := hnone (congrArg Roster.closed h.own_eq)
  refine Roster.of_none (List.forall_mem_append.2 ⟨hhovers, hcompletions⟩) ?_
  simp only [Roster.hearers, List.forall_mem_append]
  exact ⟨⟨⟨hopened, hchanged⟩, hsaved⟩, hclosed⟩

/-- **An activation is forgotten.** -/
theorem Stopping.forgotten (h : Stopping config w) : Ends forgetActivation w fun x w' =>
    x = .ok () ∧ Discreet w w' ∧ Inactive config w' := by
  have hinactive (trackers : Array Tracker) : Inactive config { w with
      onStop := w.onStop.remove .extension
      trackers
      extension := { w.extension with
        tracker := none, relay := none, proxy := none, triggers := [] } } := by
    constructor
    · show ({ config := w.extension.config, registrations := w.extension.registrations } :
        Extension) = _
      rw [h.config_eq, h.registrations]
    · simp [Event.remove]
  have hdiscreet (trackers : Array Tracker) (hsize : trackers.size = w.trackers.size)
      (hempty : ∀ t : Nat, w.trackers[t]? = some {} → trackers[t]? = some {}) :
      Discreet w { w with
        onStop := w.onStop.remove .extension
        trackers
        extension := { w.extension with
          tracker := none, relay := none, proxy := none, triggers := [] } } := by
    refine ⟨?_, fun hp => ⟨hp.proxies, hp.relays⟩, Nat.le_of_eq hsize.symm, hempty, fun _ ht => ?_⟩
    · rw [(hinactive trackers).parts.2, others, h.parts.2]
      simp [roster, Event.remove]
    · cases ht
  unfold forgetActivation onExtension
  refine .change_bind (.read ?_)
  split
  · refine .bind ((clearTracker_ends _ _).mono fun x w' hw' => ?_)
    obtain ⟨rfl, rfl⟩ := hw'
    refine .change ⟨rfl, hdiscreet _ (by simp) fun t ht => ?_, hinactive _⟩
    rw [Array.getElem?_setIfInBounds]
    split
    · rename_i heq
      rw [← heq] at ht
      simp [(Array.getElem?_eq_some_iff.1 ht).1]
    · exact ht
  · exact .change ⟨rfl, hdiscreet _ rfl fun _ => id, hinactive _⟩

end Workbench

end EditorBridge
