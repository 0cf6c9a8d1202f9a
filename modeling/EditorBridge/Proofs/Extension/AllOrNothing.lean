/-
Activation is all or nothing.

Calls that switch the extension on and off come one after the other.  A call goes on as often as
the language client lets it, and whatever the client came to; others do in the meantime
what they like with their own part of what is registered (`Aside`).  A course of calls (`Course`)
keeps account of that part.  At the end of each call the rest is all of an activation or
nothing of it (`Course.allOrNothing`).

An activation asks for the options of formatting after it has made its tracker and before it
can undo anything.  If the width of a tabulator is none that the protocol knows, it fails there
and leaves the extension half active (`not_allOrNothing`).
-/
import EditorBridge.Proofs.Editor.Deeds
import EditorBridge.Proofs.Extension.Switching

namespace EditorBridge

open Act (Ends Gives Keeps)
open Resumption (Framed)

namespace Workbench

variable {config : Value} {w w' w'' : Workbench} {since : Nat}

/-- An extension that is active is not inactive. -/
theorem Engaged.not_inactive (h : w.Engaged config since) : ¬w.Inactive config := by
  intro hi
  obtain ⟨t, n, p, -, hs⟩ := h
  have htracker := hs.tracker
  rw [hi.extension] at htracker
  cases htracker

/-! ### What others do in the meantime -/

/-- Others leave the extension alone, and what it has registered.  They may register and withdraw
what they like. -/
structure Aside (w w' : Workbench) : Prop where
  extension : w'.extension = w.extension
  own : w'.own = w.own
  present : Present w → Present w'
  trackers : w.trackers.size ≤ w'.trackers.size
  relays : ∀ n, w.extension.relay = some n → n < w.relays.size →
    n < w'.relays.size ∧ w'.relays.getD n default = w.relays.getD n default
  proxies : ∀ p, w.extension.proxy = some p → p < w.proxies.size →
    p < w'.proxies.size ∧ w'.proxies.getD p default = w.proxies.getD p default

instance : IsPreorder Workbench Aside where
  refl _ := ⟨rfl, rfl, id, Nat.le_refl _, fun _ _ h => ⟨h, rfl⟩, fun _ _ h => ⟨h, rfl⟩⟩
  trans w w₁ w₂ h h' := by
    refine ⟨h'.extension.trans h.extension, h'.own.trans h.own, h'.present ∘ h.present,
      Nat.le_trans h.trackers h'.trackers, fun n hn hlt => ?_, fun p hp hlt => ?_⟩
    · obtain ⟨hlt₁, heq₁⟩ := h.relays n hn hlt
      obtain ⟨hlt₂, heq₂⟩ := h'.relays n (h.extension ▸ hn) hlt₁
      exact ⟨hlt₂, heq₂.trans heq₁⟩
    · obtain ⟨hlt₁, heq₁⟩ := h.proxies p hp hlt
      obtain ⟨hlt₂, heq₂⟩ := h'.proxies p (h.extension ▸ hp) hlt₁
      exact ⟨hlt₂, heq₂.trans heq₁⟩

namespace Aside

/-- Nothing that has to do with the extension is touched. -/
theorem of_eq (he : w'.extension = w.extension) (hr : w'.roster = w.roster)
    (ht : w.trackers.size ≤ w'.trackers.size) (hrelays : w'.relays = w.relays)
    (hproxies : w'.proxies = w.proxies) : Aside w w' where
  extension := he
  own := by rw [Workbench.own, Workbench.own, he, hr]
  present h := ⟨by rw [hr, hproxies]; exact h.proxies, by rw [hr, hrelays]; exact h.relays⟩
  trackers := ht
  relays _ _ h := by rw [hrelays]; exact ⟨h, rfl⟩
  proxies _ _ h := by rw [hproxies]; exact ⟨h, rfl⟩

theorem inactive (h : Aside w w') (hi : w.Inactive config) : w'.Inactive config := by
  refine ⟨h.extension.trans hi.extension, fun hk => ?_⟩
  have hnone : w'.own.stopped = [] := by rw [h.own, hi.parts.1]; rfl
  simpa using List.filter_eq_nil_iff.1 hnone _ hk

theorem stage {t n p : Nat} {hs cs : List Registration} {ls : List Listener} (h : Aside w w')
    (hw : w.Stage config t n p hs cs ls) : w'.Stage config t n p hs cs ls := by
  obtain ⟨hn, hrelay⟩ := h.relays n hw.relay hw.relays
  obtain ⟨hp, hproxy⟩ := h.proxies p hw.proxy hw.proxies
  have he := h.extension
  exact ⟨he ▸ hw.1, he ▸ hw.2, he ▸ hw.3, he ▸ hw.4, he ▸ hw.5, h.own.trans hw.6, hn, hp,
    hrelay ▸ hw.9, hproxy ▸ hw.10, hrelay ▸ hw.11⟩

theorem stopping (h : Aside w w') (hw : w.Stopping config) : w'.Stopping config := by
  have he := h.extension
  exact ⟨he ▸ hw.1, he ▸ hw.2, by rw [h.own]; exact hw.3⟩

theorem engaged (h : Aside w w') (hw : w.Engaged config since) : w'.Engaged config since := by
  obtain ⟨t, n, p, hle, hs⟩ := hw
  exact ⟨t, n, p, hle, by rw [h.extension]; exact h.stage hs⟩

/-- What a call waits for stays as it is: whatever comes of it, the stage is the same. -/
theorem pending (h : Aside w w') {s : Switch} {fs : List Resumption}
    (hw : ∀ r, Pending config since w s fs r) (r : Except Failure Reply) :
    Pending config since w' s fs r := by
  -- a call that waits has not come to anything, so it does not matter yet what it comes to
  have hnot {r' : Reply} {f : Failure} (hok : Pending config since w .on [] (.ok r'))
      (herror : Pending config since w .on [] (.error f)) : False := by
    cases hok with
    | undone hu => cases hu
    | active he =>
      cases herror with
      | undone hu => cases hu
      | refused hi => exact he.not_inactive hi
  cases hw r with
  | active => exact (hnot (hw (.ok .nothing)) (hw (.error .cancelled))).elim
  | refused => exact (hnot (hw (.ok .nothing)) (hw (.error .cancelled))).elim
  | undone hu hi => exact .undone hu (h.inactive hi)
  | stopping hu hs => exact .stopping hu (h.stopping hs)
  | starting ht hs => exact .starting ht (h.stage hs)
  | waiting ht hs => exact .waiting ht (h.stage hs)

end Aside

/-! ### What happens to documents is aside -/

instance aside_onLink {α : Type} (a : Act Link α) : Keeps Aside (onLink a) :=
  ⟨fun _ => .of_eq rfl rfl (Nat.le_refl _) rfl rfl⟩

instance aside_onTracker {α : Type} (t : Nat) (a : Act (Tracker × Link) α) :
    Keeps Aside (onTracker t a) :=
  ⟨fun _ => .of_eq rfl rfl (Nat.le_of_eq (Array.size_setIfInBounds ..).symm) rfl rfl⟩

/-- Documents and notes have nothing to do with the extension. -/
theorem aside_rewritten (h : Rewritten w w') : Aside w w' := by
  obtain ⟨_, _, rfl⟩ := h
  exact .of_eq rfl rfl (Nat.le_refl _) rfl rfl

instance aside_fire (e : Event Listener) (hear : Listener → Act Workbench Unit)
    [∀ k, Keeps Aside (hear k)] : Keeps Aside (fire e hear) := by
  have hdispatch : Keeps Aside (e.dispatch (fun _ => return true) hear) := by
    unfold Event.dispatch
    infer_instance
  refine .andThen fun rs => .of_ends fun w => (logFailures_ends logger rs w).mono fun _ _ h => ?_
  exact h.2 ▸ refl_of Aside w

/-- Everybody who hears of a document does what concerns documents only. -/
instance aside_tell (δ : Deed) : Keeps Aside δ.tell := by
  have hobserve (n : Nat) (o : Occasion) (d : DocumentId) : Keeps Aside (observe n o d) :=
    .of_ends fun w => (observe_ends n o d w).mono fun _ w' h => by
      obtain ⟨_, rfl⟩ := h
      exact .of_eq rfl rfl (Nat.le_refl _) rfl rfl
  have hrelay (n : Nat) (call : String) (argument : Value)
      (a : Relay → Act (Tracker × Link) Unit) : Keeps Aside (relay n call argument a) := by
    unfold relay
    infer_instance
  have hhear (k : Listener) : Keeps Aside (δ.hear k) := by
    obtain ⟨o, d, _, cs⟩ := δ
    cases o <;> cases k <;> simp only [Deed.hear, hearOpened, hearChanged, hearSaved, hearClosed] <;>
      infer_instance
  unfold Deed.tell
  infer_instance

/-- **What happens to documents** is aside. -/
theorem act_aside {x : Operation} (hx : x.OfDocuments)
    (hd : ∀ n d, x.name? = some n → w.Names d n → d < w.documents.size) :
    Ends x.act w fun _ => Aside w := by
  refine (Operation.act_does hx hd).mono fun r w' h => ?_
  rcases h with ⟨δ, -, s, hs, -⟩ | ⟨-, d, text, rfl⟩
  · refine trans_of Aside (aside_rewritten ?_) (hs.elim ((aside_tell δ).ends _))
    obtain ⟨o, d, result, cs⟩ := δ
    cases o <;> exact ⟨_, _, rfl⟩
  · exact aside_rewritten ⟨_, _, rfl⟩

/-- Whatever happens to documents, the client is told nothing. -/
def Silent (w : Workbench) : Prop := ∀ x : Operation, x.OfDocuments →
  (∀ n d, x.name? = some n → w.Names d n → d < w.documents.size) →
  Ends x.act w fun _ w' => w'.link = w.link

/-- **Listeners from outside** tell the client nothing. -/
theorem silent_of_external (h : ∀ k ∈ w.roster.hearers, ∃ n, k = .external n) : w.Silent := by
  intro x hx hd
  refine (Operation.act_does hx hd).mono fun r w' hw' => ?_
  rcases hw' with ⟨δ, -, s, hs, -⟩ | ⟨-, d, text, rfl⟩
  · obtain ⟨o, d, result, cs⟩ := δ
    obtain ⟨hput, hevent⟩ : ((Deed.mk o d result cs).put w).link = w.link ∧
        ∀ k ∈ ((Deed.mk o d result cs).event ((Deed.mk o d result cs).put w)).listeners,
          k ∈ w.roster.hearers := by
      simp only [Roster.hearers, List.mem_append]
      cases o with
      | opened => exact ⟨rfl, fun k hk => .inl (.inl (.inl hk))⟩
      | changed => exact ⟨rfl, fun k hk => .inl (.inl (.inr hk))⟩
      | saved => exact ⟨rfl, fun k hk => .inl (.inr hk)⟩
      | closed => exact ⟨rfl, fun k hk => .inr hk⟩
    refine hs.elim (Q := fun _ w' => w'.link = w.link) (.read (.bind ?_))
    refine (Event.callEach_stays (I := fun w' => w'.link = w.link) (fun k hk w₁ h₁ => ?_) hput).mono
      fun r w₁ h₁ => ?_
    · obtain ⟨n, rfl⟩ := h k (hevent k hk)
      cases o <;> exact (observe_ends n _ d w₁).mono fun _ w₂ h₂ => by
        obtain ⟨_, rfl⟩ := h₂
        exact h₁
    · cases r with
      | error f => exact h₁
      | ok rs => exact (logFailures_ends logger rs w₁).mono fun _ _ h₂ => h₂.2 ▸ h₁
  · rfl

/-! ### Courses of calls -/

/-- How the calls stand: none was made yet, or the last one has come to something, or it waits and
has so much left to do.  There were so many trackers when it began. -/
inductive Standing where
  | fresh
  | ended (s : Switch) (since : Nat) (r : Except Failure Reply)
  | underway (s : Switch) (since : Nat) (ks : List Resumption)

namespace Standing

/-- How a call stands after a step of it. -/
def after (s : Switch) (since : Nat) : Except Failure Step → Standing
  | .error f => ended s since (.error f)
  | .ok (.done r) => ended s since (.ok r)
  | .ok (.wait _ ks) | .ok (.turn ks) => underway s since ks

/-- No call waits. -/
def AtRest : Standing → Prop
  | underway .. => False
  | _ => True

/-- The last call was to switch the extension on, and it succeeded. -/
def On : Standing → Prop
  | ended .on _ (.ok _) => True
  | _ => False

/-- What holds while the calls stand so. -/
def Holds (config : Value) (w : Workbench) : Standing → Prop
  | ended .on since (.ok _) => w.Engaged config since
  | underway s since ks => since ≤ w.trackers.size ∧ Framed [] ks ∧
    ∀ r, Pending config since w s (ks.filter Resumption.own) r
  | _ => w.Inactive config

end Standing

/-- A step of a call.  A call begins when no other waits.  One that waits goes on with whatever
comes of what it waits for: the client may have things to do first, or whoever calls it
hears at once what came of it. -/
inductive Goes (w : Workbench) : Standing → Workbench → Standing → Prop
  | begins {φ : Standing} (hφ : φ.AtRest) (s : Switch) {r : Except Failure Step} {w' : Workbench}
    (h : Gives s.act w r w') : Goes w φ w' (.after s w.trackers.size r)
  | goesOn {s : Switch} {since : Nat} {skipped ks : List Resumption}
    (hs : skipped.filter Resumption.own = []) {x : Except Failure Reply}
    {r : Except Failure Step} {w' : Workbench} (h : Gives (resumeAll ks x) w r w') :
    Goes w (.underway s since (skipped ++ ks)) w' (.after s since r)

/-- A course of calls, from an extension that was never active.  It tells what others have
registered. -/
inductive Course (config : Value) : Roster → Workbench → Standing → Prop
  | fresh {w : Workbench} (hi : w.Inactive config) (hp : Present w) :
    Course config w.roster w .fresh
  | goes {o : Roster} {w w' : Workbench} {φ φ' : Standing} (h : Course config o w φ)
    (hg : Goes w φ w' φ') : Course config o w' φ'
  | meanwhile {o : Roster} {w w' : Workbench} {φ : Standing} (h : Course config o w φ)
    (ha : Aside w w') : Course config w'.others w' φ

variable {o : Roster} {φ φ' : Standing} {v : Value}

theorem Standing.Holds.aside (hφ : φ.Holds config w) (h : Aside w w') : φ.Holds config w' := by
  cases φ with
  | fresh => exact h.inactive hφ
  | ended s since r =>
    cases s with
    | off => exact h.inactive hφ
    | on =>
      cases r with
      | ok => exact h.engaged hφ
      | error => exact h.inactive hφ
  | underway s since ks =>
    obtain ⟨hsince, hks, hpending⟩ := hφ
    exact ⟨Nat.le_trans hsince h.trackers, hks, h.pending hpending⟩

/-- How a step lands is how the call stands then. -/
theorem Standing.Holds.of_lands {s : Switch} {r : Except Failure Step} {w₀ : Workbench}
    (h : Lands (Due config since w₀ s) [] r w) : (after s since r).Holds config w := by
  have hover {x : Except Failure Reply} (hx : Due config since w₀ s [] x w) :
      (ended s since x).Holds config w := by
    cases hx.pending with
    | active he => exact he
    | refused hi => exact hi
    | undone hu hi =>
      cases hu
      exact hi
  have hunderway {ks : List Resumption} (hks : Framed [] ks ∧
      ∀ x, Due config since w₀ s (ks.filter Resumption.own ++ []) x w) :
      (underway s since ks).Holds config w := by
    refine ⟨(hks.2 (.ok .nothing)).since_le, hks.1, fun x => ?_⟩
    have hx := (hks.2 x).pending
    rwa [List.append_nil] at hx
  match r, h with
  | .error f, h => exact hover h
  | .ok (.done x), h => exact hover h
  | .ok (.wait f ks), h => exact hunderway h
  | .ok (.turn ks), h => exact hunderway h

/-- What a step that has landed leaves to the others, and what is new. -/
theorem Lands.elim {s : Switch} {r : Except Failure Step} {w₀ : Workbench}
    (h : Lands (Due config since w₀ s) [] r w) : Discreet w₀ w ∧ Present w ∧
      ((Standing.after s since r).On → w.extension.triggers = Link.triggersOf w.link.serverSaid) := by
  have hover {x : Except Failure Reply} (hx : Due config since w₀ s [] x w) :
      Discreet w₀ w ∧ Present w ∧
        ((Standing.ended s since x).On → w.extension.triggers = Link.triggersOf w.link.serverSaid) := by
    refine ⟨hx.discreet, hx.present, fun hon => ?_⟩
    cases hx.pending with
    | active _ ht => exact ht
    | refused => cases hon
    | undone hu =>
      cases hu
      cases hon
  match r, h with
  | .error f, h => exact hover h
  | .ok (.done x), h => exact hover h
  | .ok (.wait f ks), h => exact ⟨(h.2 (.ok .nothing)).discreet, (h.2 (.ok .nothing)).present, nofun⟩
  | .ok (.turn ks), h => exact ⟨(h.2 (.ok .nothing)).discreet, (h.2 (.ok .nothing)).present, nofun⟩

/-- **A step of a call** lands where it should. -/
theorem Goes.lands
    (hv : Relay.formattingOptions (Config.tabSize config) (Config.insertSpaces config) = .ok v)
    (hg : Goes w φ w' φ') (hp : Present w) (hφ : φ.Holds config w) : ∃ s since r,
      φ' = .after s since r ∧ Lands (Due config since w s) [] r w' := by
  cases hg with
  | begins hrest s h =>
    refine ⟨s, _, _, rfl, h.elim (act_lands hv hp ?_ s)⟩
    cases φ with
    | fresh => exact .inl hφ
    | underway => cases hrest
    | ended s since r =>
      cases s with
      | off => exact .inl hφ
      | on =>
        cases r with
        | ok => exact .inr ⟨_, hφ⟩
        | error => exact .inl hφ
  | @goesOn s since skipped ks hs x r w' h =>
    obtain ⟨hsince, hks, hpending⟩ := hφ
    rw [List.filter_append, hs, List.nil_append] at hpending
    refine ⟨s, _, _, rfl, h.elim ?_⟩
    exact resumeAll_lands (fun k ks r w hk h => resume_lands hv hk h) hks.of_append
      ⟨refl_of Discreet w, hp, hsince, hpending x⟩

/-- In a course it is known what others have registered, and how far the extension is. -/
theorem Course.holds
    (hv : Relay.formattingOptions (Config.tabSize config) (Config.insertSpaces config) = .ok v)
    (h : Course config o w φ) : w.others = o ∧ Present w ∧ φ.Holds config w := by
  induction h with
  | fresh hi hp => exact ⟨hi.parts.2, hp, hi⟩
  | goes h hg ih =>
    obtain ⟨ho, hp, hφ⟩ := ih
    obtain ⟨s, since, r, rfl, hl⟩ := hg.lands hv hp hφ
    obtain ⟨hd, hp', -⟩ := hl.elim
    exact ⟨hd.others.trans ho, hp', .of_lands hl⟩
  | meanwhile h ha ih =>
    obtain ⟨-, hp, hφ⟩ := ih
    exact ⟨rfl, ha.present hp, hφ.aside ha⟩

/-- **Activation is all or nothing.**  Once a call is over, the extension is active if it was to be
switched on and that succeeded.  Otherwise it has nothing, only others are registered, and if
none of these is a relay then nothing that happens to documents is told to the client.  The others
keep their place all the time.  A tracker that a step brings about is empty, and an activation that
succeeds uses the characters that the server asked for. -/
theorem Course.allOrNothing
    (hv : Relay.formattingOptions (Config.tabSize config) (Config.insertSpaces config) = .ok v)
    (h : Course config o w φ) :
    w.others = o ∧
      (match φ with
        | .underway .. => True
        | .ended .on since (.ok _) => w.Engaged config since
        | _ => w.Inactive config ∧ w.roster = o ∧
          ((∀ k ∈ o.hearers, ∃ n, k = .external n) → w.Silent)) ∧
      ∀ w' φ', Goes w φ w' φ' →
        (∀ t, w'.extension.tracker = some t →
          w.extension.tracker = some t ∨ w.trackers.size ≤ t ∧ w'.trackers[t]? = some {}) ∧
        (φ'.On → w'.extension.triggers = Link.triggersOf w'.link.serverSaid) := by
  obtain ⟨ho, hp, hφ⟩ := h.holds hv
  refine ⟨ho, ?_, fun w' φ' hg => ?_⟩
  · have hnothing (hi : w.Inactive config) : w.Inactive config ∧ w.roster = o ∧
        ((∀ k ∈ o.hearers, ∃ n, k = .external n) → w.Silent) := by
      have hroster : w.roster = o := hi.parts.2.symm.trans ho
      exact ⟨hi, hroster, fun hext => silent_of_external (hroster ▸ hext)⟩
    cases φ with
    | fresh => exact hnothing hφ
    | underway => trivial
    | ended s since r =>
      cases s with
      | off => exact hnothing hφ
      | on =>
        cases r with
        | ok => exact hφ
        | error => exact hnothing hφ
  · obtain ⟨s, since, r, rfl, hl⟩ := hg.lands hv hp hφ
    obtain ⟨hd, -, ht⟩ := hl.elim
    exact ⟨hd.tracker, ht⟩

/-- An activation while somebody else shows hovers, listens to what is saved and hears of the end
of the server. -/
theorem Course.allOrNothing_crowd :
    let crowd : Workbench :=
      { link := { recording := true }, hovers := [⟨everything, .external 0, []⟩]
        onSave := ⟨[.external 0]⟩, onStop := ⟨[.observer]⟩ }
    ∃ w, Course Config.defaults crowd.roster w (.ended .on 0 (.ok (.wire (.raw .null)))) ∧
      w.others = crowd.roster ∧ w.Engaged Config.defaults 0 := by
  intro crowd
  have hi : crowd.Inactive Config.defaults := ⟨rfl, by decide⟩
  have hp : Present crowd := by
    constructor
    · intro r hr p hrp
      rw [List.mem_singleton.1 hr] at hrp
      cases hrp
    · intro k hk n hkn
      rw [List.mem_singleton.1 hk] at hkn
      cases hkn
  obtain ⟨v, hv⟩ : ∃ v, Relay.formattingOptions (Config.tabSize Config.defaults)
      (Config.insertSpaces Config.defaults) = .ok v := ⟨_, rfl⟩
  have hbegins : Goes crowd .fresh (Switch.on.act ⟨{}, crowd⟩).2.state
      (.after .on 0 (.ok (.done (.wire (.raw .null))))) :=
    .begins (φ := .fresh) trivial .on ⟨{}, rfl, rfl⟩
  have hc := Course.goes (.fresh hi hp) hbegins
  obtain ⟨ho, he, -⟩ := Course.allOrNothing hv hc
  exact ⟨_, hc, ho, he⟩

/-! ### Half an activation -/

/-- **An activation that cannot say how documents are formatted** fails, and its tracker is left. -/
theorem tracedActivate_fails {f : Failure}
    (hf : Relay.formattingOptions (Config.tabSize config) (Config.insertSpaces config) = .error f)
    (hi : w.Inactive config) :
    Ends tracedActivate w fun r w' => r = .error f ∧ w' = w.withTracker := by
  rw [← show w.extension.config = config from congrArg Extension.config hi.extension] at hf
  have hsetUp : Ends setUp w fun r w' => r = .error f ∧ w' = w.withTracker := by
    refine .bind (.log (.read ?_))
    refine .bind (.read (.change_bind (.pure (.change_bind (.bind (.ofExcept ?_))))))
    rw [show Relay.formattingOptions _ _ = .error f from hf]
    exact ⟨rfl, rfl⟩
  unfold tracedActivate activate startUp
  refine .recorded (Q := fun r w' => r = .error f ∧ w' = w.withTracker) (.read ?_)
    (fun _ _ => id) (fun _ _ _ h => nomatch h.1) fun _ _ h => nomatch h.1
  rw [if_neg (by rw [hi.extension]; exact Bool.false_ne_true)]
  refine .bind (hsetUp.mono fun r w' h => ?_)
  obtain ⟨rfl, rfl⟩ := h
  exact ⟨rfl, rfl⟩

/-- The configuration in which nothing but the width of a tabulator is set. -/
def indented (width : Int) : Value := .record Config.configuration.name
  [("server", Config.defaultsOf Config.serverSection),
    ("documents", Config.defaultsOf Config.documentsSection),
    ("formatting", .record Config.formattingSection.name
      [("on_save", .bool true), ("tab_size", .int width), ("insert_spaces", .bool true)]),
    ("client", Config.defaultsOf Config.clientSection)]

/-- After an activation with a negative width the extension is neither active nor inactive. -/
theorem not_allOrNothing : ∃ w f,
    Course (indented (-1)) ({} : Workbench).roster w (.ended .on 0 (.error f)) ∧
      w.extension.tracker = some 0 ∧ w.extension.relay = none ∧
      ¬w.Inactive (indented (-1)) ∧ ∀ n, ¬w.Engaged (indented (-1)) n := by
  let w : Workbench := { extension := { config := indented (-1) } }
  obtain ⟨f, hf⟩ : ∃ f, Relay.formattingOptions (Config.tabSize (indented (-1)))
      (Config.insertSpaces (indented (-1))) = .error f := ⟨_, rfl⟩
  have hi : w.Inactive (indented (-1)) := ⟨rfl, List.not_mem_nil⟩
  have hp : Present w := ⟨fun _ h => absurd h List.not_mem_nil, fun _ h => absurd h List.not_mem_nil⟩
  have hc : Course (indented (-1)) w.roster w .fresh := .fresh hi hp
  have hgives : Gives Switch.on.act w (.error f) w.withTracker :=
    ⟨{}, tracedActivate_fails hf hi {}⟩
  refine ⟨w.withTracker, f, hc.goes (.begins (φ := .fresh) trivial .on hgives), rfl, rfl, ?_, ?_⟩
  · intro h
    cases congrArg Extension.tracker h.extension
  · rintro n ⟨t, m, p, -, hs⟩
    cases hs.relay

end Workbench

end EditorBridge
