/-
Nobody who waits is forgotten by a turn.

`Alive` is what holds of a link between two acts of the loop: it is in order, every activity
that goes on does what a client has to do, those who wait for readiness wait properly, and
the futures that were given away are not forgotten.  A job that was taken from the queue may
be all that is known of somebody, so it is kept in hand until it is done; and an activity
that has its turn is accounted for only afterwards.

The main result is that a turn brings the activity back to the others (`Alive.turned`).
-/
import EditorBridge.Proofs.Client.Waiting

namespace EditorBridge

open Act (Ends Keeps Reads)
open Resumption (All)

namespace Link

variable {l l' : Link} {hand : List Job} {own W : List TaskId} {F : List FutureId} {t u : TaskId}
  {g : Task → Task}

/-- Nobody is forgotten: not the activities but for some of their own, nor those of `W` who wait
for readiness, nor the futures `F`. -/
structure Alive (own W : List TaskId) (F : List FutureId) (hand : List Job) (l : Link) : Prop where
  orderly : l.Orderly
  waiters : ∀ t ∈ W, t < l.tasks.size
  active : ∀ t ∉ own, l.Active W hand t
  given : ∀ f ∈ F, f < l.loop.futures.size
  secured : ∀ f ∈ F, l.Secured f ∨ ∃ g, .call (.pass f) g ∈ hand

namespace Alive

/-- What carries those who wait keeps everybody alive. -/
theorem carried (h : l.Alive own W F hand) (hc : Carries [] l l') (hr : SameReady l l')
    (ho : l'.Orderly) (hF : ∀ f ∈ F, l.Secured f → l'.Secured f) : l'.Alive own W F hand where
  orderly := ho
  waiters t ht := Nat.lt_of_lt_of_le (h.waiters t ht) hc.tasks
  active t ht := (h.active t ht).mono hc hr h.waiters
  given f hf := Nat.lt_of_lt_of_le (h.given f hf) hc.loop.futures
  secured f hf := (h.secured f hf).imp (hF f hf) id

theorem served (h : l.Alive own W F hand) (hs : l.Serves l') : l'.Alive own W F hand := by
  obtain ⟨ho, hb⟩ := hs h.orderly
  exact h.carried hb.toCarries (fun r hr => .inr (hb.client.2.2.1.trans hr)) ho fun _ _ => hb.secured

theorem rested (h : l.Alive own W F hand) (hg : ∀ x, (g x).outcome = x.outcome) :
    (l.rested t g).Alive (t :: own) W F hand where
  orderly := h.orderly.rested hg
  waiters u hu := by simpa [Link.rested] using h.waiters u hu
  active u hu := by
    exact (h.active u (List.not_mem_of_not_mem_cons hu)).rested (List.ne_of_not_mem_cons hu)
  given := h.given
  secured := h.secured

/-- Activities need not be accounted for. -/
theorem enter {own' : List TaskId} (h : l.Alive own W F hand) (hown : ∀ u ∈ own, u ∈ own') :
    l.Alive own' W F hand where
  orderly := h.orderly
  waiters := h.waiters
  active u hu := h.active u fun hmem => hu (hown u hmem)
  given := h.given
  secured := h.secured

/-- Nor need those who wait. -/
theorem forget (h : l.Alive own W F hand) : l.Alive own [] [] hand where
  orderly := h.orderly
  waiters := nofun
  active u hu := ⟨(h.active u hu).tame, nofun⟩
  given := nofun
  secured := nofun

/-- An activity comes back to the others. -/
theorem leave (h : l.Alive (t :: own) W F hand) (ht : l.Active W hand t) : l.Alive own W F hand where
  orderly := h.orderly
  waiters := h.waiters
  active u hu := by
    by_cases hut : u = t
    · exact hut ▸ ht
    · exact h.active u (List.not_mem_cons_of_ne_of_not_mem hut hu)
  given := h.given
  secured := h.secured

end Alive

/-- A job that is done has told those whom it concerns, but for activities that have their turn. -/
def Informed (own : List TaskId) (l : Link) : Job → Prop
  | .step t | .call (.wake t) _ => t ∈ own
  | .call (.copy f) _ | .call (.pass f) _ => f < l.loop.futures.size → l.loop.done f = true
  | _ => True

/-- A future that somebody asks about exists. -/
theorem lt_of_asks {f : FutureId} {k : Callback} (hl : l.loop.Sane) (h : l.loop.Asks f k) :
    f < l.loop.futures.size := by
  rcases h with ⟨fut, hfut, -⟩ | hj
  · exact (Array.getElem?_eq_some_iff.1 hfut).1
  · obtain ⟨e, he⟩ := Option.isSome_iff_exists.1 (hl.jobs f k hj).1
    exact lt_of_ending? he

/-- Jobs that are done need not be kept. -/
theorem Alive.put (h : l.Alive own W F hand) (hd : ∀ j ∈ hand, l.Informed own j) : l.Alive own W F [] where
  orderly := h.orderly
  waiters := h.waiters
  active t ht := by
    refine ⟨(h.active t ht).tame, fun hmem => ?_⟩
    cases (h.active t ht).waits hmem with
    | ended ho => exact .ended ho
    | queued hr hj => exact .queued hr (.inl (hj.resolve_right fun hj => ht (hd _ hj)))
    | asleep hr hw hc =>
      have hasks := hw.resolve_right fun hw => ht (hd _ hw)
      refine .asleep hr (.inl hasks) ?_
      rcases hc with hc | ⟨r, hcopy | hcopy, hc⟩
      · exact .inl hc
      · exact .inr ⟨r, .inl hcopy, hc⟩
      · exact .inl (hd _ hcopy (lt_of_asks h.orderly.sane hasks))
  given := h.given
  secured f hf := by
    rcases h.secured f hf with hs | ⟨g, hg⟩
    · exact .inl hs
    · exact .inl (.inl (.inl (.inl (hd _ hg (h.given f hf)))))

end Link

namespace Workbench

open Link (Alive)

variable {w w' : Workbench} {l' : Link} {hand : List Job} {own W : List TaskId} {F : List FutureId}
  {t : TaskId}

/-- What is known of the steps of an activity in its turn. -/
def Proper (W : List TaskId) (t : TaskId) (w : Workbench) (x : Except Failure Step) (w₁ : Workbench) :
    Prop :=
  Serves w w₁ ∧ (∀ s, x = .ok s → All Resumption.ofClient s.rest) ∧
    (t ∈ W → Link.Sleeps w.link.client.ready x w₁.link)

/-- An activity that has ended does nothing. -/
theorem stepTask_over {Q : Except Failure Step → Workbench → Prop} (h : w.link.Over t) :
    Ends (stepTask t) w fun _ => Turned t Q w := by
  have hd : w.link.loop.done (w.link.tasks.getD t default).outcome = true := h
  refine .read (.read ?_)
  rw [if_pos hd]
  exact .pure (.idle hd rfl)

/-- **A turn** of an activity that is alive goes on with what is proper. -/
theorem stepTask_proper (h : w.link.Active W hand t) (hw : w.link.Orderly)
    (hready : t ∈ W → ∀ r, w.link.client.ready = some r → r < w.link.loop.futures.size) :
    Ends (stepTask t) w fun _ => Turned t (Proper W t w) w := by
  by_cases hover : w.link.Over t
  · exact stepTask_over hover
  refine stepTask_turned fun r w₁ h₁ => ?_
  have hb := (h₁.2 hw).2
  have hsleeps (hmem : t ∈ W) : Ends (resumeAll (w.link.rest t) r) w₁
      fun x w₂ => Link.Sleeps w.link.client.ready x w₂.link := by
    cases h.waits hmem with
    | ended h => exact absurd h hover
    | queued hr hj =>
      have hsame := hb.client.2.2.1
      rw [hr, ← hsame]
      exact await_ends r fun f hf => Nat.lt_of_lt_of_le (hready hmem f (hsame ▸ hf)) hb.loop.futures
    | asleep hr hw hc =>
      rw [hr]
      exact reply_ends r _ w₁
  intro j
  obtain ⟨hserves, honly⟩ := resumeAll_serves (h.tame.resolve_left hover) r w₁ j
  exact ⟨trans_of Serves h₁ hserves, honly, fun hmem => hsleeps hmem j⟩

/-- What an activity has left to do after a turn is what it said. -/
theorem tame_rested {l : Link} {g : Task → Task} {ks : List Resumption}
    (hc : Link.Carries [] (l.rested t g) l') (hg : ∀ x, (g x).rest = ks)
    (hks : All Resumption.ofClient ks) :
    All Resumption.ofClient (l'.rest t) ∧ (t < l.tasks.size → l'.rest t = ks) := by
  have hsize : (l.rested t g).tasks.size = l.tasks.size := Array.size_modify ..
  have hrest (ht : t < l.tasks.size) : l'.rest t = ks := by
    rw [hc.rest (hsize.symm ▸ ht), Link.rest, Link.getD_rested_self ht, hg]
  refine ⟨?_, hrest⟩
  by_cases ht : t < l.tasks.size
  · exact hrest ht ▸ hks
  · exact hc.begun t (hsize ▸ Nat.le_of_not_lt ht)

/-- **After a turn** nobody is forgotten, whatever the activity did in it. -/
theorem Turned.alive {j : Job} (hturn : Turned t (Proper W t w) w w')
    (h : w.link.Alive own W F [j]) (hj : ∀ l, Link.Informed (t :: own) l j) :
    w'.link.Alive own W F [] := by
  have hput (l : Link) : ∀ j' ∈ [j], l.Informed (t :: own) j' := List.forall_mem_singleton.2 (hj l)
  cases hturn with
  | idle hd heq =>
    subst heq
    exact ((h.enter fun _ => List.mem_cons_of_mem t).put (hput _)).leave ⟨.inl hd, fun _ => .ended hd⟩
  | @ended r w₁ hQ hr hs hd =>
    have hserves := trans_of Serves hQ.1 hs
    have hc := (hserves.2 h.orderly).2.toCarries
    refine (((h.served hserves.2).enter fun _ => List.mem_cons_of_mem t).put (hput _)).leave ?_
    by_cases ht : t < w.link.tasks.size
    · have hlt := Nat.lt_of_lt_of_le (h.orderly.outcomes t ht) (hQ.1.2 h.orderly).2.loop.futures
      have hover : w'.link.Over t := by
        rw [Link.Over, (hc.kept t ht).2]
        exact hd hlt
      exact ⟨.inl hover, fun _ => .ended hover⟩
    · exact ⟨.inr (hc.begun t (Nat.le_of_not_lt ht)), fun hmem => absurd (h.waiters t hmem) ht⟩
  | @waits f ks w₁ g hQ hg hs hwoken =>
    obtain ⟨hserves, honly, hsleeps⟩ := hQ
    have hrested := (h.served hserves.2).rested (t := t) fun x => (hg x).2
    have hb := (hs.2 hrested.orderly).2
    obtain ⟨htame, hrest⟩ := tame_rested hb.toCarries (fun x => (hg x).1) (honly _ rfl)
    refine ((hrested.served hs.2).put (hput _)).leave ⟨.inr htame, fun hmem => ?_⟩
    -- Somebody who waits for readiness is woken by a future that stands for it.
    obtain ⟨rfl, hlt, r, hr, hasks⟩ := hsleeps hmem
    have ht := Nat.lt_of_lt_of_le (h.waiters t hmem) (hserves.2 h.orderly).2.tasks
    have hsame : w'.link.client.ready = w.link.client.ready :=
      hb.client.2.2.1.trans (hserves.2 h.orderly).2.client.2.2.1
    refine .asleep (hrest ht) (.inl (hwoken hrested.orderly hlt)) ?_
    rcases hb.loop.asks r (.copy f) hasks with hasks | hidle
    · exact .inr ⟨r, .inl hasks, .inr (hsame.trans hr)⟩
    · exact .inl hidle
  | @turns ks w₁ g hQ hg hs hqueued =>
    obtain ⟨hserves, honly, hsleeps⟩ := hQ
    have hrested := (h.served hserves.2).rested (t := t) fun x => (hg x).2
    have hb := (hs.2 hrested.orderly).2
    have htame := (tame_rested hb.toCarries (fun x => (hg x).1) (honly _ rfl)).1
    exact ((hrested.served hs.2).put (hput _)).leave ⟨.inr htame, fun hmem => (hsleeps hmem).elim⟩

end Workbench

end EditorBridge
