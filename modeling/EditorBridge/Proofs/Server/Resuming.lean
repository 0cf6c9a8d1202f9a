/-
What an activity has left to do, one thing after the other.

An activity that has its turn goes on until it has to wait.  All of it belongs to the same
turn, and a turn says for which ends the activity is about to run server processes: before
each thing these are the ends of all that is left, and so they are afterwards
(`resumeAll_ends`).  The turn is over when what is left is remembered, or when nothing is.

What is done in a turn may begin a start, and if it does, that is the last thing that is
done in it.  `Proceeds` tells the two outcomes apart: either no start was begun and the
invariant is kept, or one was, and the invariant is kept if nothing is known.
-/
import EditorBridge.Editor.Run
import EditorBridge.Proofs.Server.Activation

namespace EditorBridge

open Act (Keeps Ends Plain Steps Stepped)
open Resumption (AllPlain)

/-- No script is played. -/
def Resumption.Unscripted (ks : List Resumption) : Prop := ∀ k ∈ ks, k.scripted = false

/-- A turn, with so much left to do. -/
def Turn.left (u : Turn) (ks : List Resumption) : Turn :=
  { u with starts := Resumption.starts ks }

open Resumption (Unscripted)

theorem Resumption.AllPlain.unscripted {ks : List Resumption} (h : AllPlain ks) : Unscripted ks :=
  fun k hk => scripted_of_plain (h k hk)

theorem Turn.left_eq (u : Turn) {ks ks' : List Resumption}
    (h : Resumption.starts ks = Resumption.starts ks') : u.left ks = u.left ks' := by
  rw [left, left, h]

/-! ### Things that are left to do -/

namespace Workbench

variable {c c' c'' : Option Turn} {u : Turn} {w w₁ w' : Workbench} {l' : Link}
  {ks ks' : List Resumption}

/-- A start was begun, and the invariant holds if nothing is known. -/
structure Began (c c' : Option Turn) (w w' : Workbench) : Prop where
  documents : w'.documents = w.documents
  lasting : w'.Lasting → w.Lasting
  sound : w'.Lasting → w.Sound c → w.startCount < w'.startCount ∧
    (w.Idle → w'.tracker.known = []) ∧ (w'.tracker.known = [] → w'.Sound c')

theorem Begins.began {p : PeerId} (h : Begins u p w w') :
    Began (some u) (some { u with starts := p :: u.starts }) w w' :=
  ⟨h.documents, h.lasting, h.sound⟩

/-- No start is begun, or one is. -/
inductive Proceeds (c c' : Option Turn) (w w' : Workbench) : Prop
  | moved (h : Moves c c' w w')
  | began (h : Began c c' w w')

/-- What is done first begins no start. -/
theorem Proceeds.after (h : Moves c c' w w₁) (h' : Proceeds c' c'' w₁ w') :
    Proceeds c c'' w w' := by
  cases h' with
  | moved h' => exact .moved (h.trans h')
  | began h' =>
    refine .began ⟨h'.documents.trans h.documents, h.lasting ∘ h'.lasting, fun hl hw => ?_⟩
    obtain ⟨hw₁, hs, hi⟩ := h.sound (h'.lasting hl) hw
    obtain ⟨hlt, hk, hw'⟩ := h'.sound hl hw₁
    exact ⟨hs ▸ hlt, hk ∘ hi, hw'⟩

/-- Only the link is changed, which keeps the invariant and begins no start. -/
def Settles (c c' : Option Turn) (w w' : Workbench) : Prop :=
  ∃ l', Link.Steady c c' w.link l' ∧ l'.spawned.length = w.link.spawned.length ∧
    w' = { w with link := l' }

theorem Settles.of_quiet (h : Link.Quiet w.link l') : Settles c c w { w with link := l' } :=
  ⟨l', .of_quiet h, h.spawned, rfl⟩

theorem Settles.trans (h : Settles c c' w w₁) (h' : Settles c' c'' w₁ w') : Settles c c'' w w' := by
  obtain ⟨l₁, hs₁, hl₁, rfl⟩ := h
  obtain ⟨l₂, hs₂, hl₂, rfl⟩ := h'
  exact ⟨l₂, hs₁.trans hs₂, hl₂.trans hl₁, rfl⟩

instance : IsPreorder Workbench (Settles c c) where
  refl w := .of_quiet (.refl w.link)
  trans _ _ _ := .trans

theorem Settles.moves (h : Settles c c' w w') : Moves c c' w w' := by
  obtain ⟨l', hs, -, rfl⟩ := h
  exact .of_link hs

theorem Settles.sound (h : Settles c c' w w') (hw : w.Sound c) : w'.Sound c' := by
  obtain ⟨l', hs, -, rfl⟩ := h
  exact hw.withLink (hs _ hw.link).1

/-- What the loop does at the end of a turn belongs to it. -/
theorem Proceeds.settles (h : Proceeds c c' w w₁) (h' : Settles c' c'' w₁ w') :
    Proceeds c c'' w w' := by
  have hmoves := h'.moves
  obtain ⟨l', -, hl, rfl⟩ := h'
  cases h with
  | moved h => exact .moved (h.trans hmoves)
  | began h =>
    refine .began ⟨h.documents, h.lasting, fun hlasting hw => ?_⟩
    obtain ⟨hlt, hk, hw₁⟩ := h.sound hlasting hw
    refine ⟨?_, hk, fun hnil => (hmoves.sound hlasting (hw₁ hnil)).1⟩
    exact Nat.lt_of_lt_of_eq hlt hl.symm

/-! ### Asking and greeting -/

instance keeps_failed (f : Failure) (r : Except Failure Reply) :
    Keeps (Moves c c) (failed f r) := by
  unfold failed
  infer_instance

instance plain_failed (f : Failure) (r : Except Failure Reply) : Plain (failed f r) := by
  unfold failed
  infer_instance

instance plain_askHover (q : Question) : Plain (askHover q) := by
  unfold askHover
  infer_instance

instance plain_askCompletion (q : Question) (trigger : Option String) :
    Plain (askCompletion q trigger) := by
  unfold askCompletion
  infer_instance

instance plain_askProxy (n : Nat) (kind : Query) (d : DocumentId) (p : Position)
    (token : Option TokenId) : Plain (askProxy n kind d p token) := by
  unfold askProxy
  infer_instance

instance steady_greet : Keeps (Link.Steady c c) Link.greet := by
  have hsend (p : PeerId) (params : Value) : Keeps Link.Quiet
      (Link.sendRequest p "initialize" params (.struct "InitializeResult") none) :=
    Link.quiet_sendRequest (by decide) _ _ _
  unfold Link.greet
  refine .andThen fun x => .andThen fun r => ?_
  split
  · infer_instance
  · unfold Link.awaiting
    refine .andThen fun e => ?_
    split <;> infer_instance

/-! ### One thing -/

/-- **Everything plain** that is left to do keeps the invariant, or begins a start. -/
theorem steps_resume (u : Turn) {k : Resumption} (hk : k.plain = true) (r : Except Failure Reply) :
    Steps (Moves (some u) (some u)) (Begins u) (resume k r) := by
  cases k with
  | start => exact .bind Begins.after fun _ => steps_onLink (Link.steps_tracedStart u)
  | restart => exact .bind Begins.after fun _ => steps_onLink (Link.steps_restart u)
  | restarted => exact steps_onLink (Link.steps_restarted u r)
  | activate => exact .bind Begins.after fun _ => steps_tracedActivate u
  | cleared => exact steps_cleared u r
  | spawned | play | waited | interrupting | queried => cases hk
  | session | sessionActive | sessionPlayed | sessionOver => cases hk
  | _ => simp only [resume]; exact .of_plain

/-- How one thing goes that is left to do, with so much left to do after it. -/
inductive Resumed (u : Turn) (ks ks' : List Resumption) (w : Workbench) :
    Except Failure Step → Workbench → Prop
  | plain {r : Except Failure Step} {w' : Workbench}
    (h : Moves (some (u.left ks)) (some (u.left ks')) w w')
    (hr : ∀ x, r = .ok x → AllPlain x.rest) : Resumed u ks ks' w r w'
  | start {x : Step} {w' : Workbench} (hx : x.rest ≠ []) (hun : Unscripted x.rest)
    (h : Began (some (u.left ks)) (some (u.left (x.rest ++ ks'))) w w') :
    Resumed u ks ks' w (.ok x) w'

/-- **The next thing** that is left to do. -/
theorem resumed_ends (u : Turn) {k : Resumption} (hk : k.scripted = false)
    (ks : List Resumption) (r : Except Failure Reply) (w : Workbench) :
    Ends (resume k r) w (Resumed u (k :: ks) ks w) := by
  by_cases hplain : k.plain = true
  · have hleft : u.left (k :: ks) = u.left ks :=
      u.left_eq (List.filterMap_cons_none (Resumption.spawns?_of_plain hplain))
    refine (steps_resume (u.left ks) hplain r w).mono fun r' w' h => ?_
    cases h with
    | plain h hr => exact .plain (hleft ▸ h) hr
    | @start x p f ks' _ hx hks' h =>
      have hun : Unscripted x.rest := by
        rw [hx]
        exact List.forall_mem_cons.2 ⟨rfl, hks'.unscripted⟩
      refine .start (by simp [hx]) hun ?_
      have hstarts : Resumption.starts (x.rest ++ ks) = p :: Resumption.starts ks := by
        rw [Resumption.starts_append, hx]
        exact congrArg (p :: · ++ Resumption.starts ks) hks'.starts
      have hnext : u.left (x.rest ++ ks) = { u.left ks with starts := p :: (u.left ks).starts } :=
        congrArg (fun starts => { u with starts }) hstarts
      rw [hleft, hnext]
      exact h.began
  · -- What is left is the middle of a start.
    cases k with
    | spawned p exited =>
      have hplain := (inferInstance : Plain (onLink (Link.whenSpawned p exited r))).ends w
      have hmoves : Ends (onLink (Link.whenSpawned p exited r)) w fun _ =>
          Moves (some (u.left (.spawned p exited :: ks))) (some (u.left ks)) w :=
        .on ((Link.whenSpawned_ends (u := u) exited r).mono fun _ l h => .of_link h)
      exact (hmoves.and hplain).mono fun r' w' h => .plain h.1 h.2
    | play | waited | interrupting | queried => cases hk
    | session | sessionActive | sessionPlayed | sessionOver => cases hk
    | _ => exact absurd rfl hplain

/-! ### One thing after the other -/

/-- What is left to do when an activity does not go on. -/
def remaining : Except Failure Step → List Resumption
  | .ok x => x.rest
  | .error _ => []

/-- **All that is left to do**, as far as possible. -/
theorem resumeAll_ends (u : Turn) {ks : List Resumption} (hks : Unscripted ks)
    (r : Except Failure Reply) (w : Workbench) :
    Ends (resumeAll ks r) w fun r' w' => Unscripted (remaining r') ∧
      Proceeds (some (u.left ks)) (some (u.left (remaining r'))) w w' := by
  induction ks generalizing r w with
  | nil =>
    refine .bind (.ofExcept ?_)
    cases r with
    | ok reply => exact .pure ⟨List.forall_mem_nil _, .moved (.refl w)⟩
    | error f => exact ⟨List.forall_mem_nil _, .moved (.refl w)⟩
  | cons k ks ih =>
    obtain ⟨hk, hks⟩ := List.forall_mem_cons.1 hks
    refine .bind (.outcome ((resumed_ends u hk ks r w).mono fun r' w' h => ?_))
    -- Whoever goes on has begun no start.
    have hgo (r'' : Except Failure Reply)
        (h : Moves (some (u.left (k :: ks))) (some (u.left ks)) w w') :
        Ends (resumeAll ks r'') w' fun r' w'' => Unscripted (remaining r') ∧
          Proceeds (some (u.left (k :: ks))) (some (u.left (remaining r'))) w w'' :=
      (ih hks r'' w').mono fun _ _ h' => ⟨h'.1, h'.2.after h⟩
    have hwait {x : Step} (h : Resumed u (k :: ks) ks w (.ok x) w') :
        Unscripted (x.rest ++ ks) ∧
          Proceeds (some (u.left (k :: ks))) (some (u.left (x.rest ++ ks))) w w' := by
      cases h with
      | plain h hr =>
        have hx := hr x rfl
        have hleft : u.left (x.rest ++ ks) = u.left ks := by
          refine u.left_eq ?_
          rw [Resumption.starts_append, hx.starts, List.nil_append]
        exact ⟨List.forall_mem_append.2 ⟨hx.unscripted, hks⟩, .moved (hleft ▸ h)⟩
      | start hx hun h => exact ⟨List.forall_mem_append.2 ⟨hun, hks⟩, .began h⟩
    cases r' with
    | error f =>
      cases h with
      | plain h => exact hgo _ h
    | ok x =>
      cases x with
      | done reply =>
        cases h with
        | plain h => exact hgo _ h
        | start hx => exact absurd rfl hx
      | wait f more => exact .pure (hwait h)
      | turn more => exact .pure (hwait h)

end Workbench

end EditorBridge
