/-
Callbacks that come late.

When a future ends, whoever asked for it is called by the loop, some time later: the
callbacks of the future become jobs, and until the loop gets to them nothing else has
changed.  `Defers` says so of everything that may end futures.  Tokens stay as they are, no
callback is new, and a job that calls somebody about a future is either old or comes from a
callback of that future, which has ended by then.

The acts that do more than that are those that touch a token.  There are three of them, and
they are described in the module that needs it.
-/
import EditorBridge.Proofs.Rpc.Requests

namespace EditorBridge

namespace Loop

variable {α : Type} {l l' : Loop α Callback Job} {f : FutureId} {k : Callback}

/-- Somebody is to be called when a future ends. -/
def Calls (l : Loop α Callback Job) (f : FutureId) (k : Callback) : Prop :=
  ∃ fut, l.futures[f]? = some fut ∧ k ∈ fut.callbacks

/-- Callbacks become jobs once their futures have ended, and there are no other new ones. -/
structure Defers (l l' : Loop α Callback Job) : Prop where
  done : ∀ f, l.done f = true → l'.done f = true
  calls : ∀ f k, l'.Calls f k → l.Calls f k
  jobs : ∀ f k, .call k f ∈ l'.ready → .call k f ∈ l.ready ∨ l.Calls f k ∧ l'.done f = true

namespace Defers

theorem refl (l : Loop α Callback Job) : l.Defers l := ⟨fun _ => id, fun _ _ => id, fun _ _ => .inl⟩

theorem trans {l'' : Loop α Callback Job} (h : l.Defers l') (h' : l'.Defers l'') :
    l.Defers l'' where
  done f hf := h'.done f (h.done f hf)
  calls f k hk := h.calls f k (h'.calls f k hk)
  jobs f k hk := by
    rcases h'.jobs f k hk with hk | ⟨hk, hd⟩
    · exact (h.jobs f k hk).imp id fun hj => ⟨hj.1, h'.done f hj.2⟩
    · exact .inr ⟨h.calls f k hk, hd⟩

end Defers

theorem Calls.push {fut : Future α Callback} (h : fut.callbacks = [])
    (hk : Calls { l with futures := l.futures.push fut } f k) : l.Calls f k := by
  obtain ⟨fut', hfut, hmem⟩ := hk
  rw [Array.getElem?_push] at hfut
  split at hfut
  · cases hfut
    rw [h] at hmem
    cases hmem
  · exact ⟨fut', hfut, hmem⟩

theorem defers_create (l : Loop α Callback Job) : l.Defers l.create.2 where
  done := (grows_create l).done
  calls _ _ := Calls.push rfl
  jobs _ _ := .inl

theorem defers_settle? {e : Ending α} (h : l.settle? .call f e = some l') : l.Defers l' := by
  have hgrows := grows_settle? h
  have hsettles := settles_settle? h
  unfold settle? at h
  split at h
  · cases h
  · rename_i fut hfut
    split at h
    · cases h
    · cases h
      have hlt : f < l.futures.size := (Array.getElem?_eq_some_iff.1 hfut).1
      refine ⟨hgrows.done, fun g k hk => ?_, fun g k hk => ?_⟩
      · obtain ⟨fut', hfut', hmem⟩ := hk
        by_cases hg : f = g
        · subst hg
          simp [hlt] at hfut'
          subst hfut'
          cases hmem
        · rw [Array.getElem?_setIfInBounds_ne hg] at hfut'
          exact ⟨fut', hfut', hmem⟩
      · rcases List.mem_append.1 hk with hk | hk
        · exact .inl hk
        · obtain ⟨k', hmem, heq⟩ := List.mem_map.1 hk
          cases heq
          refine .inr ⟨⟨fut, hfut, hmem⟩, ?_⟩
          rw [done, hsettles.here f (by simp) hlt]
          rfl

/-- Who asks to be called before a future has ended is called later. -/
theorem ready_whenDone (h : l.done f = false) : (l.whenDone .call f k).ready = l.ready := by
  unfold whenDone
  split
  · rfl
  · rename_i fut hfut
    have hopen : fut.ending.isSome = false := by simpa [done, ending?, hfut] using h
    rw [hopen]
    rfl

/-- Nobody else is called. -/
theorem Calls.whenDone {g : FutureId} {k' : Callback} (hk : (l.whenDone .call f k).Calls g k')
    (h : l.done f = false) : l.Calls g k' ∨ f = g ∧ k' = k := by
  obtain ⟨fut', hfut', hmem⟩ := hk
  unfold Loop.whenDone at hfut'
  split at hfut'
  · exact .inl ⟨fut', hfut', hmem⟩
  · rename_i fut hfut
    have hopen : fut.ending.isSome = false := by simpa [done, ending?, hfut] using h
    rw [hopen] at hfut'
    by_cases hg : f = g
    · subst hg
      have hlt : f < l.futures.size := (Array.getElem?_eq_some_iff.1 hfut).1
      simp [hlt] at hfut'
      subst hfut'
      rcases List.mem_append.1 hmem with hmem | hmem
      · exact .inl ⟨fut, hfut, hmem⟩
      · exact .inr ⟨rfl, List.mem_singleton.1 hmem⟩
    · simp only [Bool.false_eq_true, if_false, Array.getElem?_setIfInBounds_ne hg] at hfut'
      exact .inl ⟨fut', hfut', hmem⟩

/-- A job that calls nobody may be queued. -/
theorem defers_soon {j : Job} (h : ∀ k f, j ≠ .call k f) (l : Loop α Callback Job) :
    l.Defers (l.soon j) where
  done _ := id
  calls _ _ := id
  jobs f k hk := by
    rcases List.mem_append.1 hk with hk | hk
    · exact .inl hk
    · exact absurd (List.mem_singleton.1 hk).symm (h k f)

end Loop

namespace Link

open Act (Keeps)

variable {p q : PeerId} {l l' l'' : Link}

/-- Nobody is called, no token is touched, and callbacks are only put off. -/
structure Defers (l l' : Link) : Prop where
  loop : l.loop.Defers l'.loop
  tokens : l'.tokens = l.tokens

namespace Defers

theorem refl (l : Link) : Defers l l := ⟨.refl _, rfl⟩

theorem trans (h : Defers l l') (h' : Defers l' l'') : Defers l l'' :=
  ⟨h.loop.trans h'.loop, h'.tokens.trans h.tokens⟩

instance : IsPreorder Link Defers where
  refl := refl
  trans _ _ _ := trans

/-- Only the loop and the tokens matter. -/
theorem of_same (hl : l'.loop = l.loop) (ht : l'.tokens = l.tokens) : Defers l l' :=
  ⟨hl ▸ .refl _, ht⟩

end Defers

instance defers_newFuture : Keeps Defers newFuture :=
  .of_ends fun l => .read (.change_bind (.pure ⟨l.loop.defers_create, rfl⟩))

instance defers_onPeer (f : Peer → Peer) : Keeps Defers (onPeer q f) :=
  Keeps.change fun _ => .of_same rfl rfl

instance defers_settleOpen (f : FutureId) (e : Ending Reply) : Keeps Defers (settleOpen f e) := by
  refine .of_ends fun l => .read ?_
  split
  · rename_i lo hlo
    exact .change_bind (.pure ⟨Loop.defers_settle? hlo, rfl⟩)
  · exact .pure (.refl l)

instance defers_settle (f : FutureId) (e : Ending Reply) : Keeps Defers (settle f e) := by
  unfold settle
  infer_instance

/-- What a process does about a message calls nobody. -/
instance defers_noticed (n : ProcessId) (message : Value) : Keeps Defers (noticed n message) := by
  have (script : Value) (id : Option Value) : Keeps Defers (soon (.react n script id)) := by
    unfold soon onLoop
    exact Keeps.change fun l => ⟨Loop.defers_soon (fun _ _ h => by cases h) l.loop, rfl⟩
  unfold noticed
  split
  · refine .andThen fun l => ?_
    split <;> infer_instance
  · infer_instance

instance defers_write (message : Value) : Keeps Defers (write q message) := by
  have (f : Frame) : Keeps Defers (Act.change fun l : Link =>
      { l with written := l.written ++ [f] }) := Keeps.change fun _ => .of_same rfl rfl
  have (o : Outlet) : Keeps Defers (do
      let frame ← Act.ofExcept ((Frame.of o.process message).mapError .unwritable)
      Act.logBuilt Peer.dataLogger .trace fun _ => .ok ("JSON send: " ++ Text.quote frame.body)
      Act.change fun l => { l with written := l.written ++ [frame] }
      if let some n := o.process then noticed n message) := by
    refine .andThen fun f => .andThen fun _ => .andThen fun _ => ?_
    split <;> infer_instance
  unfold write
  refine .andThen fun e => ?_
  split
  · exact .andThen fun l => Keeps.ite _ _ _
  · infer_instance

instance defers_orWarn (a : Act Link Unit) (what : String) [Keeps Defers a] :
    Keeps Defers (orWarn q a what) := by
  unfold orWarn
  refine .andThen fun r => ?_
  split <;> infer_instance

instance defers_takeBack (id : Nat) : Keeps Defers (takeBack q id) := by
  unfold takeBack notify
  infer_instance

instance defers_receiveResponse (message : Value) : Keeps Defers (receiveResponse q message) := by
  unfold receiveResponse
  refine .andThen fun e => ?_
  dsimp only
  split
  · infer_instance
  · refine .andThen fun _ => .andThen fun done => ?_
    split
    · infer_instance
    · refine .andThen fun e => ?_
      split <;> infer_instance

instance defers_connectionLost (reason : Option String) :
    Keeps Defers (connectionLost q reason) := by
  unfold connectionLost
  infer_instance

end Link

end EditorBridge
