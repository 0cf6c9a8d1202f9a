/-
Asking the providers and merging their answers.

A query asks the providers that are concerned, one after the other, in the order of their
registration, and each of them may take its time.  `Consults` follows this along what happens in
between.  The query comes to an answer exactly if each of them does, and then its answer is that
of all of them together.  What they answer together is said of the whole list of answers
(`mergedHover`, `mergedCompletions`), while the query adds one answer at a time; the induction is on
the providers that are left, with what was merged so far as an invariant.

The characters that are announced for a document come from another pass over the same
registrations, which drops repetitions.  They are those for which somebody would be asked.
-/
import EditorBridge.Proofs.Activities
import Mathlib.Data.List.Nodup

namespace EditorBridge

/-! ### Who is concerned -/

/-- Every part of a filter that is set agrees with the document. -/
structure DocumentFilter.Matches (f : DocumentFilter) (d : Document) : Prop where
  scheme : ∀ s, f.scheme = some s → d.uri.scheme = s
  language : ∀ l, f.language = some l → d.languageId = l
  pattern : ∀ p, f.pattern = some p → Text.Glob.accepts p d.uri.path = true

/-- An entry of a selector matches a document. -/
inductive SelectorEntry.Matches (d : Document) : SelectorEntry → Prop
  | all : Matches d (.language "*")
  | language : Matches d (.language d.languageId)
  | filter {f : DocumentFilter} (h : f.Matches d) : Matches d (.filter f)

/-- Any entry of a selector matches a document. -/
def Selector.Matches (s : Selector) (d : Document) : Prop := ∃ e ∈ s, e.Matches d

theorem DocumentFilter.accepts_iff {f : DocumentFilter} {d : Document} :
    f.accepts d = true ↔ f.Matches d := by
  unfold DocumentFilter.accepts
  simp only [Bool.and_eq_true, Option.all_eq_true, beq_iff_eq]
  exact ⟨fun ⟨⟨hs, hl⟩, hp⟩ => ⟨hs, hl, hp⟩, fun h => ⟨⟨h.scheme, h.language⟩, h.pattern⟩⟩

theorem SelectorEntry.accepts_iff {e : SelectorEntry} {d : Document} :
    e.accepts d = true ↔ e.Matches d := by
  cases e with
  | language id =>
    simp only [SelectorEntry.accepts, Bool.or_eq_true, beq_iff_eq]
    constructor
    · rintro (rfl | rfl)
      · exact .all
      · exact .language
    · rintro (_ | _)
      · exact .inl rfl
      · exact .inr rfl
  | filter f =>
    refine DocumentFilter.accepts_iff.trans ⟨.filter, fun h => ?_⟩
    cases h with
    | filter h => exact h

theorem Selector.accepts_iff {s : Selector} {d : Document} : s.accepts d = true ↔ s.Matches d := by
  simp only [Selector.accepts, List.any_eq_true, SelectorEntry.accepts_iff, Selector.Matches]

namespace Registration

/-- A provider is concerned if its selector matches the document and, where a character was typed,
if it is registered for that character. -/
structure Concerned (trigger : Option String) (d : Document) (r : Registration) : Prop where
  selector : r.selector.Matches d
  trigger : ∀ c, trigger = some c → c ∈ r.triggers

theorem concerned_iff {trigger : Option String} {d : Document} {r : Registration} :
    (r.selector.accepts d && asked trigger r) = true ↔ r.Concerned trigger d := by
  simp only [Bool.and_eq_true, Selector.accepts_iff, asked, Option.all_eq_true,
    List.contains_iff_mem]
  exact ⟨fun ⟨hs, ht⟩ => ⟨hs, ht⟩, fun h => ⟨h.selector, h.trigger⟩⟩

instance (trigger : Option String) (d : Document) (r : Registration) :
    Decidable (r.Concerned trigger d) :=
  decidable_of_iff _ concerned_iff

variable {rs : List Registration} {d : Document} {c : String} {old new : List String}

theorem filter_asked (trigger : Option String) :
    (serving rs d).filter (asked trigger) = rs.filter (Concerned trigger d ·) := by
  rw [serving, List.filter_filter]
  refine List.filter_congr fun r _ => ?_
  rw [Bool.eq_iff_iff, decide_eq_true_iff, ← concerned_iff, Bool.and_comm]

theorem serving_eq : serving rs d = rs.filter (Concerned none d ·) := by
  rw [← filter_asked none]
  exact (List.filter_eq_self.2 fun _ _ => rfl).symm

/-! ### Announced characters -/

theorem mem_addNew : c ∈ addNew old new ↔ c ∈ old ∨ c ∈ new := by
  induction new generalizing old with
  | nil => simp [addNew]
  | cons x new ih =>
    rw [addNew, List.foldl_cons, ← addNew, ih, List.mem_cons]
    split
    · rename_i hx
      rw [List.contains_iff_mem] at hx
      constructor
      · exact fun h => h.imp_right .inr
      · rintro (h | rfl | h)
        · exact .inl h
        · exact .inl hx
        · exact .inr h
    · rw [List.mem_append, List.mem_singleton, or_assoc]

theorem nodup_addNew (h : old.Nodup) : (addNew old new).Nodup := by
  induction new generalizing old with
  | nil => exact h
  | cons x new ih =>
    rw [addNew, List.foldl_cons, ← addNew]
    refine ih ?_
    split
    · exact h
    · rename_i hx
      rw [List.contains_iff_mem] at hx
      exact List.concat_eq_append ▸ h.concat hx

/-- What was collected from some registrations. -/
theorem collected (rs : List Registration) (h : old.Nodup) :
    (rs.foldl (fun seen r => addNew seen r.triggers) old).Nodup ∧
      ∀ c, c ∈ rs.foldl (fun seen r => addNew seen r.triggers) old ↔
        c ∈ old ∨ ∃ r ∈ rs, c ∈ r.triggers := by
  induction rs generalizing old with
  | nil => simpa using h
  | cons r rs ih =>
    have hnew : (addNew old r.triggers).Nodup := nodup_addNew h
    obtain ⟨hnodup, hmem⟩ := ih hnew
    refine ⟨hnodup, fun c => ?_⟩
    rw [List.foldl_cons, hmem, mem_addNew, or_assoc]
    simp

/-- **The announced characters** are those for which somebody is concerned, each once. -/
theorem triggersOf_announces (rs : List Registration) (d : Document) :
    (triggersOf rs d).Nodup ∧
      ∀ c, c ∈ triggersOf rs d ↔ rs.filter (Concerned (some c) d ·) ≠ [] := by
  obtain ⟨hnodup, hmem⟩ := collected (serving rs d) List.nodup_nil
  refine ⟨hnodup, fun c => ?_⟩
  rw [triggersOf, hmem, ← filter_asked, ne_eq, List.filter_eq_nil_iff]
  simp [asked]

end Registration

/-! ### Merging -/

/-- The hovers among some answers. -/
def hoversAmong (xs : List Reply) : List Hover :=
  xs.filterMap fun
    | .hover h => h
    | _ => none

/-- The lists of proposals among some answers. -/
def listsAmong (xs : List Reply) : List CompletionList :=
  xs.filterMap fun
    | .completions l => l
    | _ => none

/-- All contents, with the first range that is there; no hover if there are no contents. -/
def mergedHover (xs : List Reply) : Option Hover :=
  if (hoversAmong xs).flatMap (·.contents) = [] then none
  else some ⟨(hoversAmong xs).flatMap (·.contents), (hoversAmong xs).findSome? (·.range)⟩

/-- All proposals, which are incomplete if any of the lists is; nothing if there is no list. -/
def mergedLists (ls : List CompletionList) : Option CompletionList :=
  if ls = [] then none else some ⟨ls.flatMap (·.items), ls.any (·.incomplete)⟩

namespace Workbench

theorem foldl_addHover (xs : List Reply) (h : Hover) :
    xs.foldl addHover h = ⟨h.contents ++ (hoversAmong xs).flatMap (·.contents),
      h.range <|> (hoversAmong xs).findSome? (·.range)⟩ := by
  induction xs generalizing h with
  | nil => simp [hoversAmong]
  | cons x xs ih =>
    rw [List.foldl_cons, ih]
    cases x with
    | hover g =>
      cases g with
      | none => rfl
      | some g =>
        have hcons : hoversAmong (.hover (some g) :: xs) = g :: hoversAmong xs := rfl
        rw [hcons, List.flatMap_cons, List.findSome?_cons]
        cases hr : h.range <;> cases hg : g.range <;> simp [addHover, Hover.append, hr, hg]
    | _ => rfl

theorem addCompletions_mergedLists (ls : List CompletionList) (x : Reply) :
    addCompletions (mergedLists ls) x = mergedLists (ls ++ listsAmong [x]) := by
  have hnone : addCompletions (mergedLists ls) x = mergedLists ls → listsAmong [x] = [] →
      addCompletions (mergedLists ls) x = mergedLists (ls ++ listsAmong [x]) :=
    fun h hx => by rw [h, hx, List.append_nil]
  cases x with
  | completions l =>
    cases l with
    | none => exact hnone rfl rfl
    | some l =>
      show some (((mergedLists ls).getD {}).append l) = mergedLists (ls ++ [l])
      unfold mergedLists
      rw [if_neg (List.append_ne_nil_of_right_ne_nil ls (List.cons_ne_nil l []))]
      by_cases hls : ls = []
      · simp [hls, CompletionList.append]
      · simp [hls, CompletionList.append]
  | _ => exact hnone rfl rfl

theorem foldl_addCompletions (xs : List Reply) (ls : List CompletionList) :
    xs.foldl addCompletions (mergedLists ls) = mergedLists (ls ++ listsAmong xs) := by
  induction xs generalizing ls with
  | nil => simp [listsAmong]
  | cons x xs ih =>
    rw [List.foldl_cons, addCompletions_mergedLists, ih, List.append_assoc]
    congr 2
    exact List.filterMap_append.symm

/-! ### Asking -/

/-- Providers are asked one after the other, and each of them comes to an answer. -/
inductive Consults (kind : Query) (q : Question) : List Registration → Env Workbench → Tidings →
    List Reply → Env Workbench → Prop
  | nil {e : Env Workbench} : Consults kind q [] e [] [] e
  | cons {r : Registration} {rs : List Registration} {e e₁ e' : Env Workbench}
    {told₁ told₂ : Tidings} {x : Reply} {xs : List Reply}
    (h : Concludes (ask r kind q) e told₁ (.ok x) e₁) (hs : Consults kind q rs e₁ told₂ xs e') :
    Consults kind q (r :: rs) e (told₁ ++ told₂) (x :: xs) e'

variable {q : Question} {e e' : Env Workbench} {told : Tidings} {y : Reply}

/-- An activity that ends at once, with an answer. -/
theorem concludes_done {z : Reply} :
    Concludes (return .done z) e told (.ok y) e' ↔ told = [] ∧ y = z ∧ e' = e := by
  constructor
  · rintro (h | h | h | h) <;> cases h
    exact ⟨rfl, rfl, rfl⟩
  · rintro ⟨rfl, rfl, rfl⟩
    exact .done rfl

/-- Whoever was asked has answered when the answer is added. -/
theorem concludes_ofExcept {x : Except Failure Reply} {go : Reply → Act Workbench Step} :
    Concludes (do go (← Act.ofExcept x)) e told (.ok y) e' ↔
      ∃ z, x = .ok z ∧ Concludes (go z) e told (.ok y) e' := by
  cases x with
  | ok z =>
    constructor
    · exact fun h => ⟨z, rfl, h.of_eq rfl⟩
    · rintro ⟨_, ⟨⟩, h⟩
      exact h.of_eq rfl
  | error f =>
    constructor
    · rintro (h | h | h | h) <;> cases h
    · rintro ⟨_, ⟨⟩, -⟩

/-- **The providers that are left** are asked one after the other, each answer is added to what was
merged so far, and then the query ends. -/
theorem more_concludes {β : Type} {kind : Query}
    (more : β → List Registration → Act Workbench Step) (add : β → Reply → β)
    (finish : β → Reply) (rest : β → List Registration → Resumption)
    (hnil : ∀ soFar, more soFar [] = return .done (finish soFar))
    (hcons : ∀ soFar r rs, more soFar (r :: rs) =
      Step.calling (ask r kind q) (rest soFar rs) (resume (rest soFar rs)))
    (hrest : ∀ soFar rs x, resume (rest soFar rs) x = do
      more (add soFar (← Act.ofExcept x)) rs)
    (soFar : β) (rs : List Registration) :
    Concludes (more soFar rs) e told (.ok y) e' ↔
      ∃ xs, Consults kind q rs e told xs e' ∧ y = finish (xs.foldl add soFar) := by
  induction rs generalizing soFar e told with
  | nil =>
    rw [hnil, concludes_done]
    constructor
    · rintro ⟨rfl, rfl, rfl⟩
      exact ⟨[], .nil, rfl⟩
    · rintro ⟨_, ⟨⟩, rfl⟩
      exact ⟨rfl, rfl, rfl⟩
  | cons r rs ih =>
    rw [hcons]
    refine concludes_calling.trans ⟨?_, ?_⟩
    · rintro ⟨x, e₁, told₁, told₂, rfl, hx, hgo⟩
      rw [hrest, concludes_ofExcept] at hgo
      obtain ⟨z, rfl, hgo⟩ := hgo
      obtain ⟨xs, hs, rfl⟩ := (ih _).1 hgo
      exact ⟨z :: xs, .cons hx hs, rfl⟩
    · rintro ⟨_, hs, rfl⟩
      cases hs with
      | cons hx hs =>
        refine ⟨_, _, _, _, rfl, hx, ?_⟩
        rw [hrest, concludes_ofExcept]
        exact ⟨_, rfl, (ih _).2 ⟨_, hs, rfl⟩⟩

/-- The registrations that are concerned with a question. -/
def concerned (kind : Query) (trigger : Option String) (q : Question) (w : Workbench) :
    List Registration :=
  (registrations kind w).filter
    (Registration.Concerned trigger (w.documents.getD q.document default) ·)

theorem askHover_concludes : Concludes (askHover q) e told (.ok y) e' ↔
    ∃ xs, Consults .hover q (concerned .hover none q e.state) e told xs e' ∧
      y = .hover (mergedHover xs) := by
  have hfirst : askHover q e = moreHovers q ⟨[], none⟩ (concerned .hover none q e.state) e := by
    rw [concerned, ← Registration.serving_eq]
    rfl
  have hmerged (xs : List Reply) :
      (xs.foldl addHover ⟨[], none⟩).unlessEmpty = mergedHover xs := by
    rw [foldl_addHover, Hover.unlessEmpty, mergedHover]
    simp
  have hmore : Concludes (moreHovers q ⟨[], none⟩ (concerned .hover none q e.state)) e told (.ok y)
      e' ↔ ∃ xs, Consults .hover q (concerned .hover none q e.state) e told xs e' ∧
        y = .hover (xs.foldl addHover ⟨[], none⟩).unlessEmpty :=
    more_concludes (moreHovers q) addHover (fun h => .hover h.unlessEmpty)
      (fun soFar rs => .hovers soFar rs q) (fun _ => rfl) (fun _ _ _ => rfl) (fun _ _ _ => rfl) _ _
  simp only [hmerged] at hmore
  rw [← hmore]
  exact ⟨fun h => h.of_eq hfirst.symm, fun h => h.of_eq hfirst⟩

theorem askCompletion_concludes (trigger : Option String) :
    Concludes (askCompletion q trigger) e told (.ok y) e' ↔
      ∃ xs, Consults .completion q (concerned .completion trigger q e.state) e told xs e' ∧
        y = .completions (mergedLists (listsAmong xs)) := by
  have hfirst : askCompletion q trigger e =
      moreCompletions q none (concerned .completion trigger q e.state) e := by
    rw [concerned, ← Registration.filter_asked]
    rfl
  have hmerged (xs : List Reply) :
      xs.foldl addCompletions none = mergedLists (listsAmong xs) := foldl_addCompletions xs []
  have hmore : Concludes (moreCompletions q none (concerned .completion trigger q e.state)) e told
      (.ok y) e' ↔ ∃ xs, Consults .completion q (concerned .completion trigger q e.state) e told xs
        e' ∧ y = .completions (xs.foldl addCompletions none) :=
    more_concludes (moreCompletions q) addCompletions .completions
      (fun soFar rs => .completions soFar rs q) (fun _ => rfl) (fun _ _ _ => rfl) (fun _ _ _ => rfl)
      _ _
  simp only [hmerged] at hmore
  rw [← hmore]
  exact ⟨fun h => h.of_eq hfirst.symm, fun h => h.of_eq hfirst⟩

/-- **Queries ask whoever is concerned and merge what they answer.**  The characters that are
announced are those for which somebody would be asked. -/
theorem queries_merge (q : Question) (e : Env Workbench) :
    (∀ told y e', Concludes (askHover q) e told (.ok y) e' ↔
      ∃ xs, Consults .hover q (concerned .hover none q e.state) e told xs e' ∧
        y = .hover (mergedHover xs)) ∧
    (∀ trigger told y e', Concludes (askCompletion q trigger) e told (.ok y) e' ↔
      ∃ xs, Consults .completion q (concerned .completion trigger q e.state) e told xs e' ∧
        y = .completions (mergedLists (listsAmong xs))) ∧
    ∃ cs, triggers q.document e = (.ok cs, e) ∧ cs.Nodup ∧
      ∀ c, c ∈ cs ↔ concerned .completion (some c) q e.state ≠ [] :=
  ⟨fun _ _ _ => askHover_concludes, fun trigger _ _ _ => askCompletion_concludes trigger,
    _, rfl, Registration.triggersOf_announces _ _⟩

/-- Of three providers for all documents, two are asked for a dot. -/
example :
    let dotted : Registration := ⟨[.language "*"], .external 0, [".", ":"]⟩
    let informant : Informant :=
      { name := "a", answer := .completions (some ⟨[{ label := "x" }], true⟩) }
    let w : Workbench := {
      completions := [dotted, ⟨[.language "*"], .external 1, []⟩, dotted]
      informants := #[informant, default] }
    (askCompletion ⟨0, ⟨0, 0⟩, 0⟩ (some ".") ⟨{}, w⟩).1 =
      .ok (.done (.completions (some ⟨[{ label := "x" }, { label := "x" }], true⟩))) := by
  rfl

end Workbench

end EditorBridge
