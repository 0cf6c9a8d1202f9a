/-
What a text says as a uri.

Reading cuts a text at its delimiters, one after the other, so that none of them is left in a
part that is cut off by it (`read_of_ofText`).  A cut undoes putting a delimiter between two
parts, if the first part is free of it; that is the one argument behind everything that is
said here of schemes, hosts, queries, fragments and parameters.
-/
import EditorBridge.Uri.Basic
import Mathlib

namespace EditorBridge.Uri

/-! ### Cutting -/

section Cutting

variable {cs a b : List Char} {c d : Char}

/-- A part behind its delimiter.  In front of nothing there is no delimiter. -/
def behind (d : Char) (cs : List Char) : List Char := if cs = [] then [] else d :: cs

@[simp] theorem behind_nil (d : Char) : behind d [] = [] := rfl

theorem head?_behind (h : c ∈ (behind d cs).head?) : c = d := by
  unfold behind at h
  split at h
  · cases h
  · simpa using h.symm

theorem mem_behind (h : c ∈ behind d cs) : c = d ∨ c ∈ cs := by
  unfold behind at h
  split at h
  · cases h
  · simpa using h

theorem subset_behind (d : Char) (cs : List Char) : cs ⊆ behind d cs := by
  unfold behind
  split
  · simp_all
  · exact List.subset_cons_self d cs

/-- What satisfies a condition is told from what begins with a character that does not. -/
theorem span_append {p : Char → Bool} (ha : ∀ c ∈ a, p c = true)
    (hb : ∀ c ∈ b.head?, p c = false) : (a ++ b).span p = (a, b) := by
  rw [List.span_eq_takeWhile_dropWhile, List.takeWhile_append_of_pos ha,
    List.dropWhile_append_of_pos ha]
  cases b with
  | nil => simp
  | cons c r =>
    have hc := hb c rfl
    simp [hc]

theorem span_spec (p : Char → Bool) (cs : List Char) :
    (cs.span p).1 ++ (cs.span p).2 = cs ∧ (∀ c ∈ (cs.span p).1, p c = true) ∧
      ∀ c ∈ (cs.span p).2.head?, p c = false := by
  rw [List.span_eq_takeWhile_dropWhile]
  refine ⟨List.takeWhile_append_dropWhile, fun c hc => List.mem_takeWhile_imp hc, fun c hc => ?_⟩
  have hne : cs.dropWhile p ≠ [] := by
    rintro h
    rw [h] at hc
    cases hc
  rw [List.head?_eq_some_head hne] at hc
  rw [← Option.some.inj hc]
  simpa using List.head_dropWhile_not p hne

theorem cut_append_behind (h : d ∉ a) : cut d (a ++ behind d b) = (a, b) := by
  have hspan := span_append (p := (· != d)) (a := a) (b := behind d b)
    (fun c hc => bne_iff_ne.2 fun e => h (e ▸ hc)) fun c hc => by simp [head?_behind hc]
  have hdrop : (behind d b).drop 1 = b := by
    unfold behind
    split
    · simp_all
    · rfl
  rw [cut, hspan]
  exact congrArg (a, ·) hdrop

/-- A cut gives the beginning of a text, with or without a delimiter at its end. -/
theorem cut_spec (d : Char) (cs : List Char) :
    d ∉ (cut d cs).1 ∧ (cut d cs).1 ++ behind d (cut d cs).2 <+: cs := by
  obtain ⟨happ, hfst, hsnd⟩ := span_spec (· != d) cs
  have hcut : cut d cs = ((cs.span (· != d)).1, (cs.span (· != d)).2.drop 1) := rfl
  rw [hcut]
  generalize cs.span (· != d) = s at *
  obtain ⟨a, b⟩ := s
  subst happ
  refine ⟨fun h => by simpa using hfst d h, (List.prefix_append_right_inj a).2 ?_⟩
  cases b with
  | nil => exact List.prefix_rfl
  | cons c r =>
    have hc : c = d := by simpa using hsnd c rfl
    rw [hc, List.drop_succ_cons, List.drop_zero]
    unfold behind
    split
    · exact List.nil_prefix
    · exact List.prefix_rfl

end Cutting

/-! ### Parameters -/

section Params

variable {front last : List Char}

/-- A path is what leads to its last segment, and the segment. -/
theorem exists_segment (path : List Char) : ∃ front last, path = front ++ last ∧
    (∀ c ∈ front.getLast?, c = '/') ∧ '/' ∉ last := by
  obtain ⟨happ, hlast, hfront⟩ := span_spec (· != '/') path.reverse
  refine ⟨(path.reverse.span (· != '/')).2.reverse, (path.reverse.span (· != '/')).1.reverse,
    ?_, fun c hc => ?_, fun h => ?_⟩
  · rw [← List.reverse_append, happ, List.reverse_reverse]
  · rw [List.getLast?_reverse] at hc
    simpa using hfront c hc
  · simpa using hlast '/' (List.mem_reverse.1 h)

theorem splitParams_append (hf : ∀ c ∈ front.getLast?, c = '/') (hl : '/' ∉ last) :
    splitParams (front ++ last) = (front ++ (cut ';' last).1, (cut ';' last).2) := by
  have hspan : (front ++ last).reverse.span (· != '/') = (last.reverse, front.reverse) := by
    rw [List.reverse_append]
    refine span_append (fun c hc => bne_iff_ne.2 ?_) fun c hc => ?_
    · rintro rfl
      exact hl (List.mem_reverse.1 hc)
    · rw [List.head?_reverse] at hc
      simp [hf c hc]
  rw [splitParams, hspan]
  simp

/-- **Parameters are found where they were put.** -/
theorem splitParams_join (path : List Char) :
    splitParams ((splitParams path).1 ++ behind ';' (splitParams path).2) = splitParams path := by
  obtain ⟨front, last, rfl, hf, hl⟩ := exists_segment path
  obtain ⟨hsemi, hpre⟩ := cut_spec ';' last
  rw [splitParams_append hf hl, List.append_assoc,
    splitParams_append hf fun hm => hl (hpre.subset hm), cut_append_behind hsemi]

theorem isPrefix_splitParams (path : List Char) :
    (splitParams path).1 ++ behind ';' (splitParams path).2 <+: path := by
  obtain ⟨front, last, rfl, hf, hl⟩ := exists_segment path
  rw [splitParams_append hf hl, List.append_assoc]
  exact (List.prefix_append_right_inj front).2 (cut_spec ';' last).2

/-- A rooted path stays rooted. -/
theorem splitParams_rooted (path : List Char) : (splitParams ('/' :: path)).1.head? = some '/' := by
  obtain ⟨front, last, heq, hf, hl⟩ := exists_segment ('/' :: path)
  rw [heq, splitParams_append hf hl]
  cases front with
  | nil =>
    rw [List.nil_append] at heq
    rw [← heq] at hl
    exact absurd List.mem_cons_self hl
  | cons c r =>
    cases heq
    rfl

end Params

/-! ### Schemes and hosts -/

/-- A scheme as it is kept: a letter and characters of schemes, none in upper case. -/
structure IsScheme (cs : List Char) : Prop where
  letter : ∃ c ∈ cs.head?, c.isAlpha = true
  chars : ∀ c ∈ cs, isSchemeChar c = true
  lower : cs.map Char.toLower = cs

section Hosts

variable {cs s r netloc rest : List Char}

theorem not_isSchemeChar_colon : isSchemeChar ':' = false := by decide

theorem isSchemeChar_toLower {c : Char} (h : isSchemeChar c = true) :
    isSchemeChar c.toLower = true := by
  by_cases hu : c.isUpper = true
  · have ha : c.toLower.isAlpha = true := by
      rw [Char.isAlpha_toLower_eq_isAlpha, Char.isAlpha, hu, Bool.true_or]
    simp [isSchemeChar, Char.isAlphanum, ha]
  · rwa [Char.toLower_eq_of_not_isUpper hu]

theorem IsScheme.split (h : IsScheme s) (r : List Char) : splitScheme (s ++ ':' :: r) = (s, r) := by
  have hspan : (s ++ ':' :: r).span (· != ':') = (s, ':' :: r) :=
    span_append (fun c hc => bne_iff_ne.2 fun e => by
      have hc := h.chars c hc
      rw [e, not_isSchemeChar_colon] at hc
      cases hc) (by simp)
  obtain ⟨c, hc, halpha⟩ := h.letter
  have hchars : s.all isSchemeChar = true := List.all_eq_true.2 h.chars
  rw [splitScheme, hspan]
  cases s with
  | nil => cases hc
  | cons c' t =>
    cases hc
    simp only [halpha, hchars, Bool.and_self, if_true, h.lower]

/-- What stands in front of the first colon is a scheme, or there is none. -/
theorem splitScheme_spec (cs : List Char) :
    ((splitScheme cs).1 = [] ∨ IsScheme (splitScheme cs).1) ∧ (splitScheme cs).2 ⊆ cs := by
  obtain ⟨happ, -, -⟩ := span_spec (· != ':') cs
  unfold splitScheme
  generalize cs.span (· != ':') = p at *
  obtain ⟨s, r⟩ := p
  subst happ
  simp only
  split
  · rename_i c t r
    split
    · rename_i h
      obtain ⟨halpha, hchars⟩ := Bool.and_eq_true_iff.1 h
      refine ⟨.inr ⟨⟨c.toLower, rfl, ?_⟩, fun c' hc' => ?_, ?_⟩, fun x hx => ?_⟩
      · rwa [Char.isAlpha_toLower_eq_isAlpha]
      · obtain ⟨c₀, h₀, rfl⟩ := List.mem_map.1 hc'
        exact isSchemeChar_toLower (List.all_eq_true.1 hchars c₀ h₀)
      · rw [List.map_map]
        exact List.map_congr_left fun c _ => Char.toLower_toLower_eq_toLower c
      · exact List.mem_append_right _ (List.mem_cons_of_mem _ hx)
    · exact ⟨.inl rfl, fun _ h => h⟩
  · exact ⟨.inl rfl, fun _ h => h⟩

/-- Whether a character may stand in a host. -/
def isHostChar (c : Char) : Bool := c != '/' && c != '?' && c != '#'

theorem splitHost_append (hn : ∀ c ∈ netloc, isHostChar c = true)
    (hr : ∀ c ∈ rest.head?, isHostChar c = false) :
    splitHost ('/' :: '/' :: (netloc ++ rest)) = (netloc, rest) := span_append hn hr

theorem splitHost_of_not_prefix (h : ¬['/', '/'] <+: cs) : splitHost cs = ([], cs) := by
  unfold splitHost
  split
  · exact absurd ⟨_, rfl⟩ h
  · rfl

/-- A host is free of delimiters, and one of them follows, or nothing. -/
theorem splitHost_spec (cs : List Char) :
    (∀ c ∈ (splitHost cs).1, isHostChar c = true) ∧ (splitHost cs).2 ⊆ cs ∧
      (splitHost cs).1 ⊆ cs ∧
      ((splitHost cs).1 ≠ [] → ∀ c ∈ (splitHost cs).2.head?, isHostChar c = false) := by
  unfold splitHost
  split
  · rename_i r
    obtain ⟨happ, hfst, hsnd⟩ := span_spec isHostChar r
    refine ⟨hfst, fun c hc => ?_, fun c hc => ?_, fun _ => hsnd⟩
    · exact List.mem_cons_of_mem _ (List.mem_cons_of_mem _ (happ ▸ List.mem_append_right _ hc))
    · exact List.mem_cons_of_mem _ (List.mem_cons_of_mem _ (happ ▸ List.mem_append_left _ hc))
  · exact ⟨nofun, fun _ h => h, nofun, fun h => absurd rfl h⟩

end Hosts

/-! ### The parts of a text -/

/-- The characters of a text that count. -/
def counted (text : String) : List Char :=
  (text.toList.dropWhile isControlOrSpace).filter fun c => !isUnsafe c

/-- A path and the parameters in it. -/
def pathParts (scheme : String) (path : List Char) : List Char × List Char :=
  if withParams.contains scheme then splitParams path else (path, [])

/-- The parts of a uri, whatever its host is. -/
def ofChars (cs : List Char) : Uri :=
  let s := splitScheme cs
  let n := splitHost s.2
  let f := cut '#' n.2
  let q := cut '?' f.1
  let p := pathParts (.ofList s.1) q.1
  { scheme := .ofList s.1, netloc := .ofList n.1, path := .ofList p.1, params := .ofList p.2
    query := .ofList q.2, fragment := .ofList f.2 }

/-- A uri without a scheme is a file. -/
def orFile (u : Uri) : Uri := if u.scheme = "" then { u with scheme := fileScheme } else u

/-- Whether a host is one. -/
def HostFits (netloc : String) : Prop :=
  checkNetloc netloc.toList = .ok () ∧ checkLookalikes netloc.toList = .ok ()

/-- **A text is read** as its parts, if its host is one. -/
theorem ofText_iff {text : String} {u : Uri} :
    ofText text = .ok u ↔ HostFits u.netloc ∧ u = (ofChars (counted text)).orFile := by
  have hnetloc : (ofChars (counted text)).orFile.netloc = (ofChars (counted text)).netloc := by
    unfold orFile
    split <;> rfl
  have hparts (v : Uri) : v.withParts {} = v.orFile := by
    simp [withParts, orFile]
  have hsplit : split text = (do
      checkNetloc (ofChars (counted text)).netloc.toList
      checkLookalikes (ofChars (counted text)).netloc.toList
      return ofChars (counted text)) := by
    simp only [split, ofChars, pathParts, counted, String.toList_ofList]
    rfl
  unfold ofText HostFits
  rw [hsplit]
  cases hn : checkNetloc (ofChars (counted text)).netloc.toList with
  | error e =>
    refine ⟨nofun, fun ⟨⟨h, _⟩, hu⟩ => ?_⟩
    rw [hu, hnetloc, hn] at h
    cases h
  | ok x =>
    cases hl : checkLookalikes (ofChars (counted text)).netloc.toList with
    | error e =>
      refine ⟨nofun, fun ⟨⟨_, h⟩, hu⟩ => ?_⟩
      rw [hu, hnetloc, hl] at h
      cases h
    | ok y =>
      show Except.ok ((ofChars (counted text)).withParts {}) = .ok u ↔ _
      rw [hparts]
      refine ⟨fun h => ?_, fun h => by rw [h.2]⟩
      cases h
      rw [hnetloc]
      exact ⟨⟨hn, hl⟩, rfl⟩

theorem toList_fullPath (u : Uri) :
    u.fullPath.toList = u.path.toList ++ behind ';' u.params.toList := by
  unfold fullPath behind
  by_cases h : u.params = ""
  · simp [h]
  · have h' : u.params.toList ≠ [] := fun e => h (by simpa using e)
    simp [h, h']

theorem pathParts_spec (scheme : String) (path : List Char) :
    (pathParts scheme path).1 ++ behind ';' (pathParts scheme path).2 <+: path ∧
      pathParts scheme ((pathParts scheme path).1 ++ behind ';' (pathParts scheme path).2) =
        pathParts scheme path := by
  unfold pathParts
  split
  · exact ⟨isPrefix_splitParams path, splitParams_join path⟩
  · rw [behind_nil, List.append_nil]
    exact ⟨List.prefix_rfl, rfl⟩

/-- No part has a delimiter in it that would have cut it off. -/
structure Apart (u : Uri) : Prop where
  host : ∀ c ∈ u.netloc.toList, isHostChar c = true
  path : '#' ∉ u.fullPath.toList ∧ '?' ∉ u.fullPath.toList
  /-- Behind a host a path begins with a slash, if there is one. -/
  rooted : u.netloc ≠ "" → ∀ c ∈ u.fullPath.toList.head?, c = '/'
  query : '#' ∉ u.query.toList
  safe : ∀ c ∈ u.netloc.toList ++ u.fullPath.toList ++ u.query.toList ++ u.fragment.toList,
    isUnsafe c = false

/-- What holds of a uri that was read. -/
structure Read (u : Uri) : Prop extends Apart u where
  scheme : IsScheme u.scheme.toList
  fits : HostFits u.netloc
  /-- Parameters are where the scheme has them.  Only a file can have been without a scheme. -/
  params : u.scheme ≠ fileScheme →
    pathParts u.scheme u.fullPath.toList = (u.path.toList, u.params.toList)

theorem apart_ofChars {cs : List Char} (hs : ∀ c ∈ cs, isUnsafe c = false) : (ofChars cs).Apart := by
  obtain ⟨-, hrest⟩ := splitScheme_spec cs
  obtain ⟨hhost, hafter, hnetloc, hnext⟩ := splitHost_spec (splitScheme cs).2
  obtain ⟨hhash, hhere⟩ := cut_spec '#' (splitHost (splitScheme cs).2).2
  obtain ⟨hquest, hthere⟩ := cut_spec '?' (cut '#' (splitHost (splitScheme cs).2).2).1
  obtain ⟨hpath, -⟩ := pathParts_spec (.ofList (splitScheme cs).1)
    (cut '?' (cut '#' (splitHost (splitScheme cs).2).2).1).1
  dsimp only [ofChars]
  generalize splitScheme cs = s at *
  generalize splitHost s.2 = n at *
  generalize cut '#' n.2 = f at *
  generalize cut '?' f.1 = q at *
  generalize pathParts (String.ofList s.1) q.1 = p at *
  have hback : f.1 <+: n.2 := (List.prefix_append _ _).trans hhere
  have hqpath : q.1 <+: f.1 := (List.prefix_append _ _).trans hthere
  have hnohash : '#' ∉ p.1 ++ behind ';' p.2 := fun h => hhash (hqpath.subset (hpath.subset h))
  have hnoquest : '?' ∉ p.1 ++ behind ';' p.2 := fun h => hquest (hpath.subset h)
  have hquery : q.2 ⊆ f.1 := fun c hc =>
    hthere.subset (List.mem_append_right _ (subset_behind '?' _ hc))
  have hall {c : Char} (h : c ∈ s.2) : isUnsafe c = false := hs c (hrest h)
  refine ⟨?_, ?_, fun hn c hc => ?_, ?_, fun c hc => ?_⟩ <;>
    simp only [toList_fullPath, String.toList_ofList] at *
  · exact hhost
  · exact ⟨hnohash, hnoquest⟩
  · obtain ⟨r, hr⟩ := (hpath.trans hqpath).trans hback
    have hcn : c ∈ n.2.head? := by
      rw [← hr, List.head?_append, show List.head? _ = some c from hc]
      exact Option.mem_some_self c
    have hne : n.1 ≠ [] := fun e => hn (by rw [e])
    have hmem := List.mem_of_mem_head? hc
    by_contra hslash
    have hend := hnext hne c hcn
    rw [isHostChar, bne_iff_ne.2 hslash, Bool.true_and, Bool.and_eq_false_iff, bne_eq_false_iff_eq,
      bne_eq_false_iff_eq] at hend
    rcases hend with rfl | rfl
    · exact hnoquest hmem
    · exact hnohash hmem
  · exact fun h => hhash (hquery h)
  · rcases List.mem_append.1 hc with hc | hc
    · rcases List.mem_append.1 hc with hc | hc
      · rcases List.mem_append.1 hc with hc | hc
        · exact hall (hnetloc hc)
        · exact hall (hafter (hback.subset (hqpath.subset (hpath.subset hc))))
      · exact hall (hafter (hback.subset (hquery hc)))
    · exact hall (hafter (hhere.subset (List.mem_append_right _ (subset_behind '#' _ hc))))

theorem ofChars_scheme (cs : List Char) :
    (ofChars cs).scheme = "" ∨ IsScheme (ofChars cs).scheme.toList := by
  simpa [ofChars] using (splitScheme_spec cs).1

theorem ofChars_params (cs : List Char) :
    pathParts (ofChars cs).scheme (ofChars cs).fullPath.toList =
      ((ofChars cs).path.toList, (ofChars cs).params.toList) := by
  rw [toList_fullPath]
  simpa only [ofChars, String.toList_ofList] using (pathParts_spec ..).2

theorem isScheme_file : IsScheme fileScheme.toList := by
  have hchars : fileScheme.toList = ['f', 'i', 'l', 'e'] := rfl
  rw [hchars]
  exact ⟨⟨'f', rfl, rfl⟩, List.all_eq_true.1 rfl, rfl⟩

/-- **Every uri that was read has proper parts.** -/
theorem read_of_ofText {text : String} {u : Uri} (h : ofText text = .ok u) : u.Read := by
  obtain ⟨hfits, rfl⟩ := ofText_iff.1 h
  have hapart : (ofChars (counted text)).Apart :=
    apart_ofChars fun c hc => by simpa using (List.mem_filter.1 hc).2
  have hscheme := ofChars_scheme (counted text)
  have hparams := ofChars_params (counted text)
  generalize ofChars (counted text) = v at *
  unfold orFile at hfits ⊢
  split
  · rename_i hs
    rw [if_pos hs] at hfits
    exact { hapart with scheme := isScheme_file, fits := hfits, params := fun h => absurd rfl h }
  · rename_i hs
    rw [if_neg hs] at hfits
    exact ⟨hapart, hscheme.resolve_left hs, hfits, fun _ => hparams⟩

end EditorBridge.Uri
