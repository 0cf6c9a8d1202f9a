/-
The text of a uri as the identity of its document.

A document is found again by the text of its uri, and told apart from others by it, if that
text is read as the uri it was written from.  Writing puts the scheme in front of everything,
so it is lost that a text without a scheme had parameters, which files do not have.  What
else is lost depends on the rule by which a host is announced that is not there: by the
oldest rule, that a path began with two slashes, and by all but the newest, that it was not
rooted.  A uri that was read is read back exactly if it has nothing that is lost
(`ofText_toText_iff`), whatever the rule.
-/
import EditorBridge.Proofs.Editor.Lifecycle
import EditorBridge.Proofs.Uri.Reading

namespace EditorBridge

namespace Uri

/-- A uri that its text tells. -/
structure Clear (rule : Slashes) (u : Uri) : Prop where
  /-- A file has no parameters: only a text without a scheme gives it some. -/
  params : u.scheme = fileScheme → u.params = ""
  /-- By the oldest rule, a path that stands alone does not look like a host. -/
  single : rule = .unlessDoubled → u.netloc = "" → u.fullPath.startsWith "//" = false
  /-- By all rules but the newest, a path is rooted where there may be a host. -/
  rooted : rule ≠ .unlessRelative → u.netloc = "" → withHost.contains u.scheme = true →
    u.fullPath = "" ∨ u.fullPath.startsWith "/" = true

instance (rule : Slashes) (u : Uri) : Decidable (u.Clear rule) :=
  decidable_of_iff ((u.scheme = fileScheme → u.params = "") ∧
      (rule = .unlessDoubled → u.netloc = "" → u.fullPath.startsWith "//" = false) ∧
      (rule ≠ .unlessRelative → u.netloc = "" → withHost.contains u.scheme = true →
        u.fullPath = "" ∨ u.fullPath.startsWith "/" = true))
    ⟨fun h => ⟨h.1, h.2.1, h.2.2⟩, fun h => ⟨h.1, h.2, h.3⟩⟩

variable {rule : Slashes} {u : Uri}

/-! ### Writing -/

/-- Whether a host is written in front of the path, be it an empty one. -/
def hosted (rule : Slashes) (u : Uri) : Bool :=
  u.netloc != "" || rule.announce u.scheme u.fullPath

/-- A path as it is written behind a host. -/
def root (path : List Char) : List Char :=
  if path = [] ∨ path.head? = some '/' then path else '/' :: path

/-- Host and path as they are written. -/
def body (rule : Slashes) (u : Uri) : List Char :=
  if u.hosted rule then '/' :: '/' :: (u.netloc.toList ++ root u.fullPath.toList) else u.fullPath.toList

/-- What is written behind the path. -/
def tail (u : Uri) : List Char := behind '?' u.query.toList ++ behind '#' u.fragment.toList

theorem startsWith_slash {s : String} : s.startsWith "/" = true ↔ s.toList.head? = some '/' := by
  rw [String.startsWith_string_iff]
  cases h : s.toList <;> simp [List.cons_prefix_cons, eq_comm]

theorem startsWith_slashes {s : String} : s.startsWith "//" = true ↔ ['/', '/'] <+: s.toList :=
  String.startsWith_string_iff

theorem toList_eq_nil {s : String} : s.toList = [] ↔ s = "" := by simp

theorem toList_toText (hs : u.scheme ≠ "") :
    (u.toText rule).toList = u.scheme.toList ++ ':' :: (u.body rule ++ u.tail) := by
  have hquery : (if (u.query == "") = true then "" else "?" ++ u.query).toList =
      behind '?' u.query.toList := by
    unfold behind
    by_cases h : u.query = "" <;> simp [h]
  have hfragment : (if (u.fragment == "") = true then "" else "#" ++ u.fragment).toList =
      behind '#' u.fragment.toList := by
    unfold behind
    by_cases h : u.fragment = "" <;> simp [h]
  have hroot : (if (u.fullPath == "" || u.fullPath.startsWith "/") = true then u.fullPath
      else "/" ++ u.fullPath).toList = root u.fullPath.toList := by
    have hiff : (u.fullPath == "" || u.fullPath.startsWith "/") = true ↔
        u.fullPath.toList = [] ∨ u.fullPath.toList.head? = some '/' := by
      rw [Bool.or_eq_true, beq_iff_eq, startsWith_slash, toList_eq_nil]
    unfold root
    by_cases h : (u.fullPath == "" || u.fullPath.startsWith "/") = true
    · rw [if_pos h, if_pos (hiff.1 h)]
    · rw [if_neg h, if_neg (mt hiff.2 h)]
      simp
  have hhosted : (u.netloc != "" || rule.announce u.scheme u.fullPath) = u.hosted rule := rfl
  simp only [toText, hhosted, beq_eq_false_iff_ne.2 hs, Bool.false_eq_true, if_false,
    String.toList_append, hquery, hfragment]
  unfold body tail
  by_cases h : u.hosted rule = true
  · rw [if_pos h, if_pos h, String.toList_append, hroot]
    simp
  · rw [if_neg h, if_neg h]
    simp

/-! ### Reading what was written -/

theorem root_eq {path : List Char} (h : path = [] ∨ path.head? = some '/') : root path = path :=
  if_pos h

theorem mem_root {path : List Char} {c : Char} (h : c ∈ root path) : c = '/' ∨ c ∈ path := by
  unfold root at h
  split at h
  · exact .inr h
  · exact List.mem_cons.1 h

theorem head?_root {path : List Char} {c : Char} (h : c ∈ (root path).head?) : c = '/' := by
  unfold root at h
  split at h
  · rename_i hp
    rcases hp with rfl | hp
    · cases h
    · exact (Option.some.inj (hp.symm.trans h)).symm
  · exact (Option.some.inj h).symm

theorem head?_tail {c : Char} (h : c ∈ u.tail.head?) : c = '?' ∨ c = '#' := by
  unfold tail at h
  rw [List.head?_append, Option.mem_def, Option.or_eq_some_iff] at h
  exact h.imp head?_behind fun h => head?_behind h.2

theorem pathParts_rooted (scheme : String) (path : List Char) :
    (pathParts scheme ('/' :: path)).1.head? = some '/' := by
  unfold pathParts
  split
  · exact splitParams_rooted path
  · rfl

theorem pathParts_file (h : u.scheme = fileScheme) (path : List Char) :
    pathParts u.scheme path = (path, []) := by
  rw [pathParts, if_neg (by rw [h]; decide)]

theorem isControlOrSpace_of_isAlpha {c : Char} (h : c.isAlpha = true) :
    isControlOrSpace c = false := by
  have hle : 65 ≤ c.toNat := by
    simp only [Char.isAlpha, Char.isUpper, Char.isLower, Bool.or_eq_true, Bool.and_eq_true,
      decide_eq_true_eq, ge_iff_le, UInt32.le_iff_toNat_le] at h
    rcases h with h | h
    · exact h.1
    · exact Nat.le_trans (by decide) h.1
  simp only [isControlOrSpace, decide_eq_false_iff_not]
  omega

theorem isUnsafe_of_isSchemeChar {c : Char} (h : isSchemeChar c = true) : isUnsafe c = false := by
  by_contra hu
  simp only [isUnsafe, Bool.not_eq_false, Bool.or_eq_true, beq_iff_eq] at hu
  rcases hu with (rfl | rfl) | rfl <;> cases h

namespace Read

theorem scheme_ne (h : u.Read) : u.scheme ≠ "" := by
  obtain ⟨c, hc, -⟩ := h.scheme.letter
  rintro e
  rw [e] at hc
  cases hc

theorem body_safe (h : u.Read) {c : Char} (hc : c ∈ u.body rule) : isUnsafe c = false := by
  have hslash : isUnsafe '/' = false := rfl
  have hpath {c : Char} (hc : c ∈ u.fullPath.toList) : isUnsafe c = false := h.safe c (by simp [hc])
  unfold body at hc
  split at hc
  · simp only [List.mem_cons, List.mem_append] at hc
    rcases hc with rfl | rfl | hc | hc
    · exact hslash
    · exact hslash
    · exact h.safe c (by simp [hc])
    · rcases mem_root hc with rfl | hc
      · exact hslash
      · exact hpath hc
  · exact hpath hc

theorem tail_safe (h : u.Read) {c : Char} (hc : c ∈ u.tail) : isUnsafe c = false := by
  rcases List.mem_append.1 hc with hc | hc <;> rcases mem_behind hc with rfl | hc
  · rfl
  · exact h.safe c (by simp [hc])
  · rfl
  · exact h.safe c (by simp [hc])

/-- Everything that is written counts. -/
theorem counted_toText (h : u.Read) : counted (u.toText rule) = (u.toText rule).toList := by
  obtain ⟨c, hc, halpha⟩ := h.scheme.letter
  rw [counted, toList_toText h.scheme_ne]
  have hdrop : (u.scheme.toList ++ ':' :: (u.body rule ++ u.tail)).dropWhile isControlOrSpace =
      u.scheme.toList ++ ':' :: (u.body rule ++ u.tail) := by
    generalize u.scheme.toList = s at *
    cases s with
    | nil => cases hc
    | cons c' r =>
      cases hc
      rw [List.cons_append, List.dropWhile_cons_of_neg (by simp [isControlOrSpace_of_isAlpha halpha])]
  rw [hdrop]
  refine List.filter_eq_self.2 fun c hc => ?_
  rw [Bool.not_eq_true']
  rcases List.mem_append.1 hc with hc | hc
  · exact isUnsafe_of_isSchemeChar (h.scheme.chars c hc)
  · rcases List.mem_cons.1 hc with rfl | hc
    · rfl
    · exact (List.mem_append.1 hc).elim h.body_safe h.tail_safe

/-- What is read depends on the path that is found behind the host. -/
theorem ofText_toText (h : u.Read) {path : List Char} (hp : '#' ∉ path ∧ '?' ∉ path)
    (hh : splitHost (u.body rule ++ u.tail) = (u.netloc.toList, path ++ u.tail)) :
    ofText (u.toText rule) = .ok u ↔
      pathParts u.scheme path = (u.path.toList, u.params.toList) := by
  have hfragment : cut '#' (path ++ u.tail) = (path ++ behind '?' u.query.toList,
      u.fragment.toList) := by
    rw [tail, ← List.append_assoc]
    refine cut_append_behind fun hm => (List.mem_append.1 hm).elim hp.1 fun hm => ?_
    exact (mem_behind hm).elim (fun h => by cases h) h.query
  have hread : ofChars (counted (u.toText rule)) =
      { u with
        path := .ofList (pathParts u.scheme path).1
        params := .ofList (pathParts u.scheme path).2 } := by
    rw [h.counted_toText, toList_toText h.scheme_ne]
    simp only [ofChars, h.scheme.split, hh, hfragment, cut_append_behind hp.2, String.ofList_toList]
  rw [ofText_iff, hread, orFile, if_neg h.scheme_ne]
  refine ⟨fun hsame => ?_, fun heq => ⟨h.fits, by rw [heq]; simp⟩⟩
  obtain ⟨-, heq⟩ := hsame
  have hpath := congrArg Uri.path heq
  have hparams := congrArg Uri.params heq
  simp only at hpath hparams
  rw [hpath, hparams]
  simp

/-- Behind a host, the path that is found is the one that was rooted. -/
theorem ofText_hosted (h : u.Read) (hh : u.hosted rule = true) :
    ofText (u.toText rule) = .ok u ↔
      pathParts u.scheme (root u.fullPath.toList) = (u.path.toList, u.params.toList) := by
  refine h.ofText_toText ⟨fun hm => ?_, fun hm => ?_⟩ ?_
  · exact (mem_root hm).elim nofun h.path.1
  · exact (mem_root hm).elim nofun h.path.2
  · rw [body, if_pos hh, List.cons_append, List.cons_append, List.append_assoc]
    refine splitHost_append h.host fun c hc => ?_
    rw [List.head?_append, Option.mem_def, Option.or_eq_some_iff] at hc
    rcases hc with hc | ⟨-, hc⟩
    · rw [head?_root hc]
      rfl
    · rcases head?_tail hc with rfl | rfl <;> rfl

/-- Without a host the path is found as it is, unless it looks like one. -/
theorem ofText_bare (h : u.Read) (hh : u.hosted rule = false)
    (hp : ¬['/', '/'] <+: u.fullPath.toList) : ofText (u.toText rule) = .ok u ↔
      pathParts u.scheme u.fullPath.toList = (u.path.toList, u.params.toList) := by
  have hnetloc : u.netloc.toList = [] := by
    rw [hosted, Bool.or_eq_false_iff, bne_eq_false_iff_eq] at hh
    rw [hh.1]
    rfl
  refine h.ofText_toText h.path ?_
  rw [body, if_neg (by simp [hh]), hnetloc]
  refine splitHost_of_not_prefix fun hpre => hp ?_
  have htail {r : List Char} : u.tail ≠ '/' :: r := fun e => by
    have hc := head?_tail (c := '/') (u := u) (by rw [e]; rfl)
    simp at hc
  -- the second slash would have to be in the path, or the first of what follows
  obtain ⟨r, hr⟩ := hpre
  generalize u.fullPath.toList = path at *
  match path, hr with
  | [], hr => exact absurd hr.symm htail
  | [_], hr => exact absurd (List.cons.inj hr).2.symm htail
  | _ :: _ :: path, hr =>
    injection hr with h₁ hr
    injection hr with h₂ hr
    exact ⟨path, by rw [← h₁, ← h₂]; rfl⟩

/-- By the oldest rule, a path that looks like a host is not found again. -/
theorem not_ofText_of_slashes (h : u.Read) (hn : u.netloc = "")
    (hp : ['/', '/'] <+: u.fullPath.toList) : ofText (u.toText .unlessDoubled) ≠ .ok u := by
  intro hread
  obtain ⟨r, hr⟩ := hp
  have hbody : u.body .unlessDoubled = '/' :: '/' :: r := by
    have hs : u.fullPath.startsWith "//" = true := startsWith_slashes.2 ⟨r, hr⟩
    rw [body, hosted, Slashes.announce, hn, hs, if_neg (by simp), ← hr]
    rfl
  -- what is read has no host, so all of the rest is its path, and that is too short
  have hnone : (splitHost (u.body .unlessDoubled ++ u.tail)).1 = [] := by
    have hnetloc := congrArg Uri.netloc (ofText_iff.1 hread).2
    rw [h.counted_toText, toList_toText h.scheme_ne, orFile] at hnetloc
    simp only [ofChars, h.scheme.split] at hnetloc
    rw [hn] at hnetloc
    split at hnetloc <;> simpa using hnetloc.symm
  have hhost : splitHost (u.body .unlessDoubled ++ u.tail) = (u.netloc.toList, r ++ u.tail) := by
    have happ := (span_spec isHostChar (r ++ u.tail)).1
    rw [hbody] at hnone ⊢
    rw [hn]
    change ((r ++ u.tail).span isHostChar).1 = [] at hnone
    rw [hnone, List.nil_append] at happ
    exact Prod.ext hnone happ
  have hrest : '#' ∉ r ∧ '?' ∉ r := by
    have hpath := h.path
    rw [← hr] at hpath
    exact ⟨fun hm => hpath.1 (List.mem_append_right _ hm),
      fun hm => hpath.2 (List.mem_append_right _ hm)⟩
  have hpath := (h.ofText_toText hrest hhost).1 hread
  have hlen := (pathParts_spec u.scheme r).1.length_le
  rw [hpath, ← toList_fullPath, ← hr] at hlen
  simp at hlen

/-- A path that is found as it is tells everything, but the parameters of a file. -/
theorem pathParts_iff (h : u.Read) :
    pathParts u.scheme u.fullPath.toList = (u.path.toList, u.params.toList) ↔
      (u.scheme = fileScheme → u.params = "") := by
  by_cases hs : u.scheme = fileScheme
  · rw [pathParts_file hs, toList_fullPath]
    constructor
    · intro hpath _
      exact toList_eq_nil.1 (Prod.mk.inj hpath).2.symm
    · intro hparams
      rw [hparams hs]
      simp
  · exact iff_of_true (h.params hs) fun hs' => absurd hs' hs

/-- Behind a host, a path that is found again tells everything. -/
theorem clear_of_found
    (hslash : ¬(rule = .unlessDoubled ∧ u.netloc = "" ∧ ['/', '/'] <+: u.fullPath.toList))
    (hpath : pathParts u.scheme (root u.fullPath.toList) = (u.path.toList, u.params.toList)) :
    u.Clear rule := by
  refine ⟨fun hs => ?_, fun hr hn => ?_, fun _ hn _ => ?_⟩
  · rw [pathParts_file hs] at hpath
    exact toList_eq_nil.1 (Prod.mk.inj hpath).2.symm
  · rw [← Bool.not_eq_true, startsWith_slashes]
    exact fun hp => hslash ⟨hr, hn, hp⟩
  · rw [startsWith_slash, ← toList_eq_nil]
    by_contra hroot
    -- the path that is found is rooted, and it is the one that was written
    have hfound := pathParts_rooted u.scheme u.fullPath.toList
    rw [root, if_neg hroot] at hpath
    rw [hpath] at hfound
    refine hroot (.inr ?_)
    rw [toList_fullPath, List.head?_append, hfound]
    rfl

/-- Where no host is, a path behind the two slashes of one is rooted. -/
theorem rooted_of_clear (hn : u.netloc = "") (hh : u.hosted rule = true) (hc : u.Clear rule) :
    u.fullPath = "" ∨ u.fullPath.startsWith "/" = true := by
  have hdoubled (h : u.fullPath.startsWith "//" = true) : u.fullPath.startsWith "/" = true := by
    obtain ⟨r, hr⟩ := startsWith_slashes.1 h
    rw [startsWith_slash, ← hr]
    rfl
  simp only [hosted, hn, bne_self_eq_false, Bool.false_or] at hh
  cases rule with
  | unlessDoubled =>
    simp only [Slashes.announce, Bool.and_eq_true] at hh
    exact hc.rooted nofun hn hh.1.2
  | always =>
    simp only [Slashes.announce, Bool.or_eq_true, Bool.and_eq_true] at hh
    exact hh.elim (fun hw => hc.rooted nofun hn hw.2) fun hd => .inr (hdoubled hd)
  | unlessRelative =>
    simp only [Slashes.announce, Bool.or_eq_true, Bool.and_eq_true, beq_iff_eq] at hh
    exact hh.elim (fun hw => hw.2) fun hd => .inr (hdoubled hd)

/-- A clear path is found again behind a host. -/
theorem found_of_clear (h : u.Read) (hh : u.hosted rule = true) (hc : u.Clear rule) :
    pathParts u.scheme (root u.fullPath.toList) = (u.path.toList, u.params.toList) := by
  have hroot : u.fullPath.toList = [] ∨ u.fullPath.toList.head? = some '/' := by
    by_cases hn : u.netloc = ""
    · rw [← startsWith_slash, toList_eq_nil]
      exact rooted_of_clear hn hh hc
    · cases hp : u.fullPath.toList with
      | nil => exact .inl rfl
      | cons c r => exact .inr (congrArg some (h.rooted hn c (by rw [hp]; rfl)))
  rw [root_eq hroot]
  exact h.pathParts_iff.2 hc.params

/-- Without a host, a path does not begin with two slashes, and is not rooted where there may be
one. -/
theorem bare_spec (hh : u.hosted rule = false)
    (hslash : ¬(rule = .unlessDoubled ∧ u.netloc = "" ∧ ['/', '/'] <+: u.fullPath.toList)) :
    ¬['/', '/'] <+: u.fullPath.toList ∧
      (rule ≠ .unlessRelative → u.scheme ≠ "" → withHost.contains u.scheme = false) := by
  rw [hosted, Bool.or_eq_false_iff, bne_eq_false_iff_eq] at hh
  obtain ⟨hn, hw⟩ := hh
  rw [← startsWith_slashes] at hslash ⊢
  cases rule with
  | unlessDoubled =>
    have hd : ¬u.fullPath.startsWith "//" = true := fun hd => hslash ⟨rfl, hn, hd⟩
    refine ⟨hd, fun _ hs => ?_⟩
    simpa [Slashes.announce, hd, hs] using hw
  | always =>
    simp only [Slashes.announce, Bool.or_eq_false_iff] at hw
    exact ⟨by simp [hw.2], fun _ hs => by simpa [hs] using hw.1⟩
  | unlessRelative =>
    simp only [Slashes.announce, Bool.or_eq_false_iff] at hw
    exact ⟨by simp [hw.2], fun hr => absurd rfl hr⟩

/-- Without a host, only the parameters of a file are lost. -/
theorem clear_of_bare (h : u.Read) (hh : u.hosted rule = false)
    (hslash : ¬(rule = .unlessDoubled ∧ u.netloc = "" ∧ ['/', '/'] <+: u.fullPath.toList))
    (hparams : u.scheme = fileScheme → u.params = "") : u.Clear rule := by
  obtain ⟨hp, hw⟩ := bare_spec hh hslash
  refine ⟨hparams, fun _ _ => ?_, fun hr _ hw' => ?_⟩
  · rwa [← Bool.not_eq_true, startsWith_slashes]
  · cases (hw hr h.scheme_ne).symm.trans hw'

end Read

/-- **A uri that was read is read back** from its text exactly if it is clear. -/
theorem Read.ofText_toText_iff (h : u.Read) : ofText (u.toText rule) = .ok u ↔ u.Clear rule := by
  by_cases hslash : rule = .unlessDoubled ∧ u.netloc = "" ∧ ['/', '/'] <+: u.fullPath.toList
  · obtain ⟨rfl, hn, hp⟩ := hslash
    refine iff_of_false (h.not_ofText_of_slashes hn hp) fun hc => ?_
    rw [← startsWith_slashes, hc.single rfl hn] at hp
    cases hp
  cases hh : u.hosted rule with
  | true =>
    rw [h.ofText_hosted hh]
    exact ⟨clear_of_found hslash, h.found_of_clear hh⟩
  | false =>
    rw [h.ofText_bare hh (bare_spec hh hslash).1, h.pathParts_iff]
    exact ⟨h.clear_of_bare hh hslash, fun hc => hc.params⟩

/-- **Clear uris are told apart by their texts.** -/
theorem Read.eq_of_toText {v : Uri} (hu : u.Read) (hv : v.Read) (hcu : u.Clear rule)
    (hcv : v.Clear rule) (h : u.toText rule = v.toText rule) : u = v := by
  have hback := hu.ofText_toText_iff.2 hcu
  rw [h, hv.ofText_toText_iff.2 hcv] at hback
  exact (Except.ok.inj hback).symm

end Uri

namespace Workbench

variable {w : Workbench} {past : List Moment}

/-! ### Documents on the shelf -/

/-- What is on the shelf is found by its name there. -/
theorem Kept.lookup (hk : Kept w past) {e : Uri × DocumentId} (he : e ∈ w.shelf) :
    w.shelf.lookup e.1 = some e.2 := by
  obtain ⟨before, after, hw⟩ := List.append_of_mem he
  have honce := hk.once
  rw [hw, List.map_append, List.map_cons] at honce
  refine List.lookup_eq_some_iff.2 ⟨before, after, hw, fun e' he' => bne_iff_ne.2 fun heq => ?_⟩
  exact (List.nodup_append.1 honce).2.2 e'.1 (List.mem_map_of_mem he') e.1 List.mem_cons_self
    heq.symm

theorem find?_text {s : String} {j : Journal} : find? (.text s) ⟨j, w⟩ =
    (match readUri s with
      | .ok u => (.ok (w.shelf.lookup u), ⟨j, w⟩)
      | .error f => (.error f, ⟨j, w⟩)) := by
  show (do lookup (← Act.ofExcept (readUri s)) : Act Workbench _) ⟨j, w⟩ = _
  cases readUri s <;> rfl

/-- **One document, one identity.**  By whatever rule uris are written, texts that are read as
clear uris have the same identity exactly if they are read as the same uri.  So whatever was done
in an editor, two open documents whose names are clear have different identities, and an open
document is found by its identity exactly if its name is clear. -/
theorem oneIdentity (h : History w past) (hread : ∀ e ∈ w.shelf, ∃ a, Uri.ofText a = .ok e.1)
    (rule : Uri.Slashes) :
    (∀ a b u v, Uri.ofText a = .ok u → Uri.ofText b = .ok v → u.Clear rule → v.Clear rule →
      (u = v ↔ u.toText rule = v.toText rule)) ∧
    (∀ e ∈ w.shelf, ∀ e' ∈ w.shelf, e.1.Clear rule → e'.1.Clear rule →
      (w.doc e.2).uri.toText rule = (w.doc e'.2).uri.toText rule → e = e') ∧
    ∀ e ∈ w.shelf, (w.doc e.2).uri = e.1 ∧ (e.1.Clear rule ↔
      ∀ j, find? (.text ((w.doc e.2).uri.toText rule)) ⟨j, w⟩ = (.ok (some e.2), ⟨j, w⟩)) := by
  refine ⟨fun a b u v hu hv hcu hcv => ⟨fun h => by rw [h], fun h => ?_⟩, ?_⟩
  · exact (Uri.read_of_ofText hu).eq_of_toText (Uri.read_of_ofText hv) hcu hcv h
  have hk := h.kept
  have huri {e : Uri × DocumentId} (he : e ∈ w.shelf) : (w.doc e.2).uri = e.1 :=
    (hk.filed _ _ (hk.lookup he)).2.1
  have hr {e : Uri × DocumentId} (he : e ∈ w.shelf) : e.1.Read := by
    obtain ⟨a, ha⟩ := hread e he
    exact Uri.read_of_ofText ha
  refine ⟨fun e he e' he' hc hc' hid => ?_, fun e he => ⟨huri he, ?_⟩⟩
  · rw [huri he, huri he'] at hid
    have hkey := (hr he).eq_of_toText (hr he') hc hc' hid
    have hplace := hk.lookup he
    rw [hkey, hk.lookup he'] at hplace
    exact Prod.ext hkey (Option.some.inj hplace).symm
  · rw [← (hr he).ofText_toText_iff]
    simp only [find?_text, huri he, readUri]
    refine ⟨fun hback j => ?_, fun hfound => ?_⟩
    · rw [hback]
      exact Prod.ext (congrArg Except.ok (hk.lookup he)) rfl
    · cases hu : Uri.ofText (e.1.toText rule) with
      | error f =>
        have hfound := hfound {}
        rw [hu] at hfound
        cases hfound
      | ok u =>
        have hfound := hfound {}
        rw [hu] at hfound
        have hl : w.shelf.lookup u = some e.2 := Except.ok.inj (Prod.mk.inj hfound).1
        rw [← (hk.filed u e.2 hl).2.1, huri he]

/-- The uri of a text. -/
private def means (name : String) : Uri := (Uri.ofText name).toOption.getD default

private theorem ofText_means {name : String} (h : (Uri.ofText name).toOption.isSome = true) :
    Uri.ofText name = .ok (means name) := by
  unfold means
  cases hu : Uri.ofText name with
  | ok u => rfl
  | error e =>
    rw [hu] at h
    cases h

/-- The editor after a document was opened by its name. -/
private def withText (w : Workbench) (name : String) : Workbench :=
  ((Operation.opening { name := .text name, text := [] }).act ⟨{}, w⟩).2.state

private theorem history_withText {name : String} (h : History w past)
    (hu : (Uri.ofText name).toOption.isSome = true) (hl : w.shelf.lookup (means name) = none) :
    ∃ past', History (withText w name) past' :=
  ⟨_, h.does (.opening { name := .text name, text := [] }) trivial nofun _
    (.opening (u := means name) (by
      show readUri name = _
      rw [readUri, ofText_means hu]
      rfl) hl) {}⟩

/-- A file is found by the text of its uri, which is another one than it was opened by, and is read
as the same uri. -/
theorem oneIdentity_file : Uri.ofText "FILE:/a%20b?q#f" = Uri.ofText "file:///a%20b?q#f" ∧
    ∃ w past, History w past ∧ ∀ rule : Uri.Slashes,
      w.shelf.map (·.1.toText rule) = ["file:///a%20b?q#f"] ∧
      ∀ e ∈ w.shelf, ∀ j, find? (.text ((w.doc e.2).uri.toText rule)) ⟨j, w⟩ =
        (.ok (some e.2), ⟨j, w⟩) := by
  have hname : (Uri.ofText "FILE:/a%20b?q#f").toOption.isSome = true := by decide +kernel
  have hname' : (Uri.ofText "file:///a%20b?q#f").toOption.isSome = true := by decide +kernel
  have hshelf : (withText {} "FILE:/a%20b?q#f").shelf = [(means "FILE:/a%20b?q#f", 0)] := by
    decide +kernel
  obtain ⟨past, h⟩ := history_withText (.fresh (w := {}) rfl rfl) hname rfl
  have hread : ∀ e ∈ (withText {} "FILE:/a%20b?q#f").shelf, ∃ a, Uri.ofText a = .ok e.1 := by
    rw [hshelf]
    exact fun e he => ⟨"FILE:/a%20b?q#f", by rw [List.mem_singleton.1 he, ofText_means hname]⟩
  have heq : means "FILE:/a%20b?q#f" = means "file:///a%20b?q#f" :=
    ((oneIdentity h hread .always).1 _ _ _ _ (ofText_means hname) (ofText_means hname')
      (by decide +kernel) (by decide +kernel)).2 (by decide +kernel)
  refine ⟨by rw [ofText_means hname, ofText_means hname', heq], ?_⟩
  refine ⟨_, past, h, fun rule => ⟨by cases rule <;> decide +kernel, fun e he => ?_⟩⟩
  refine ((oneIdentity h hread rule).2.2 e he).2.1 ?_
  rw [hshelf] at he
  rw [List.mem_singleton.1 he]
  cases rule <;> decide +kernel

/-- **Two documents with one identity** are open side by side, if one of them was opened by a text
without a scheme and with parameters. -/
theorem not_oneIdentity_parameters : ∃ w past, History w past ∧
    (∀ e ∈ w.shelf, ∃ a, Uri.ofText a = .ok e.1) ∧
    ∃ e ∈ w.shelf, ∃ e' ∈ w.shelf, e.1 ≠ e'.1 ∧ ∀ rule : Uri.Slashes,
      (w.doc e.2).uri.toText rule = "file:///x;y" ∧
      (w.doc e'.2).uri.toText rule = "file:///x;y" := by
  have hshelf : (withText (withText {} "/x;y") "file:///x;y").shelf =
      [(means "/x;y", 0), (means "file:///x;y", 1)] := by decide +kernel
  have hname : (Uri.ofText "/x;y").toOption.isSome = true ∧
      (Uri.ofText "file:///x;y").toOption.isSome = true := by decide +kernel
  obtain ⟨past, h⟩ := history_withText (.fresh (w := {}) rfl rfl) hname.1 rfl
  obtain ⟨past', h'⟩ := history_withText h hname.2 (by decide +kernel)
  refine ⟨_, past', h', fun e he => ?_, (means "/x;y", 0), by rw [hshelf]; simp,
    (means "file:///x;y", 1), by rw [hshelf]; simp, by decide +kernel, fun rule => ?_⟩
  · rw [hshelf, List.mem_cons, List.mem_singleton] at he
    rcases he with rfl | rfl
    · exact ⟨_, ofText_means hname.1⟩
    · exact ⟨_, ofText_means hname.2⟩
  · cases rule <;> exact ⟨by decide +kernel, by decide +kernel⟩

end Workbench

end EditorBridge
