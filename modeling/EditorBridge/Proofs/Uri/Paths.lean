/-
Paths and the uris of their files.

A path goes into the uri of its file byte by byte, and comes back byte by byte: a byte that
could mean something in a uri is written as a percent sign and two digits, so that no part of the
uri but the path is there when it is read (`ofText_escaped`), and the bytes of the path are the
bytes that were written (`unescape_escape`).

What comes back is read as a path once more, but a text that begins like the path of a drive,
with a slash, a letter and a colon, is taken for one: its letter is made a small one and the
slash in front of it is left out.  An absolute path may begin like that, and then what comes
back is another path, and not an absolute one.
-/
import EditorBridge.Uri.File
import EditorBridge.Proofs.Text.Utf8
import EditorBridge.Proofs.Uri.Reading

namespace EditorBridge

/-! ### Paths as texts -/

namespace FilePath

variable {p : FilePath} {s : String}

theorem not_mem_of_mem_splitOn {d : Char} {cs l : List Char} (h : l ∈ cs.splitOn d) : d ∉ l := by
  induction cs generalizing l with
  | nil =>
    rw [List.splitOn_nil, List.mem_singleton] at h
    rw [h]
    exact List.not_mem_nil
  | cons c cs ih =>
    rw [List.splitOn, List.splitOnP_cons_eq_if_modifyHead] at h
    split at h
    · rcases List.mem_cons.1 h with rfl | h
      · exact List.not_mem_nil
      · exact ih h
    · rename_i hc
      change l ∈ (cs.splitOn d).modifyHead (List.cons c) at h
      generalize cs.splitOn d = ls at *
      cases ls with
      | nil => cases h
      | cons a ls =>
        rcases List.mem_cons.1 h with rfl | h
        · have hne : d ≠ c := fun e => hc (beq_iff_eq.2 e.symm)
          exact fun hd => ih List.mem_cons_self ((List.mem_cons.1 hd).resolve_left hne)
        · exact ih (List.mem_cons_of_mem a h)

/-- A name below a root: something, not a single dot, and without a slash. -/
structure IsName (n : String) : Prop where
  ne_empty : n ≠ ""
  ne_dot : n ≠ "."
  slashless : '/' ∉ n.toList

/-- A path with a root, and names below it. -/
structure Absolute (p : FilePath) : Prop where
  root : p.root = "/" ∨ p.root = "//"
  names : ∀ n ∈ p.names, IsName n

/-- The names in a text are names of a path. -/
theorem isName_ofString {n : String} (hn : n ∈ (ofString s).names) : IsName n := by
  obtain ⟨hmem, hn⟩ := List.mem_filter.1 hn
  obtain ⟨l, hl, rfl⟩ := List.mem_map.1 hmem
  simp only [Bool.and_eq_true, bne_iff_ne] at hn
  refine ⟨hn.1, hn.2, ?_⟩
  rw [String.toList_ofList]
  exact not_mem_of_mem_splitOn hl

/-- A text that begins with a slash is an absolute path. -/
theorem absolute_ofString (h : s.toList.head? = some '/') : (ofString s).Absolute := by
  refine ⟨?_, fun n hn => isName_ofString hn⟩
  have hslashes : (s.toList.takeWhile (· == '/')).length ≠ 0 := by
    cases hs : s.toList with
    | nil => simp [hs] at h
    | cons c cs =>
      rw [hs] at h
      simp [Option.some.inj h]
  simp only [ofString, if_neg hslashes]
  split
  · exact .inr rfl
  · exact .inl rfl

/-- A path that is read from an absolute one is absolute, or it is the text of a path with a root. -/
theorem Absolute.join_ofString (h : p.Absolute) : (p.join (ofString s)).Absolute := by
  unfold join
  split
  · refine ⟨h.root, fun n hn => ?_⟩
    rcases List.mem_append.1 hn with hn | hn
    · exact h.names n hn
    · exact isName_ofString hn
  · rename_i hroot
    refine ⟨?_, fun n hn => isName_ofString hn⟩
    simp only [ofString, beq_iff_eq] at hroot ⊢
    split at hroot
    · exact absurd rfl hroot
    · rename_i hslashes
      rw [if_neg hslashes]
      split
      · exact .inr rfl
      · exact .inl rfl

theorem Absolute.toList_toString (h : p.Absolute) :
    p.toString.toList = p.root.toList ++ ['/'].intercalate (p.names.map String.toList) := by
  have hne : p.root ++ String.intercalate "/" p.names ≠ "" := by
    intro e
    have hroot := (String.append_eq_empty_iff.1 e).1
    rcases h.root with hr | hr <;> simp [hr] at hroot
  unfold toString
  simp only [beq_iff_eq, if_neg hne, String.toList_append, String.toList_intercalate]
  rfl

/-- The names in a text. -/
def namesOf (cs : List Char) : List String :=
  ((cs.splitOn '/').map String.ofList).filter fun n => n != "" && n != "."

/-- A slash more in front makes no other names. -/
theorem namesOf_slash (cs : List Char) : namesOf ('/' :: cs) = namesOf cs := by
  have hsplit : ('/' :: cs).splitOn '/' = [] :: cs.splitOn '/' := by
    rw [List.splitOn, List.splitOnP_cons_eq_if_modifyHead, if_pos (beq_self_eq_true '/')]
    rfl
  rw [namesOf, hsplit]
  rfl

/-- Names are found where slashes were put between them. -/
theorem namesOf_intercalate {ns : List String} (h : ∀ n ∈ ns, IsName n) :
    namesOf (['/'].intercalate (ns.map String.toList)) = ns := by
  cases ns with
  | nil => rfl
  | cons n ns =>
    have hslashless : ∀ l ∈ (n :: ns).map String.toList, '/' ∉ l := by
      intro l hl
      obtain ⟨n, hn, rfl⟩ := List.mem_map.1 hl
      exact (h n hn).slashless
    have hback : ((n :: ns).map String.toList).map String.ofList = n :: ns := by
      rw [List.map_map]
      exact List.map_id'' (fun _ => String.ofList_toList) _
    rw [namesOf, List.splitOn_intercalate _ hslashless (by simp), hback, List.filter_eq_self]
    intro n hn
    simp [(h n hn).ne_empty, (h n hn).ne_dot]

/-- Names do not begin with a slash. -/
theorem takeWhile_intercalate {ns : List String} (h : ∀ n ∈ ns, IsName n) :
    (['/'].intercalate (ns.map String.toList)).takeWhile (· == '/') = [] := by
  cases ns with
  | nil => rfl
  | cons n ns =>
    have hn := h n List.mem_cons_self
    obtain ⟨c, cs, hc⟩ := List.exists_cons_of_ne_nil
      (show n.toList ≠ [] from fun e => hn.ne_empty (String.toList_eq_nil_iff.1 e))
    have hne : c ≠ '/' := fun e => hn.slashless (by simp [hc, e])
    cases ns <;> simp [hc, hne, List.intercalate]

/-- **An absolute path is read from its text.** -/
theorem Absolute.ofString_toString (h : p.Absolute) : ofString p.toString = p := by
  have hread (s : String) : ofString s =
      ⟨if (s.toList.takeWhile (· == '/')).length = 0 then ""
        else if (s.toList.takeWhile (· == '/')).length = 2 then "//" else "/",
      namesOf s.toList⟩ := rfl
  obtain ⟨root, names⟩ := p
  rw [hread, h.toList_toString]
  rcases h.root with rfl | rfl <;> simp [namesOf_slash, namesOf_intercalate h.names,
    takeWhile_intercalate h.names]

end FilePath

namespace Uri

variable {b : UInt8} {cs : List Char} {s : String}

/-! ### Bytes -/

/-- Whether a character may stand in an escaped text. -/
def isEscapedChar (c : Char) : Bool :=
  c.isAlphanum || c == '_' || c == '.' || c == '-' || c == '~' || c == '/' || c == '%'

/-- A digit as it is written. -/
def upperDigit (n : Nat) : Char := (Nat.digitChar n).toUpper

theorem upperDigit_spec : ∀ n < 16, isHexDigit (upperDigit n) = true ∧
    hexValue (upperDigit n) = n ∧ isEscapedChar (upperDigit n) = true := by decide

/-- A byte is written as itself, or as a percent sign and two digits. -/
theorem escapeByte_eq (b : UInt8) : escapeByte b = if isPlainByte b then [Char.ofNat b.toNat]
    else ['%', upperDigit (b.toNat / 16), upperDigit (b.toNat % 16)] := by
  have hb := b.toNat_lt
  unfold escapeByte
  rw [Nat.toDigits_of_lt_base (show b.toNat / 16 < 16 by omega),
    Nat.toDigits_of_lt_base (show b.toNat % 16 < 16 by omega)]
  rfl

/-- A byte that is written as itself is no percent sign. -/
theorem plainByte_spec (hb : isPlainByte b = true) : Char.ofNat b.toNat ≠ '%' ∧
    isEscapedChar (Char.ofNat b.toNat) = true ∧ (Char.ofNat b.toNat).toUInt8 = b := by
  refine ⟨fun h => ?_, ?_, ?_⟩
  · rw [isPlainByte, h] at hb
    cases hb
  · rw [isEscapedChar]
    exact Bool.or_eq_true_iff.2 (.inl hb)
  · have hlt := b.toNat_lt
    have hvalid : (Char.ofNat b.toNat).toNat = b.toNat := by
      rw [Char.toNat_ofNat, if_pos (.inl (by omega))]
    have hcode : (Char.ofNat b.toNat).val.toNat = b.toNat := hvalid
    refine UInt8.toNat.inj ?_
    rw [Char.toUInt8, UInt32.toNat_toUInt8, hcode, Nat.mod_eq_of_lt hlt]

/-- A byte is written in characters that mean nothing but themselves. -/
theorem escapeByte_chars (b : UInt8) : ∀ c ∈ escapeByte b, isEscapedChar c = true := by
  have hlt := b.toNat_lt
  rw [escapeByte_eq]
  split
  · simpa using (plainByte_spec ‹_›).2.1
  · simpa using ⟨by decide, (upperDigit_spec (b.toNat / 16) (by omega)).2.2,
      (upperDigit_spec (b.toNat % 16) (by omega)).2.2⟩

theorem unescapeBytes_cons {c : Char} (h : c ≠ '%') (r : List Char) :
    unescapeBytes (c :: r) = c.toUInt8 :: unescapeBytes r := by
  rw [unescapeBytes.eq_2]
  simp [h]

/-- **One byte** is read back, whatever stands behind it. -/
theorem unescapeBytes_escapeByte (b : UInt8) (r : List Char) :
    unescapeBytes (escapeByte b ++ r) = b :: unescapeBytes r := by
  have hlt := b.toNat_lt
  rw [escapeByte_eq]
  split
  · obtain ⟨hne, -, hbyte⟩ := plainByte_spec ‹_›
    rw [List.cons_append, List.nil_append, unescapeBytes_cons hne, hbyte]
  · obtain ⟨hhigh, hhighValue, -⟩ := upperDigit_spec (b.toNat / 16) (by omega)
    obtain ⟨hlow, hlowValue, -⟩ := upperDigit_spec (b.toNat % 16) (by omega)
    have hvalue : 16 * (b.toNat / 16) + b.toNat % 16 = b.toNat := by omega
    simp only [List.cons_append, List.nil_append, unescapeBytes, hhigh, hlow, Bool.and_self, if_true,
      hhighValue, hlowValue, hvalue, UInt8.ofNat_toNat]

theorem unescapeBytes_flatMap (bs : List UInt8) : unescapeBytes (bs.flatMap escapeByte) = bs := by
  induction bs with
  | nil => rfl
  | cons b bs ih => rw [List.flatMap_cons, unescapeBytes_escapeByte, ih]

/-! ### Texts -/

theorem escape_chars (cs : List Char) : ∀ c ∈ escape cs, isEscapedChar c = true := by
  intro c hc
  obtain ⟨b, -, hc⟩ := List.mem_flatMap.1 hc
  exact escapeByte_chars b c hc

/-- A slash is written as itself. -/
theorem escape_slash (cs : List Char) : escape ('/' :: cs) = '/' :: escape cs := by
  have hslash : (String.utf8EncodeChar '/').flatMap escapeByte = ['/'] := by decide
  rw [escape, Text.Utf8.encode_cons, List.flatMap_append, hslash]
  rfl

/-- An escaped character is ASCII and no delimiter, and counts. -/
theorem isEscapedChar_spec {c : Char} (h : isEscapedChar c = true) : c.toNat < 0x80 ∧ c ≠ '#' ∧
    c ≠ '?' ∧ c ≠ ';' ∧ isUnsafe c = false := by
  have hne {d : Char} (hd : isEscapedChar d = false) : c ≠ d := fun e => by
    rw [e, hd] at h
    cases h
  refine ⟨?_, hne rfl, hne rfl, hne rfl, ?_⟩
  · simp only [isEscapedChar, Bool.or_eq_true, beq_iff_eq, or_assoc] at h
    rcases h with h | rfl | rfl | rfl | rfl | rfl | rfl
    · simp only [Char.isAlphanum, Char.isAlpha, Char.isUpper, Char.isLower, Char.isDigit,
        Bool.or_eq_true, Bool.and_eq_true, decide_eq_true_eq, ge_iff_le, UInt32.le_iff_toNat_le,
        Char.toNat_val, Char.reduceToNat] at h
      omega
    all_goals decide
  · have htab : c ≠ '\t' := hne rfl
    have hreturn : c ≠ '\r' := hne rfl
    have hfeed : c ≠ '\n' := hne rfl
    simp [isUnsafe, htab, hreturn, hfeed]

/-- ASCII is read in one run. -/
theorem unescape_of_ascii (h : ∀ c ∈ cs, c.toNat < 0x80) :
    unescape cs = Text.Utf8.decodeLossy (unescapeBytes cs) := by
  cases cs with
  | nil => rw [unescape, unescapeBytes, Text.Utf8.decodeLossy]
  | cons c r =>
    obtain ⟨hc, hr⟩ := List.forall_mem_cons.1 h
    have hmore : r.takeWhile (fun c => decide (c.toNat < 0x80)) = r :=
      List.takeWhile_eq_self_iff.2 fun c hc => decide_eq_true (hr c hc)
    rw [unescape]
    simp only [if_pos hc, hmore, List.drop_length]
    rw [unescape, List.append_nil]

/-- **An escaped text is read back.** -/
theorem unescape_escape (cs : List Char) : unescape (escape cs) = cs := by
  rw [unescape_of_ascii fun c hc => (isEscapedChar_spec (escape_chars cs c hc)).1, escape,
    unescapeBytes_flatMap, Text.Utf8.decodeLossy_encode]

/-! ### The uri of a file -/

/-- **The uri of a file** has nothing but the path that was written. -/
theorem ofText_escaped (h : ∀ c ∈ cs, isEscapedChar c = true) :
    ofText ("file://" ++ String.ofList ('/' :: cs)) =
      .ok { scheme := fileScheme, path := String.ofList ('/' :: cs) } := by
  have hpath : ∀ c ∈ '/' :: cs, isEscapedChar c = true := List.forall_mem_cons.2 ⟨by decide, h⟩
  have hcounted : counted ("file://" ++ String.ofList ('/' :: cs)) =
      fileScheme.toList ++ ':' :: '/' :: '/' :: ([] ++ '/' :: cs) := by
    have hsafe : ('/' :: cs).filter (fun c => !isUnsafe c) = '/' :: cs :=
      List.filter_eq_self.2 fun c hc => by
        rw [(isEscapedChar_spec (hpath c hc)).2.2.2.2]
        rfl
    simp only [counted, String.toList_append, String.toList_ofList]
    show List.filter _ (['f', 'i', 'l', 'e', ':', '/', '/'] ++ '/' :: cs) = _
    rw [List.filter_append, hsafe]
    rfl
  have hcut {d : Char} (hd : isEscapedChar d = false) : cut d ('/' :: cs) = ('/' :: cs, []) := by
    have hnot : d ∉ '/' :: cs := fun hmem => by
      rw [hpath d hmem] at hd
      cases hd
    have hcut := cut_append_behind (b := []) hnot
    rwa [behind_nil, List.append_nil] at hcut
  have hhost : splitHost ('/' :: '/' :: ([] ++ '/' :: cs)) = ([], '/' :: cs) :=
    splitHost_append (List.forall_mem_nil _) fun c hc => by
      rw [← Option.some.inj hc]
      rfl
  refine ofText_iff.2 ⟨⟨rfl, rfl⟩, ?_⟩
  rw [hcounted, ofChars, isScheme_file.split]
  simp only [hhost, hcut (show isEscapedChar '#' = false by rfl),
    hcut (show isEscapedChar '?' = false by rfl), String.ofList_toList]
  rfl

/-- A text that is taken for the path of a drive: behind a slash, a letter and a colon there is one
line, with its end or without it. -/
def DriveLike (cs : List Char) : Prop :=
  ∃ d r, cs = '/' :: d :: ':' :: r ∧ d.isAlpha = true ∧ '\n' ∉ r.dropLast

theorem lowerDrive_of_not (h : ¬DriveLike cs) : lowerDrive cs = cs := by
  unfold lowerDrive
  split
  · rename_i d r
    dsimp only
    rw [if_neg]
    intro hdrive
    obtain ⟨hd, hr⟩ := Bool.and_eq_true_iff.1 hdrive
    refine h ⟨d, r, rfl, hd, fun hmem => ?_⟩
    split at hr
    · simp [hmem] at hr
    · simp [List.mem_of_mem_dropLast hmem] at hr
  · rfl

theorem lowerDrive_of_drive {d : Char} {r : List Char} (hd : d.isAlpha = true) (hr : '\n' ∉ r) :
    lowerDrive ('/' :: d :: ':' :: r) = d.toLower :: ':' :: r := by
  have hlast : ¬(r.getLast? == some '\n') = true := fun h =>
    hr (List.mem_of_getLast? (beq_iff_eq.1 h))
  simp [lowerDrive, hd, hr, hlast]

/-- What comes back is the text of the path, unless it is taken for that of a drive. -/
theorem toPath_eq_lowerDrive {p : FilePath} (h : p.Absolute) : ∃ u, ofPath p = .ok u ∧
    toPath u = .ok (.ofString (.ofList (lowerDrive p.toString.toList))) := by
  obtain ⟨r, hr⟩ : ∃ r, p.toString.toList = '/' :: r := by
    rw [h.toList_toString]
    rcases h.root with e | e <;> rw [e] <;> exact ⟨_, rfl⟩
  refine ⟨_, by rw [ofPath, hr, escape_slash]; exact ofText_escaped (escape_chars r), ?_⟩
  have hpath : unescape (String.ofList ('/' :: escape r)).toList = '/' :: r := by
    rw [String.toList_ofList, ← escape_slash, unescape_escape]
  have hnetloc : unescape "".toList = [] := by rw [String.toList_empty, unescape]
  rw [toPath, hr]
  simp only [hpath, hnetloc]
  rfl

/-- **A path comes back from the uri of its file**, unless it begins like the path of a drive; then
another path comes back, and not an absolute one. -/
theorem toPath_ofPath {s : String} (hs : s.toList.head? = some '/') :
    ∃ u, ofPath (.ofString s) = .ok u ∧
      (¬DriveLike (FilePath.ofString s).toString.toList → toPath u = .ok (.ofString s)) ∧
      ∀ d r, (FilePath.ofString s).toString.toList = '/' :: d :: ':' :: r → d.isAlpha = true →
        '\n' ∉ r → toPath u = .ok (.ofString (.ofList (d.toLower :: ':' :: r))) ∧
          (FilePath.ofString (.ofList (d.toLower :: ':' :: r))).root = "" := by
  have habs := FilePath.absolute_ofString hs
  obtain ⟨u, hu, hback⟩ := toPath_eq_lowerDrive habs
  refine ⟨u, hu, fun hnot => ?_, fun d r htext hd hr => ⟨?_, ?_⟩⟩
  · rw [hback, lowerDrive_of_not hnot, String.ofList_toList, habs.ofString_toString]
  · rw [hback, htext, lowerDrive_of_drive hd hr]
  · have hlower : d.toLower ≠ '/' := fun e => by
      rw [← Char.isAlpha_toLower_eq_isAlpha, e] at hd
      cases hd
    simp [FilePath.ofString, hlower]

/-- A path with all kinds of delimiters comes back. -/
theorem toPath_ofPath_delimiters : "//tmp/50 % of #1?/ä;b:c".toList.head? = some '/' ∧
    ∃ u, ofPath (.ofString "//tmp/50 % of #1?/ä;b:c") = .ok u ∧
      toPath u = .ok (.ofString "//tmp/50 % of #1?/ä;b:c") := by
  have hs : "//tmp/50 % of #1?/ä;b:c".toList.head? = some '/' := by decide +kernel
  obtain ⟨u, hu, hback, -⟩ := toPath_ofPath hs
  refine ⟨hs, u, hu, hback ?_⟩
  rintro ⟨d, r, htext, hd, -⟩
  have hsecond : (FilePath.ofString "//tmp/50 % of #1?/ä;b:c").toString.toList[1]? = some '/' := by
    decide +kernel
  rw [htext] at hsecond
  cases hsecond
  cases hd

/-- **A folder may have the name of a drive**, and then its files do not come back. -/
theorem not_toPath_ofPath_drive : ∃ u, ofPath (.ofString "/C:/x") = .ok u ∧
    toPath u ≠ .ok (.ofString "/C:/x") := by
  have habs : (FilePath.ofString "/C:/x").Absolute := FilePath.absolute_ofString (by decide +kernel)
  obtain ⟨u, hu, hback⟩ := toPath_eq_lowerDrive habs
  refine ⟨u, hu, fun h => ?_⟩
  have hne : FilePath.ofString (.ofList (lowerDrive (FilePath.ofString "/C:/x").toString.toList)) ≠
      .ofString "/C:/x" := by decide +kernel
  rw [hback] at h
  exact hne (Except.ok.inj h)

end Uri

end EditorBridge
