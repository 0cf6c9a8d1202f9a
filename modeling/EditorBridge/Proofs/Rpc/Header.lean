/-
The headers that are written and what is read off them.

A block of headers is read line by line, and names and values are freed of the blanks
around them.  Here this is worked out for the two lines that are in front of every
message: whatever digits stand in the first one are the length that is told, and the
character set is always the same.  So a message that is written is at the front of the
bytes when they are read (`front_framed`), and a length of too many digits gets in the
way of everything behind it.
-/
import EditorBridge.Proofs.Rpc.Scan
import EditorBridge.Proofs.Text.Utf8
import Mathlib.Algebra.Group.Nat.Defs

namespace EditorBridge.Rpc

open Text (isBlank trim)

variable {bs rest : Bytes} {ds : List Char}

/-! ### Texts as bytes -/

/-- The bytes of a text. -/
def textBytes (s : String) : Bytes := s.toUTF8.toList

theorem textBytes_eq (s : String) : textBytes s = Text.Utf8.encode s.toList := by
  unfold textBytes Text.Utf8.encode
  rw [String.ofList_toList]

theorem textBytes_append (s t : String) : textBytes (s ++ t) = textBytes s ++ textBytes t := by
  rw [textBytes_eq, textBytes_eq, textBytes_eq, String.toList_append, Text.Utf8.encode_append]

theorem length_textBytes (s : String) : (textBytes s).length = s.utf8ByteSize := by
  unfold textBytes
  rw [← String.size_toByteArray]
  show (ByteArray.toList.loop s.toByteArray 0 []).length = _
  rw [Text.Utf8.toList_loop]
  rfl

/-- The bytes of characters that are all ASCII. -/
def asciiBytes (cs : List Char) : Bytes := cs.map fun c => UInt8.ofNat c.toNat

theorem asciiBytes_append (cs cs' : List Char) :
    asciiBytes (cs ++ cs') = asciiBytes cs ++ asciiBytes cs' := List.map_append

theorem ascii_of_all {cs : List Char} (h : cs.all (fun c => c.toNat < 128) = true) :
    ∀ c ∈ cs, c.toNat < 128 := fun c hc => of_decide_eq_true (List.all_eq_true.1 h c hc)

/-- What is ASCII is read as it was written. -/
theorem map_headerChar_asciiBytes {cs : List Char} (h : ∀ c ∈ cs, c.toNat < 128) :
    (asciiBytes cs).map headerChar = cs := by
  unfold asciiBytes
  rw [List.map_map]
  refine List.map_congr_left (fun c hc => ?_) |>.trans (List.map_id cs)
  have hlt := h c hc
  have hn : (UInt8.ofNat c.toNat).toNat = c.toNat := Text.Utf8.toNat_ofNat (by omega)
  have hbyte : UInt8.ofNat c.toNat < 128 := by
    rw [UInt8.lt_iff_toNat_lt, hn]
    exact hlt
  show headerChar (UInt8.ofNat c.toNat) = c
  unfold headerChar
  rw [if_pos hbyte, hn, Char.ofNat_toNat]

/-! ### Lines -/

theorem headerLines_of_line {xs : List Char} (h : '\r' ∉ xs) : headerLines xs = [xs] := by
  induction xs with
  | nil => rfl
  | cons c xs ih =>
    simp only [List.mem_cons, not_or] at h
    obtain ⟨hc, hxs⟩ := h
    rw [headerLines, ih hxs]
    intro r hcr _
    exact hc hcr.symm

theorem headerLines_of_lines {xs : List Char} (h : '\r' ∉ xs) (more : List Char) :
    headerLines (xs ++ '\r' :: '\n' :: more) = xs :: headerLines more := by
  induction xs with
  | nil =>
    rw [List.nil_append, headerLines]
  | cons c xs ih =>
    simp only [List.mem_cons, not_or] at h
    obtain ⟨hc, hxs⟩ := h
    rw [List.cons_append, headerLines, ih hxs]
    intro r hcr _
    exact hc hcr.symm

theorem not_isBlank_of_isDigit {c : Char} (h : c.isDigit = true) : isBlank c = false := by
  simp only [Char.isDigit, Bool.and_eq_true, decide_eq_true_eq] at h
  have hlo : 48 ≤ c.toNat := h.1
  have hhi : c.toNat ≤ 57 := h.2
  unfold isBlank
  simp
  omega

/-- A blank in front of what has none is taken away. -/
theorem trim_cons_blank {xs : List Char} (h : ∀ c ∈ xs, isBlank c = false) : trim (' ' :: xs) = xs := by
  have hdrop {ys : List Char} (hys : ∀ c ∈ ys, isBlank c = false) : ys.dropWhile isBlank = ys := by
    cases ys with
    | nil => rfl
    | cons y ys => exact List.dropWhile_cons_of_neg (by simp [hys y])
  unfold trim Text.trimBoth
  rw [List.dropWhile_cons_of_pos (by decide), hdrop h, hdrop (by simpa using h), List.reverse_reverse]

/-! ### The block in front of a message -/

/-- The line that tells a length. -/
def lengthLine (ds : List Char) : List Char := "Content-Length: ".toList ++ ds

/-- The line that tells what a message is. -/
def typeLine : List Char := "Content-Type: application/vscode-jsonrpc; charset=utf-8".toList

/-- The value in that line. -/
def contentType : String := "application/vscode-jsonrpc; charset=utf-8"

theorem lt_of_isDigit {c : Char} (h : c.isDigit = true) : c.toNat < 128 := by
  simp only [Char.isDigit, Bool.and_eq_true, decide_eq_true_eq] at h
  have hhi : c.toNat ≤ 57 := h.2
  omega

theorem ascii_lengthLine (h : ∀ c ∈ ds, c.isDigit = true) : ∀ c ∈ lengthLine ds, c.toNat < 128 := by
  intro c hc
  have hname : ∀ c ∈ "Content-Length: ".toList, c.toNat < 128 := ascii_of_all rfl
  rcases List.mem_append.1 hc with hc | hc
  · exact hname c hc
  · exact lt_of_isDigit (h c hc)

theorem not_mem_lengthLine (h : ∀ c ∈ ds, c.isDigit = true) : '\r' ∉ lengthLine ds := by
  intro hc
  rcases List.mem_append.1 hc with hc | hc
  · revert hc
    decide
  · exact absurd (h _ hc) (by decide)

/-- One header is read off a line with a name and digits. -/
theorem cutAt_lengthLine (ds : List Char) :
    cutAt ':' (lengthLine ds) = ("Content-Length".toList, some (' ' :: ds)) := rfl

theorem trim_digits (h : ∀ c ∈ ds, c.isDigit = true) : trim (' ' :: ds) = ds :=
  trim_cons_blank fun c hc => not_isBlank_of_isDigit (h c hc)

/-- A block of one line tells a length. -/
theorem ofBytes_lengthLine (h : ∀ c ∈ ds, c.isDigit = true) :
    Headers.ofBytes (asciiBytes (lengthLine ds)) = [("content-length", String.ofList ds)] := by
  unfold Headers.ofBytes
  rw [map_headerChar_asciiBytes (ascii_lengthLine h), headerLines_of_line (not_mem_lengthLine h)]
  simp only [List.foldl_cons, List.foldl_nil, cutAt_lengthLine, trim_digits h]
  rfl

/-- The block in front of a message. -/
def messageBlock (ds : List Char) : List Char := lengthLine ds ++ '\r' :: '\n' :: typeLine

theorem ascii_messageBlock (h : ∀ c ∈ ds, c.isDigit = true) :
    ∀ c ∈ messageBlock ds, c.toNat < 128 := by
  intro c hc
  have htype : ∀ c ∈ '\r' :: '\n' :: typeLine, c.toNat < 128 := ascii_of_all rfl
  rcases List.mem_append.1 hc with hc | hc
  · exact ascii_lengthLine h c hc
  · exact htype c hc

theorem ofBytes_messageBlock (h : ∀ c ∈ ds, c.isDigit = true) :
    Headers.ofBytes (asciiBytes (messageBlock ds)) =
      [("content-length", String.ofList ds), ("content-type", contentType)] := by
  have htype : headerLines typeLine = [typeLine] := headerLines_of_line (by decide)
  unfold Headers.ofBytes
  rw [map_headerChar_asciiBytes (ascii_messageBlock h)]
  unfold messageBlock
  rw [headerLines_of_lines (not_mem_lengthLine h), htype]
  have hcut : cutAt ':' typeLine = ("Content-Type".toList, some (' ' :: contentType.toList)) := by
    decide
  have htrim : String.ofList (trim (' ' :: contentType.toList)) = contentType := by
    decide
  simp only [List.foldl_cons, List.foldl_nil, cutAt_lengthLine, trim_digits h, hcut, htrim]
  rfl

/-- The character set that is told is the one that everybody uses. -/
theorem charset_contentType (value : String) :
    Headers.charset [("content-length", value), ("content-type", contentType)] = defaultCharset := by
  have hlookup : List.lookup "content-type"
      [("content-length", value), ("content-type", contentType)] = some contentType := rfl
  unfold Headers.charset
  rw [hlookup]
  decide

/-! ### What the block tells -/

theorem lengthDigits_of_ofBytes {block : Bytes} {more : Headers}
    (h : Headers.ofBytes block = ("content-length", String.ofList ds) :: more) :
    lengthDigits block = ds := by
  unfold lengthDigits
  rw [h, List.lookup_cons_self, Option.getD_some, String.toList_ofList]

/-- Digits are a length. -/
theorem not_unmarked {block : Bytes} (hne : ds ≠ []) (h : ∀ c ∈ ds, c.isDigit = true)
    (hds : lengthDigits block = ds) : ¬Unmarked block := by
  have hall : ds.all Char.isDigit = true := List.all_eq_true.2 h
  unfold Unmarked
  rw [hds]
  simp [hne, hall]

theorem isDigit_of_mem_toDigits (n : Nat) : ∀ c ∈ Nat.toDigits 10 n, c.isDigit = true :=
  fun _ hc => Nat.isDigit_of_mem_toDigits (by decide) (by decide) hc

/-- A number is a length as it is written. -/
theorem tells_messageBlock {n : Nat} (hn : n < 10 ^ Digits.limit) :
    Tells (asciiBytes (messageBlock (Nat.toDigits 10 n))) n := by
  have hdigits := isDigit_of_mem_toDigits n
  have hds := lengthDigits_of_ofBytes (ofBytes_messageBlock hdigits)
  refine ⟨not_unmarked Nat.toDigits_ne_nil hdigits hds, ?_, ?_⟩
  · rw [hds]
    exact (Nat.length_toDigits_le_iff (by decide) (by decide)).2 hn
  · rw [hds]
    show (Nat.toDigits 10 n).foldl (fun n c => 10 * n + (c.toNat - 48)) 0 = n
    exact Nat.ofDigitChars_eq_foldl.symm.trans Nat.ofDigitChars_ten_toDigits

/-- A length of too many digits is none that can be read. -/
theorem overlong_lengthLine (h : ∀ c ∈ ds, c.isDigit = true) (hlong : Digits.limit < ds.length) :
    Overlong (asciiBytes (lengthLine ds)) := by
  have hne : ds ≠ [] := by
    rintro rfl
    cases hlong
  have hds := lengthDigits_of_ofBytes (ofBytes_lengthLine h)
  refine ⟨not_unmarked hne h hds, ?_⟩
  rw [hds]
  exact hlong

/-! ### Where the block ends -/

/-- A line without a carriage return is passed over. -/
theorem cutAtEmptyLine_of_line {xs : Bytes} (h : 13 ∉ xs) (bs : Bytes) :
    cutAtEmptyLine (xs ++ bs) = (cutAtEmptyLine bs).map fun p => (xs ++ p.1, p.2) := by
  induction xs with
  | nil => simp
  | cons b xs ih =>
    simp only [List.mem_cons, not_or] at h
    obtain ⟨hb, hxs⟩ := h
    have hfront : ¬emptyLine <+: b :: (xs ++ bs) := fun hpre =>
      hb (List.cons_prefix_cons.1 hpre).1
    rw [List.cons_append, cutAtEmptyLine_cons hfront, ih hxs, Option.map_map]
    rfl

theorem not_mem_asciiBytes {cs : List Char} (h : ∀ c ∈ cs, c.toNat < 128) (hr : '\r' ∉ cs) :
    13 ∉ asciiBytes cs := by
  intro hmem
  obtain ⟨c, hc, hb⟩ := List.mem_map.1 hmem
  have hlt := h c hc
  have hn : c.toNat = 13 := by
    have hn : (UInt8.ofNat c.toNat).toNat = c.toNat := Text.Utf8.toNat_ofNat (by omega)
    rw [← hn, hb]
    rfl
  have hcr : c = '\r' := Char.toNat_inj.1 hn
  exact hr (hcr ▸ hc)

theorem cutAtEmptyLine_lengthLine (h : ∀ c ∈ ds, c.isDigit = true) (rest : Bytes) :
    cutAtEmptyLine (asciiBytes (lengthLine ds) ++ (emptyLine ++ rest)) =
      some (asciiBytes (lengthLine ds), rest) := by
  have hno := not_mem_asciiBytes (ascii_lengthLine h) (not_mem_lengthLine h)
  rw [cutAtEmptyLine_of_line hno, cutAtEmptyLine_emptyLine]
  simp

theorem cutAtEmptyLine_messageBlock (h : ∀ c ∈ ds, c.isDigit = true) (rest : Bytes) :
    cutAtEmptyLine (asciiBytes (messageBlock ds) ++ (emptyLine ++ rest)) =
      some (asciiBytes (messageBlock ds), rest) := by
  have hno := not_mem_asciiBytes (ascii_lengthLine h) (not_mem_lengthLine h)
  have hno' : 13 ∉ asciiBytes typeLine := by decide
  have hblock : asciiBytes (messageBlock ds) =
      asciiBytes (lengthLine ds) ++ 13 :: 10 :: asciiBytes typeLine := asciiBytes_append ..
  -- The end of the first line is no empty line, because a letter follows it.
  have hend : cutAtEmptyLine (13 :: 10 :: (asciiBytes typeLine ++ (emptyLine ++ rest))) =
      (cutAtEmptyLine (asciiBytes typeLine ++ (emptyLine ++ rest))).map
        fun p => (13 :: 10 :: p.1, p.2) := by
    have hfirst : ¬emptyLine <+: 13 :: 10 :: (asciiBytes typeLine ++ (emptyLine ++ rest)) := by
      rintro ⟨tail, htail⟩
      cases htail
    have hsecond : ¬emptyLine <+: 10 :: (asciiBytes typeLine ++ (emptyLine ++ rest)) := by
      rintro ⟨tail, htail⟩
      cases htail
    rw [cutAtEmptyLine_cons hfirst, cutAtEmptyLine_cons hsecond, Option.map_map]
    rfl
  rw [hblock, List.append_assoc, cutAtEmptyLine_of_line hno, List.cons_append, List.cons_append,
    hend, cutAtEmptyLine_of_line hno', cutAtEmptyLine_emptyLine]
  simp

/-! ### Messages -/

/-- A body with its headers, as bytes. -/
theorem textBytes_framed (body : String) : textBytes (framed body) =
    asciiBytes (messageBlock (Nat.toDigits 10 body.utf8ByteSize)) ++ (emptyLine ++ textBytes body) := by
  have hdigits := isDigit_of_mem_toDigits body.utf8ByteSize
  have hheader : (header body.utf8ByteSize).toList =
      messageBlock (Nat.toDigits 10 body.utf8ByteSize) ++ "\r\n\r\n".toList := by
    have htype : "Content-Type: application/vscode-jsonrpc; charset=".toList ++ "utf-8".toList =
        typeLine := rfl
    have hend : "\r\n".toList = ['\r', '\n'] := rfl
    show (("Content-Length: " ++ Nat.repr _ ++ "\r\n") ++
      ("Content-Type: application/vscode-jsonrpc; charset=" ++ "utf-8" ++ "\r\n\r\n")).toList = _
    rw [String.toList_append, String.toList_append, String.toList_append, String.toList_append,
      String.toList_append, Nat.toList_repr, htype, hend]
    unfold messageBlock lengthLine
    simp only [List.append_assoc, List.cons_append, List.nil_append]
  have hascii : ∀ c ∈ messageBlock (Nat.toDigits 10 body.utf8ByteSize) ++ "\r\n\r\n".toList,
      c.toNat < 128 := by
    intro c hc
    have hend : ∀ c ∈ "\r\n\r\n".toList, c.toNat < 128 := ascii_of_all rfl
    rcases List.mem_append.1 hc with hc | hc
    · exact ascii_messageBlock hdigits c hc
    · exact hend c hc
  have hbytes : textBytes (header body.utf8ByteSize) =
      asciiBytes (messageBlock (Nat.toDigits 10 body.utf8ByteSize)) ++ emptyLine := by
    rw [textBytes_eq, hheader, Text.Utf8.encode_of_ascii hascii]
    exact asciiBytes_append ..
  unfold framed
  rw [textBytes_append, hbytes, List.append_assoc]

/-- **A message that is written** is at the front of what is read. -/
theorem front_framed {body : String} (h : body.utf8ByteSize < 10 ^ Digits.limit) (rest : Bytes) :
    front (textBytes (framed body) ++ rest) =
      .message (textBytes body) defaultCharset rest := by
  have hdigits := isDigit_of_mem_toDigits body.utf8ByteSize
  have hcut := cutAtEmptyLine_messageBlock hdigits (textBytes body ++ rest)
  have hlen : ¬(textBytes body ++ rest).length < body.utf8ByteSize := by
    rw [List.length_append, length_textBytes]
    omega
  rw [textBytes_framed, List.append_assoc, List.append_assoc, front_of_tells hcut (tells_messageBlock h),
    if_neg hlen, List.take_left' (length_textBytes body), List.drop_left' (length_textBytes body),
    ofBytes_messageBlock hdigits, charset_contentType]

end EditorBridge.Rpc
