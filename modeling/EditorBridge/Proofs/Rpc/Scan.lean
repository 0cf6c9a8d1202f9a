/-
What a stream of bytes decides.

Taking messages off a buffer is a loop, and the buffer grows between its rounds, so the
same bytes can reach it in many ways.  What the loop decides, however, is a function of
the bytes: `scan` gives the decisions in their order, and what is left once no more can
be decided.  It is stated apart from the loop because nothing that is done about a
decision has any part in the next one.

The theorem that matters is `scan_append`.  What was decided on a beginning of the bytes
stays decided when more of them come, and what comes after it is what the rest of the
beginning decides together with the new bytes.  It holds because a front that can be
judged is judged by its own bytes only: the first empty line of a beginning is the first
empty line of the whole, and a body that is there in full is cut off at its length.
-/
import EditorBridge.Rpc.Framing
import Mathlib.Data.List.Infix

namespace EditorBridge.Rpc

variable {bs more block behind : Bytes} {n : Nat}

/-! ### The first empty line -/

/-- What ends a block of headers. -/
def emptyLine : Bytes := [13, 10, 13, 10]

theorem cutAtEmptyLine_emptyLine (bs : Bytes) : cutAtEmptyLine (emptyLine ++ bs) = some ([], bs) := by
  show cutAtEmptyLine (13 :: 10 :: 13 :: 10 :: bs) = _
  rw [cutAtEmptyLine]

theorem cutAtEmptyLine_cons {b : UInt8} (h : ¬emptyLine <+: b :: bs) :
    cutAtEmptyLine (b :: bs) = (cutAtEmptyLine bs).map fun p => (b :: p.1, p.2) := by
  rw [cutAtEmptyLine]
  intro rest hb hrest
  subst hb hrest
  exact h ⟨rest, rfl⟩

/-- A block, the empty line behind it and the rest are the whole. -/
theorem eq_of_cutAtEmptyLine (h : cutAtEmptyLine bs = some (block, behind)) :
    bs = block ++ emptyLine ++ behind := by
  fun_induction cutAtEmptyLine bs generalizing block with
  | case1 => cases h
  | case2 rest =>
    cases h
    rfl
  | case3 b rest _ ih =>
    obtain ⟨p, hp, heq⟩ := Option.map_eq_some_iff.1 h
    cases heq
    have hrest := ih hp
    rw [hrest]
    rfl

/-- There is no block exactly if there is no empty line. -/
theorem cutAtEmptyLine_eq_none_iff : cutAtEmptyLine bs = none ↔ ¬emptyLine <:+: bs := by
  fun_induction cutAtEmptyLine bs with
  | case1 => simp [emptyLine]
  | case2 rest =>
    refine iff_of_false (Option.some_ne_none _) fun h => h ?_
    exact ⟨[], rest, rfl⟩
  | case3 b rest hne ih =>
    have hfront : ¬emptyLine <+: b :: rest := by
      rintro ⟨tail, htail⟩
      cases htail
      exact hne tail rfl rfl
    rw [Option.map_eq_none_iff, ih, List.infix_cons_iff]
    simp [hfront]

/-- Bytes that come later do not change where the first block ends. -/
theorem cutAtEmptyLine_append (h : cutAtEmptyLine bs = some (block, behind)) (more : Bytes) :
    cutAtEmptyLine (bs ++ more) = some (block, behind ++ more) := by
  fun_induction cutAtEmptyLine bs generalizing block with
  | case1 => cases h
  | case2 rest =>
    cases h
    exact cutAtEmptyLine_emptyLine (behind ++ more)
  | case3 b rest hne ih =>
    obtain ⟨p, hp, heq⟩ := Option.map_eq_some_iff.1 h
    cases heq
    -- An empty line at the front would have to lie in front of the one that was found.
    have hfront : ¬emptyLine <+: b :: (rest ++ more) := by
      intro hpre
      have hlong : emptyLine.length ≤ (b :: rest).length := by
        have hwhole := eq_of_cutAtEmptyLine hp
        simp [hwhole, emptyLine]
        omega
      obtain ⟨tail, htail⟩ := (List.prefix_of_prefix_length_le hpre
        (show b :: rest <+: b :: (rest ++ more) from ⟨more, rfl⟩) hlong)
      cases htail
      exact hne tail rfl rfl
    rw [List.cons_append, cutAtEmptyLine_cons hfront, ih hp]
    rfl

/-! ### What a block of headers tells -/

/-- The length in a block of headers, as it is written there. -/
def lengthDigits (block : Bytes) : List Char :=
  (((Headers.ofBytes block).lookup "content-length").getD "").toList

/-- A block does not tell a length in digits. -/
def Unmarked (block : Bytes) : Prop :=
  lengthDigits block = [] ∨ ¬(lengthDigits block).all Char.isDigit

/-- A block tells a length of more digits than can be read. -/
def Overlong (block : Bytes) : Prop :=
  ¬Unmarked block ∧ Digits.limit < (lengthDigits block).length

/-- A block tells how long its body is. -/
def Tells (block : Bytes) (n : Nat) : Prop :=
  ¬Unmarked block ∧ (lengthDigits block).length ≤ Digits.limit ∧
    Digits.value (lengthDigits block) = n

/-- Every block tells nothing, too much or a length. -/
theorem unmarked_or_overlong_or_tells (block : Bytes) :
    Unmarked block ∨ Overlong block ∨ ∃ n, Tells block n := by
  by_cases hu : Unmarked block
  · exact .inl hu
  · by_cases hl : Digits.limit < (lengthDigits block).length
    · exact .inr (.inl ⟨hu, hl⟩)
    · exact .inr (.inr ⟨_, hu, Nat.le_of_not_lt hl, rfl⟩)

/-! ### The front of a buffer, case by case -/

theorem front_of_none (h : cutAtEmptyLine bs = none) : front bs = .incomplete := by
  simp [front, h]

theorem front_of_unmarked (h : cutAtEmptyLine bs = some (block, behind)) (hu : Unmarked block) :
    front bs = .unmarked (Headers.ofBytes block) behind := by
  unfold front
  rw [h]
  exact if_pos hu

theorem front_of_overlong (h : cutAtEmptyLine bs = some (block, behind)) (ho : Overlong block) :
    front bs = .tooLong (lengthDigits block).length := by
  unfold front
  rw [h]
  exact (if_neg ho.1).trans (if_pos ho.2)

theorem front_of_tells (h : cutAtEmptyLine bs = some (block, behind)) (ht : Tells block n) :
    front bs = if behind.length < n then .incomplete else
      .message (behind.take n) (Headers.ofBytes block).charset (behind.drop n) := by
  obtain ⟨hu, hl, rfl⟩ := ht
  unfold front
  rw [h]
  exact (if_neg hu).trans (if_neg (Nat.not_lt.2 hl))

/-- Nothing more can be said about a buffer without further bytes. -/
inductive Unfinished (bs : Bytes) : Prop
  /-- No block of headers is complete. -/
  | headers (h : ¬emptyLine <:+: bs)
  /-- A body is missing something. -/
  | body {block behind : Bytes} {n : Nat} (h : cutAtEmptyLine bs = some (block, behind))
    (ht : Tells block n) (hlt : behind.length < n)

/-- A block of headers with a length that cannot be read is at the front of a buffer. -/
def Stuck (bs : Bytes) : Prop :=
  ∃ block behind, cutAtEmptyLine bs = some (block, behind) ∧ Overlong block

/-- A length that cannot be read is no body that misses something. -/
theorem Stuck.not_unfinished (h : Stuck bs) : ¬Unfinished bs := by
  obtain ⟨block, behind, hcut, ho⟩ := h
  intro hu
  cases hu with
  | headers hno =>
    rw [cutAtEmptyLine_eq_none_iff.2 hno] at hcut
    cases hcut
  | body hcut' ht =>
    rw [hcut] at hcut'
    cases hcut'
    exact absurd ho.2 (Nat.not_lt.2 ht.2.1)

/-- **The front of a buffer** is a block without a length, a message, or nothing yet. -/
theorem front_cases (bs : Bytes) :
    (∃ block behind, cutAtEmptyLine bs = some (block, behind) ∧ Unmarked block ∧
      front bs = .unmarked (Headers.ofBytes block) behind) ∨
    (∃ block behind n, cutAtEmptyLine bs = some (block, behind) ∧ Tells block n ∧
      n ≤ behind.length ∧
      front bs = .message (behind.take n) (Headers.ofBytes block).charset (behind.drop n)) ∨
    (front bs = .incomplete ∧ Unfinished bs) ∨
    (∃ n, front bs = .tooLong n ∧ Stuck bs) := by
  cases hcut : cutAtEmptyLine bs with
  | none =>
    have hno := cutAtEmptyLine_eq_none_iff.1 hcut
    exact .inr (.inr (.inl ⟨front_of_none hcut, .headers hno⟩))
  | some p =>
    obtain ⟨block, behind⟩ := p
    rcases unmarked_or_overlong_or_tells block with hu | ho | ⟨n, ht⟩
    · exact .inl ⟨block, behind, rfl, hu, front_of_unmarked hcut hu⟩
    · exact .inr (.inr (.inr ⟨_, front_of_overlong hcut ho, block, behind, hcut, ho⟩))
    · have hfront := front_of_tells hcut ht
      by_cases hlt : behind.length < n
      · rw [if_pos hlt] at hfront
        exact .inr (.inr (.inl ⟨hfront, .body hcut ht hlt⟩))
      · rw [if_neg hlt] at hfront
        exact .inr (.inl ⟨block, behind, n, rfl, ht, Nat.le_of_not_lt hlt, hfront⟩)

/-! ### The decisions -/

/-- What is done about the front of a buffer. -/
inductive Decision where
  /-- A block of headers without a length is passed over. -/
  | dropped (headers : Headers)
  /-- A body is taken. -/
  | taken (body : Bytes) (charset : String)
  deriving DecidableEq, Repr

/-- What bytes decide, and what is left of them. -/
def scan (bs : Bytes) : List Decision × Bytes :=
  match _h : front bs with
  | .unmarked headers rest => (.dropped headers :: (scan rest).1, (scan rest).2)
  | .message body charset rest => (.taken body charset :: (scan rest).1, (scan rest).2)
  | .incomplete | .tooLong _ => ([], bs)
termination_by bs.length
decreasing_by
  · exact length_of_front_unmarked _h
  · exact length_of_front_message _h

theorem scan_of_unmarked {headers : Headers} {rest : Bytes} (h : front bs = .unmarked headers rest) :
    scan bs = (.dropped headers :: (scan rest).1, (scan rest).2) := by
  rw [scan]
  split <;> simp_all

theorem scan_of_message {body rest : Bytes} {charset : String}
    (h : front bs = .message body charset rest) :
    scan bs = (.taken body charset :: (scan rest).1, (scan rest).2) := by
  rw [scan]
  split <;> simp_all

theorem scan_of_incomplete (h : front bs = .incomplete) : scan bs = ([], bs) := by
  rw [scan]
  split <;> simp_all

theorem scan_of_tooLong (h : front bs = .tooLong n) : scan bs = ([], bs) := by
  rw [scan]
  split <;> simp_all

/-- **What is left** is an end of the bytes, and nothing can be decided about it: a block of
headers or a body is not complete, or a length cannot be read. -/
theorem scan_rest (bs : Bytes) :
    (scan bs).2 <:+ bs ∧ (Unfinished (scan bs).2 ∨ Stuck (scan bs).2) := by
  induction h : bs.length using Nat.strong_induction_on generalizing bs with
  | _ len ih =>
    subst h
    rcases front_cases bs with ⟨block, behind, hcut, -, hf⟩ | ⟨block, behind, n, hcut, -, -, hf⟩ |
      ⟨hf, hu⟩ | ⟨n, hf, hs⟩
    · obtain ⟨hsuffix, hrest⟩ := ih _ (length_of_front_unmarked hf) behind rfl
      rw [scan_of_unmarked hf]
      refine ⟨hsuffix.trans ?_, hrest⟩
      exact ⟨_, (eq_of_cutAtEmptyLine hcut).symm⟩
    · obtain ⟨hsuffix, hrest⟩ := ih _ (length_of_front_message hf) (behind.drop n) rfl
      rw [scan_of_message hf]
      refine ⟨(hsuffix.trans (List.drop_suffix n behind)).trans ?_, hrest⟩
      exact ⟨_, (eq_of_cutAtEmptyLine hcut).symm⟩
    · rw [scan_of_incomplete hf]
      exact ⟨List.suffix_rfl, .inl hu⟩
    · rw [scan_of_tooLong hf]
      exact ⟨List.suffix_rfl, .inr hs⟩

/-- **What was decided stays decided**: bytes that come later only meet what was left. -/
theorem scan_append (bs more : Bytes) :
    scan (bs ++ more) = ((scan bs).1 ++ (scan ((scan bs).2 ++ more)).1,
      (scan ((scan bs).2 ++ more)).2) := by
  induction h : bs.length using Nat.strong_induction_on generalizing bs with
  | _ len ih =>
    subst h
    rcases front_cases bs with ⟨block, behind, hcut, hu, hf⟩ |
      ⟨block, behind, n, hcut, ht, hle, hf⟩ | ⟨hf, -⟩ | ⟨n, hf, -⟩
    · have hrest := ih _ (length_of_front_unmarked hf) behind rfl
      have hmore := front_of_unmarked (cutAtEmptyLine_append hcut more) hu
      rw [scan_of_unmarked hmore, scan_of_unmarked hf, hrest]
      rfl
    · have hrest := ih _ (length_of_front_message hf) (behind.drop n) rfl
      have hmore := front_of_tells (cutAtEmptyLine_append hcut more) ht
      have hlt : ¬(behind ++ more).length < n := by
        rw [List.length_append]
        omega
      rw [if_neg hlt, List.take_append_of_le_length hle, List.drop_append_of_le_length hle] at hmore
      rw [scan_of_message hmore, scan_of_message hf, hrest]
      rfl
    · rw [scan_of_incomplete hf]
      rfl
    · rw [scan_of_tooLong hf]
      rfl

/-- What is left decides nothing. -/
theorem scan_scan_rest (bs : Bytes) : scan (scan bs).2 = ([], (scan bs).2) := by
  rcases (scan_rest bs).2 with hu | ⟨block, behind, hcut, ho⟩
  · refine scan_of_incomplete ?_
    cases hu with
    | headers h => exact front_of_none (cutAtEmptyLine_eq_none_iff.2 h)
    | body hcut ht hlt =>
      rw [front_of_tells hcut ht]
      exact if_pos hlt
  · exact scan_of_tooLong (front_of_overlong hcut ho)

end EditorBridge.Rpc
