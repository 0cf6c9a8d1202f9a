/-
What is written in UTF-8 is read back.

The reader takes one character after the other off the front of the bytes, so one
character is enough: whatever bytes follow those of a character, the reader finds
exactly this character and exactly these bytes behind it (`next_char`).  A character has
one to four bytes, and in each case the reader has to find the same width in the first
byte, to find no fault with the second one, and to put the code point together again.
-/
import EditorBridge.Text.Utf8
import Mathlib.Data.List.TakeWhile

namespace EditorBridge.Text.Utf8

variable {c : Char} {r : List UInt8}

/-! ### Bytes as numbers -/

theorem toNat_ofNat {n : Nat} (h : n < 256) : (UInt8.ofNat n).toNat = n := by
  simp [Nat.mod_eq_of_lt h]

theorem le_ofNat_iff {b n : Nat} (hb : b < 256) (h : n < 256) :
    UInt8.ofNat b ≤ UInt8.ofNat n ↔ b ≤ n := by
  rw [UInt8.le_iff_toNat_le, toNat_ofNat hb, toNat_ofNat h]

theorem ofNat_lt_iff {b n : Nat} (hb : b < 256) (h : n < 256) :
    UInt8.ofNat n < UInt8.ofNat b ↔ n < b := by
  rw [UInt8.lt_iff_toNat_lt, toNat_ofNat hb, toNat_ofNat h]

theorem ofNat_eq_iff {b n : Nat} (hb : b < 256) (h : n < 256) :
    UInt8.ofNat n = UInt8.ofNat b ↔ n = b := by
  rw [← UInt8.toNat_inj, toNat_ofNat hb, toNat_ofNat h]

/-- The first byte tells the width. -/
theorem width?_ofNat {n : Nat} (h : n < 256) : width? (UInt8.ofNat n) =
    if n < 0x80 then some 1 else if n < 0xc2 then none else if n < 0xe0 then some 2
    else if n < 0xf0 then some 3 else if n < 0xf5 then some 4 else none := by
  unfold width?
  rw [show (0x80 : UInt8) = UInt8.ofNat 0x80 from rfl, show (0xc2 : UInt8) = UInt8.ofNat 0xc2 from rfl,
    show (0xe0 : UInt8) = UInt8.ofNat 0xe0 from rfl, show (0xf0 : UInt8) = UInt8.ofNat 0xf0 from rfl,
    show (0xf5 : UInt8) = UInt8.ofNat 0xf5 from rfl]
  simp only [ofNat_lt_iff (by decide : 0x80 < 256) h, ofNat_lt_iff (by decide : 0xc2 < 256) h,
    ofNat_lt_iff (by decide : 0xe0 < 256) h, ofNat_lt_iff (by decide : 0xf0 < 256) h,
    ofNat_lt_iff (by decide : 0xf5 < 256) h]

/-- The range of the second byte behind a first one. -/
def inSecondRange (b s : Nat) : Prop :=
  if b = 0xe0 then 0xa0 ≤ s ∧ s ≤ 0xbf
  else if b = 0xed then 0x80 ≤ s ∧ s ≤ 0x9f
  else if b = 0xf0 then 0x90 ≤ s ∧ s ≤ 0xbf
  else if b = 0xf4 then 0x80 ≤ s ∧ s ≤ 0x8f
  else 0x80 ≤ s ∧ s ≤ 0xbf

theorem secondRange_ofNat {b s : Nat} (hb : b < 256) (hs : s < 256) (h : inSecondRange b s) :
    ((secondRange (UInt8.ofNat b)).1 ≤ UInt8.ofNat s &&
      UInt8.ofNat s ≤ (secondRange (UInt8.ofNat b)).2) = true := by
  have hbetween {lo hi : Nat} (hlo : lo < 256) (hhi : hi < 256) (h : lo ≤ s ∧ s ≤ hi) :
      (decide (UInt8.ofNat lo ≤ UInt8.ofNat s) && decide (UInt8.ofNat s ≤ UInt8.ofNat hi)) = true := by
    simp only [Bool.and_eq_true, decide_eq_true_eq, le_ofNat_iff hlo hs, le_ofNat_iff hs hhi]
    exact h
  unfold secondRange
  rw [show (0xe0 : UInt8) = UInt8.ofNat 0xe0 from rfl, show (0xed : UInt8) = UInt8.ofNat 0xed from rfl,
    show (0xf0 : UInt8) = UInt8.ofNat 0xf0 from rfl, show (0xf4 : UInt8) = UInt8.ofNat 0xf4 from rfl]
  simp only [ofNat_eq_iff (by decide : 0xe0 < 256) hb, ofNat_eq_iff (by decide : 0xed < 256) hb,
    ofNat_eq_iff (by decide : 0xf0 < 256) hb, ofNat_eq_iff (by decide : 0xf4 < 256) hb]
  unfold inSecondRange at h
  split at h
  · rename_i he
    rw [if_pos he]
    exact hbetween (by decide) (by decide) h
  · rename_i he
    rw [if_neg he]
    split at h
    · rename_i hd
      rw [if_pos hd]
      exact hbetween (by decide) (by decide) h
    · rename_i hd
      rw [if_neg hd]
      split at h
      · rename_i h0
        rw [if_pos h0]
        exact hbetween (by decide) (by decide) h
      · rename_i h0
        rw [if_neg h0]
        split at h
        · rename_i h4
          rw [if_pos h4]
          exact hbetween (by decide) (by decide) h
        · rename_i h4
          rw [if_neg h4]
          exact hbetween (by decide) (by decide) h

theorem isContinuation_ofNat {n : Nat} (h : 128 ≤ n ∧ n < 192) :
    isContinuation (UInt8.ofNat n) = true := by
  unfold isContinuation
  rw [show (0x80 : UInt8) = UInt8.ofNat 0x80 from rfl, show (0xc0 : UInt8) = UInt8.ofNat 0xc0 from rfl]
  simp only [Bool.and_eq_true, decide_eq_true_eq]
  exact ⟨(le_ofNat_iff (by decide) (by omega)).2 h.1, (ofNat_lt_iff (by decide) (by omega)).2 h.2⟩

/-- The code point that is put together from a beginning and further bytes. -/
def gathered (n : Nat) (more : List Nat) : Nat := more.foldl (fun n b => n * 64 + b % 64) n

theorem codePoint_ofNat {b : Nat} (hb : b < 256) (w : Nat) (more : List Nat)
    (hmore : ∀ n ∈ more, n < 256) : codePoint (UInt8.ofNat b) w (more.map UInt8.ofNat) =
      gathered (b % 1 <<< if w = 1 then 7 else 7 - w) more := by
  unfold codePoint gathered
  rw [toNat_ofNat hb]
  dsimp only
  generalize b % 1 <<< _ = n
  induction more generalizing n with
  | nil => rfl
  | cons m more ih =>
    obtain ⟨hm, hmore⟩ := List.forall_mem_cons.1 hmore
    rw [List.map_cons, List.foldl_cons, List.foldl_cons, toNat_ofNat hm]
    exact ih hmore _

/-! ### One character -/

/-- A character stands at the front of whatever begins with these bytes. -/
def Stands (c : Char) (b : UInt8) (more : List UInt8) : Prop :=
  width? b = some (more.length + 1) ∧ ∀ r, next b (more ++ r) = .char c r

/-- A first byte that nothing has to continue stands for itself. -/
theorem stands_of_first {n : Nat} (h : n < 0x80) : Stands (Char.ofNat n) (UInt8.ofNat n) [] := by
  have hw : width? (UInt8.ofNat n) = some 1 := by
    rw [width?_ofNat (by omega), if_pos h]
  refine ⟨hw, fun r => ?_⟩
  have hcode := codePoint_ofNat (show n < 256 by omega) 1 [] nofun
  have hn : gathered (n % 1 <<< 7) [] = n := Nat.mod_eq_of_lt h
  rw [if_pos rfl, hn] at hcode
  unfold next
  rw [hw]
  exact congrArg (fun v => Front.char (Char.ofNat v) r) hcode

/-- A first byte with all that continue it stands for what they are put together to. -/
theorem stands_of_continued {b s : Nat} {more : List Nat} (hb : b < 256) (hs : s < 256)
    (hrange : inSecondRange b s) (hmore : ∀ n ∈ more, 128 ≤ n ∧ n < 192)
    (hw : width? (UInt8.ofNat b) = some (more.length + 2)) :
    Stands (Char.ofNat (gathered (b % 1 <<< (5 - more.length)) (s :: more))) (UInt8.ofNat b)
      ((s :: more).map UInt8.ofNat) := by
  have hlen : ((s :: more).map UInt8.ofNat).length = more.length + 1 := by simp
  refine ⟨by rw [hw, hlen], fun r => ?_⟩
  have hcont : ∀ b ∈ more.map UInt8.ofNat, isContinuation b = true := by
    intro b hb
    obtain ⟨n, hn, rfl⟩ := List.mem_map.1 hb
    exact isContinuation_ofNat (hmore n hn)
  have htake : ((s :: more).map UInt8.ofNat ++ r).take (more.length + 1) =
      (s :: more).map UInt8.ofNat := List.take_left' hlen
  have hdrop : ((s :: more).map UInt8.ofNat ++ r).drop (more.length + 1) = r := List.drop_left' hlen
  have hcontinuing : continuing (UInt8.ofNat b) (more.length + 2)
      ((s :: more).map UInt8.ofNat ++ r) = more.length + 1 := by
    unfold continuing
    rw [show more.length + 2 - 1 = more.length + 1 from rfl, htake, List.map_cons]
    dsimp only
    rw [if_pos (secondRange_ofNat hb hs hrange), List.takeWhile_eq_self_iff.2 hcont,
      List.length_map, Nat.add_comm]
  have hcode := codePoint_ofNat hb (more.length + 2) (s :: more) fun n hn => by
    rcases List.mem_cons.1 hn with rfl | hn
    · exact hs
    · have := hmore n hn
      omega
  rw [if_neg (by omega), show 7 - (more.length + 2) = 5 - more.length by omega] at hcode
  unfold next
  rw [hw]
  dsimp only
  rw [hcontinuing, if_pos rfl, htake, hdrop, hcode]

section Widths

variable {v : Nat}

theorem stands_two (h : 127 < v) (h' : v ≤ 2047) : Stands (Char.ofNat v)
    (UInt8.ofNat (v / 64 % 32 + 192)) [UInt8.ofNat (v % 64 + 128)] := by
  have hrange : inSecondRange (v / 64 % 32 + 192) (v % 64 + 128) := by
    unfold inSecondRange
    split_ifs <;> omega
  have hw : width? (UInt8.ofNat (v / 64 % 32 + 192)) = some 2 := by
    rw [width?_ofNat (by omega), if_neg (by omega), if_neg (by omega), if_pos (by omega)]
  have hv : gathered ((v / 64 % 32 + 192) % 32) [v % 64 + 128] = v := by
    show (v / 64 % 32 + 192) % 32 * 64 + (v % 64 + 128) % 64 = v
    omega
  have hmore : ∀ n ∈ ([] : List Nat), 128 ≤ n ∧ n < 192 := nofun
  have hstands := stands_of_continued (by omega) (by omega) hrange hmore hw
  rwa [show (1 <<< (5 - [].length) : Nat) = 32 from rfl, hv] at hstands

theorem stands_three (h : 2047 < v) (h' : v ≤ 65535) (hvalid : v < 0xd800 ∨ 0xdfff < v) :
    Stands (Char.ofNat v) (UInt8.ofNat (v / 4096 % 16 + 224))
      [UInt8.ofNat (v / 64 % 64 + 128), UInt8.ofNat (v % 64 + 128)] := by
  have hrange : inSecondRange (v / 4096 % 16 + 224) (v / 64 % 64 + 128) := by
    unfold inSecondRange
    split_ifs <;> omega
  have hw : width? (UInt8.ofNat (v / 4096 % 16 + 224)) = some 3 := by
    rw [width?_ofNat (by omega), if_neg (by omega), if_neg (by omega), if_neg (by omega),
      if_pos (by omega)]
  have hv : gathered ((v / 4096 % 16 + 224) % 16) [v / 64 % 64 + 128, v % 64 + 128] = v := by
    show ((v / 4096 % 16 + 224) % 16 * 64 + (v / 64 % 64 + 128) % 64) * 64 + (v % 64 + 128) % 64 = v
    omega
  have hmore : ∀ n ∈ [v % 64 + 128], 128 ≤ n ∧ n < 192 := by
    simp only [List.mem_singleton]
    omega
  have hstands := stands_of_continued (by omega) (by omega) hrange hmore hw
  rwa [show (1 <<< (5 - [v % 64 + 128].length) : Nat) = 16 from rfl, hv] at hstands

theorem stands_four (h : 65535 < v) (h' : v < 0x110000) :
    Stands (Char.ofNat v) (UInt8.ofNat (v / 262144 % 8 + 240))
      [UInt8.ofNat (v / 4096 % 64 + 128), UInt8.ofNat (v / 64 % 64 + 128),
        UInt8.ofNat (v % 64 + 128)] := by
  have hrange : inSecondRange (v / 262144 % 8 + 240) (v / 4096 % 64 + 128) := by
    unfold inSecondRange
    split_ifs <;> omega
  have hw : width? (UInt8.ofNat (v / 262144 % 8 + 240)) = some 4 := by
    rw [width?_ofNat (by omega), if_neg (by omega), if_neg (by omega), if_neg (by omega),
      if_neg (by omega), if_pos (by omega)]
  have hv : gathered ((v / 262144 % 8 + 240) % 8)
      [v / 4096 % 64 + 128, v / 64 % 64 + 128, v % 64 + 128] = v := by
    show (((v / 262144 % 8 + 240) % 8 * 64 + (v / 4096 % 64 + 128) % 64) * 64 +
      (v / 64 % 64 + 128) % 64) * 64 + (v % 64 + 128) % 64 = v
    omega
  have hmore : ∀ n ∈ [v / 64 % 64 + 128, v % 64 + 128], 128 ≤ n ∧ n < 192 := by
    simp only [List.mem_cons, List.not_mem_nil, or_false]
    omega
  have hstands := stands_of_continued (by omega) (by omega) hrange hmore hw
  rwa [show (1 <<< (5 - [v / 64 % 64 + 128, v % 64 + 128].length) : Nat) = 8 from rfl, hv]
    at hstands

end Widths

/-- **One character** is taken off the front, whatever stands behind it. -/
theorem stands_char (c : Char) :
    ∃ b more, String.utf8EncodeChar c = b :: more ∧ Stands c b more := by
  have hvalid : c.val.toNat < 0xd800 ∨ 0xdfff < c.val.toNat ∧ c.val.toNat < 0x110000 := c.valid
  have hc : Char.ofNat c.val.toNat = c := Char.ofNat_toNat c
  unfold String.utf8EncodeChar
  generalize c.val.toNat = v at hvalid hc
  subst hc
  dsimp only
  split
  · exact ⟨_, _, rfl, stands_of_first (by omega)⟩
  · split
    · exact ⟨_, _, rfl, stands_two (by omega) (by omega)⟩
    · split
      · exact ⟨_, _, rfl, stands_three (by omega) (by omega) (by omega)⟩
      · exact ⟨_, _, rfl, stands_four (by omega) (by omega)⟩

/-! ### Whole texts -/

/-- The bytes of an array of bytes, from one on. -/
theorem toList_loop (bs : ByteArray) (i : Nat) (r : List UInt8) :
    ByteArray.toList.loop bs i r = r.reverse ++ bs.data.toList.drop i := by
  fun_induction ByteArray.toList.loop bs i r with
  | case1 i r hlt ih =>
    have hlen : i < bs.data.toList.length := hlt
    have hget : bs.get! i = bs.data.toList[i] := by
      show bs.data[i]! = _
      rw [getElem!_pos bs.data i hlt, Array.getElem_toList]
    rw [ih, List.drop_eq_getElem_cons hlen, hget, List.reverse_cons, List.append_assoc]
    rfl
  | case2 i r hge =>
    have hlen : bs.data.toList.length ≤ i := Nat.le_of_not_lt hge
    rw [List.drop_eq_nil_of_le hlen, List.append_nil]

/-- The bytes of a text are those of its characters. -/
theorem encode_eq (cs : List Char) : encode cs = cs.flatMap String.utf8EncodeChar := by
  show ByteArray.toList.loop (String.ofList cs).toByteArray 0 [] = _
  rw [toList_loop, String.toByteArray_ofList, List.utf8Encode, List.toList_data_toByteArray]
  rfl

theorem encode_nil : encode [] = [] := encode_eq []

theorem encode_cons (c : Char) (cs : List Char) :
    encode (c :: cs) = String.utf8EncodeChar c ++ encode cs := by
  rw [encode_eq, encode_eq, List.flatMap_cons]

theorem encode_append (cs cs' : List Char) : encode (cs ++ cs') = encode cs ++ encode cs' := by
  rw [encode_eq, encode_eq, encode_eq, List.flatMap_append]

theorem decode?_go_encode (cs acc : List Char) (n : Nat) :
    decode?.go n acc (encode cs) = .ok (acc.reverse ++ cs) := by
  induction cs generalizing acc n with
  | nil =>
    rw [encode_nil, decode?.go, List.append_nil]
  | cons c cs ih =>
    obtain ⟨b, more, hc, hw, hnext⟩ := stands_char c
    have hdrop : (more ++ encode cs).drop (more.length + 1 - 1) = encode cs := List.drop_left' rfl
    rw [encode_cons, hc, List.cons_append, decode?.go, hnext]
    dsimp only
    rw [hw, Option.getD_some, hdrop, ih]
    simp

/-- **What is written in UTF-8 is read back.** -/
theorem decode?_encode (cs : List Char) : decode? (encode cs) = .ok cs :=
  decode?_go_encode cs [] 0

/-- Nor has anything to be replaced. -/
theorem decodeLossy_encode (cs : List Char) : decodeLossy (encode cs) = cs := by
  induction cs with
  | nil => rw [encode_nil, decodeLossy]
  | cons c cs ih =>
    obtain ⟨b, more, hc, hw, hnext⟩ := stands_char c
    have hdrop : (more ++ encode cs).drop (more.length + 1 - 1) = encode cs := List.drop_left' rfl
    rw [encode_cons, hc, List.cons_append, decodeLossy, hnext]
    dsimp only
    rw [hw, Option.getD_some, hdrop, ih]

/-- What is ASCII is written byte by byte. -/
theorem encode_of_ascii {cs : List Char} (h : ∀ c ∈ cs, c.toNat < 128) :
    encode cs = cs.map fun c => UInt8.ofNat c.toNat := by
  rw [encode_eq]
  induction cs with
  | nil => rfl
  | cons c cs ih =>
    obtain ⟨hc, hcs⟩ := List.forall_mem_cons.1 h
    have hbyte : String.utf8EncodeChar c = [UInt8.ofNat c.toNat] := by
      unfold String.utf8EncodeChar
      exact if_pos (Nat.le_of_lt_succ hc)
    rw [List.flatMap_cons, List.map_cons, hbyte, ih hcs]
    rfl

end EditorBridge.Text.Utf8
