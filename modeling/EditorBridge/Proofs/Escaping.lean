/-
Plain text as markup says what the text says.

Markup is read from left to right, in pieces: a backslash and the character behind it are one
piece, and every other character is a piece of its own.  Reading loses nothing
(`flatMap_written_pieces`), so what the pieces are says what the markup is.

Of a text that was escaped the pieces are known: each special character is in a pair, each other
one stands alone, and there is one piece for each character (`pieces_escape`).  The induction goes
along the text and needs to look at no more than one character, because backslashes are special
themselves: in what is left to be read, a backslash of the text has one of its own in front of it.
All else is read off the pieces, and no other markup has them (`escapes_iff`).
-/
import EditorBridge.Feature.Answers
import Mathlib.Logic.Function.Defs

namespace EditorBridge

namespace Markdown

/-! ### Reading markup -/

/-- What markup is read in. -/
inductive Piece where
  /-- A character behind a backslash. -/
  | pair (c : Char)
  | single (c : Char)
  deriving DecidableEq, Repr

namespace Piece

/-- A piece without the backslash of a pair. -/
def char : Piece → Char
  | pair c | single c => c

/-- A piece as it is written. -/
def written : Piece → List Char
  | pair c => ['\\', c]
  | single c => [c]

end Piece

/-- The pieces of markup, from left to right. -/
def pieces : List Char → List Piece
  | [] => []
  | '\\' :: c :: r => .pair c :: pieces r
  | c :: r => .single c :: pieces r

/-- Markup without the backslashes of its pairs. -/
def unescape (cs : List Char) : List Char := (pieces cs).map Piece.char

variable {c : Char} {cs : List Char} {m : Markdown} {s s' : String}

theorem pieces_pair (c : Char) (cs : List Char) : pieces ('\\' :: c :: cs) = .pair c :: pieces cs :=
  rfl

/-- Only a backslash takes the next character along. -/
theorem pieces_single (h : c ≠ '\\') (cs : List Char) :
    pieces (c :: cs) = .single c :: pieces cs := by
  rw [pieces]
  rintro d r rfl
  exact absurd rfl h

/-- The pieces of markup make up the markup. -/
theorem flatMap_written_pieces (cs : List Char) : (pieces cs).flatMap Piece.written = cs := by
  fun_induction pieces cs with
  | case1 => rfl
  | case2 c r ih => rw [List.flatMap_cons, ih]; rfl
  | case3 c r _ ih => rw [List.flatMap_cons, ih]; rfl

/-! ### Escaped text -/

/-- The piece that a character of a text becomes. -/
def pieceOf (c : Char) : Piece := if isSpecial c then .pair c else .single c

theorem char_pieceOf (c : Char) : (pieceOf c).char = c := by
  unfold pieceOf
  split <;> rfl

/-- **What was escaped** is read in one piece for each character of the text. -/
theorem pieces_escape (cs : List Char) : pieces (escape cs) = cs.map pieceOf := by
  induction cs with
  | nil => rfl
  | cons c cs ih =>
    rw [escape, List.map_cons, pieceOf]
    by_cases hc : isSpecial c = true
    · rw [if_pos hc, if_pos hc, pieces_pair, ih]
    · have hne : c ≠ '\\' := by
        rintro rfl
        exact hc rfl
      rw [if_neg hc, if_neg hc, pieces_single hne, ih]

/-- The fourteen characters that mean something in markup: backslash, backtick, star, underscore,
braces, brackets, parentheses, hash, plus, minus and exclamation mark. -/
def Meaningful (c : Char) : Prop :=
  c = '\\' ∨ c = '\x60' ∨ c = '*' ∨ c = '_' ∨ c = '\x7b' ∨ c = '\x7d' ∨ c = '[' ∨ c = ']' ∨
    c = '(' ∨ c = ')' ∨ c = '#' ∨ c = '+' ∨ c = '-' ∨ c = '!'

theorem isSpecial_iff {c : Char} : isSpecial c = true ↔ Meaningful c := by
  simp only [isSpecial, Meaningful, List.contains_eq_mem, decide_eq_true_iff, List.mem_cons,
    List.not_mem_nil, or_false]

/-- Markup in which a text is escaped: what means something in markup is in a pair, nothing else
is, and without the backslashes of the pairs it is the text. -/
structure Escapes (m : Markdown) (s : String) : Prop where
  special : ∀ c, .single c ∈ pieces m.value.toList → ¬Meaningful c
  plain : ∀ c, .pair c ∈ pieces m.value.toList → Meaningful c
  text : unescape m.value.toList = s.toList

theorem escapes_ofPlain (s : String) : (ofPlain s).Escapes s := by
  have hpieces : pieces (ofPlain s).value.toList = s.toList.map pieceOf := by
    rw [ofPlain, String.toList_ofList, pieces_escape]
  refine ⟨fun c hc => ?_, fun c hc => ?_, ?_⟩
  · rw [hpieces] at hc
    obtain ⟨d, -, hd⟩ := List.mem_map.1 hc
    unfold pieceOf at hd
    split at hd
    · cases hd
    · rename_i hspecial
      cases hd
      rwa [← isSpecial_iff]
  · rw [hpieces] at hc
    obtain ⟨d, -, hd⟩ := List.mem_map.1 hc
    unfold pieceOf at hd
    split at hd
    · cases hd
      rwa [← isSpecial_iff]
    · cases hd
  · rw [unescape, hpieces, List.map_map]
    exact List.map_id'' char_pieceOf _

/-- A text is escaped in no other way. -/
theorem escapes_iff : m.Escapes s ↔ m = ofPlain s := by
  refine ⟨fun h => ?_, fun h => h ▸ escapes_ofPlain s⟩
  have hpiece : ∀ x ∈ pieces m.value.toList, pieceOf x.char = id x := by
    intro x hx
    cases x with
    | pair c => simp [pieceOf, Piece.char, isSpecial_iff, h.plain c hx]
    | single c => simp [pieceOf, Piece.char, isSpecial_iff, h.special c hx]
  have hpieces : pieces m.value.toList = s.toList.map pieceOf := by
    rw [← h.text, unescape, List.map_map]
    exact ((List.map_congr_left hpiece).trans (List.map_id _)).symm
  have hvalue : m.value.toList = escape s.toList := by
    rw [← flatMap_written_pieces m.value.toList, hpieces, ← pieces_escape, flatMap_written_pieces]
  rw [ofPlain, ← hvalue, String.ofList_toList]

end Markdown

/-! ### Hovers -/

namespace Hover

open Markdown (Escapes ofPlain)

variable {w w' : Wire} {s s' : String}

/-- The contents of an answer of the server are a plain text. -/
structure IsPlain (w : Wire) (s : String) : Prop where
  contents : ∃ ms, w.get "contents" = .object "MarkupContent" ms
  kind : (w.get "contents").get "kind" = .raw (.str "plaintext")
  value : (w.get "contents").get "value" = .raw (.str s)

/-- Plain text is shown escaped. -/
theorem contentsOf_plain (h : IsPlain w s) : contentsOf (w.get "contents") = .ok [ofPlain s] := by
  obtain ⟨ms, hms⟩ := h.contents
  have hkind := h.kind
  have hvalue := h.value
  rw [hms] at hkind hvalue ⊢
  have hmarkup : Markdown.ofMarkup (.object "MarkupContent" ms) = ofPlain s := by
    unfold Markdown.ofMarkup
    rw [hkind, hvalue]
    rfl
  rw [contentsOf, hmarkup]

/-- **Escaping is faithful**: plain text in an answer is shown as the one markup in which it is
escaped, and the markup tells which text it was. -/
theorem ofWire_plain (h : IsPlain w s) :
    ∃ m range, ofWire w = .ok (some ⟨[m], range⟩) ∧ m.Escapes s ∧
      ∀ w' s', IsPlain w' s' → ∀ range', ofWire w' = .ok (some ⟨[m], range'⟩) → s' = s := by
  have hshown {w : Wire} {s : String} (h : IsPlain w s) :
      ∃ range, ofWire w = .ok (some ⟨[ofPlain s], range⟩) := by
    have hw : w.isNothing = false := by
      obtain ⟨ms, hms⟩ := h.contents
      cases w <;> first | rfl | exact absurd hms nofun
    refine ⟨if (w.get "range").isNothing then none else some (.ofWire (w.get "range")), ?_⟩
    rw [ofWire, if_neg (by simp [hw]), contentsOf_plain h]
    rfl
  obtain ⟨range, hw⟩ := hshown h
  refine ⟨_, range, hw, Markdown.escapes_ofPlain s, fun w' s' h' range' hw' => ?_⟩
  obtain ⟨range'', hw''⟩ := hshown h'
  have hm : ofPlain s' = ofPlain s := by
    rw [hw'] at hw''
    injection hw'' with hw''
    injection hw'' with hw''
    injection hw'' with hcontents
    exact (List.cons.inj hcontents).1.symm
  have htext := (Markdown.escapes_ofPlain s').text
  rw [hm, (Markdown.escapes_ofPlain s).text] at htext
  exact String.toList_injective htext.symm

/-- An answer with a text of backslashes and stars. -/
def starred : Wire :=
  .object "Hover" [("contents", .object "MarkupContent" [("kind", .raw (.str "plaintext")),
    ("value", .raw (.str "\\\\*a*"))])]

theorem isPlain_starred : IsPlain starred "\\\\*a*" := ⟨⟨_, rfl⟩, rfl, rfl⟩

/-- Each of the two backslashes gets one of its own, and so do the stars. -/
theorem ofWire_starred : IsPlain starred "\\\\*a*" ∧
    ∃ m range, ofWire starred = .ok (some ⟨[m], range⟩) ∧
      m = ⟨"\\\\\\\\\\*a\\*"⟩ ∧ m.Escapes "\\\\*a*" := by
  obtain ⟨m, range, hw, hm, -⟩ := ofWire_plain isPlain_starred
  exact ⟨isPlain_starred, m, range, hw, Markdown.escapes_iff.1 hm, hm⟩

end Hover

end EditorBridge
