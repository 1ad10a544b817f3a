/-
Characters of names.

A character of a name is no blank, no bracket and no mark between parts of a type.

Main results:

* `LuaAmbient.Text.isDottedPart_eq_false_of_isBlank` — **no blank stands in a dotted name**;
* `LuaAmbient.Text.isNamePart_of_isNameStart`, `LuaAmbient.Text.isDottedPart_of_isNamePart` — the
  characters of parameter names stand in dotted names.
-/

import Mathlib.Tactic.Common
import LuaAmbient.Text.Blank
import LuaAmbient.Text.Word

set_option relaxedAutoImplicit false
set_option autoImplicit false

namespace LuaAmbient.Text

/-- The code points of the blanks beyond ASCII. -/
def wideBlanks : List Nat :=
  [0x85, 0xa0, 0x1680, 0x2000, 0x2001, 0x2002, 0x2003, 0x2004, 0x2005, 0x2006, 0x2007, 0x2008,
    0x2009, 0x200a, 0x2028, 0x2029, 0x202f, 0x205f, 0x3000]

theorem toNat_mem_wideBlanks {c : Char} (h : isBlank c = true) (hc : 0x80 ≤ c.toNat) :
    c.toNat ∈ wideBlanks := by
  simp only [isBlank, isSpace, isSeparator, Bool.or_eq_true, Bool.and_eq_true, decide_eq_true_eq,
    beq_iff_eq] at h
  simp only [wideBlanks, List.mem_cons, List.not_mem_nil, or_false]
  omega

/-- There are few blanks beyond ASCII, and none of them is in the table of word characters. -/
theorem wideBlanks_not_alphanumeric : ∀ r ∈ alphanumericRanges.toList, ∀ n ∈ wideBlanks,
    (decide (r.1 ≤ n) && decide (n ≤ r.2)) = false := by
  decide +kernel

/-- No blank is a word character. -/
theorem isWord_eq_false_of_isBlank {c : Char} (h : isBlank c = true) : isWord c = false := by
  rw [isWord]
  split
  · next hc =>
    -- the blanks of ASCII lie below the letters and digits
    simp only [isBlank, isSpace, isSeparator, Bool.or_eq_true, Bool.and_eq_true, decide_eq_true_eq,
      beq_iff_eq] at h
    have hle : c.toNat ≤ 0x20 := by omega
    have hcode : ∀ n ≤ 0x20, ((Char.ofNat n).isAlphanum || Char.ofNat n == '_') = false := by decide
    rw [← Char.ofNat_toNat c]
    exact hcode _ hle
  · next hc =>
    rw [inRanges, ← Array.any_toList, List.any_eq_false]
    intro r hr
    rw [wideBlanks_not_alphanumeric r hr _ (toNat_mem_wideBlanks h (by omega))]
    decide

/-- No blank stands in a dotted name. -/
theorem isDottedPart_eq_false_of_isBlank {c : Char} (h : isBlank c = true) :
    isDottedPart c = false := by
  have hne : ∀ d : Char, isBlank d = false → c ≠ d := by
    rintro d hd rfl
    rw [h] at hd
    exact absurd hd (by decide)
  simp [isDottedPart, isWord_eq_false_of_isBlank h, hne '$' (by decide), hne '.' (by decide)]

theorem isBlank_eq_false_of_isDottedPart {c : Char} (h : isDottedPart c = true) :
    isBlank c = false := by
  rw [← Bool.not_eq_true]
  intro hb
  rw [isDottedPart_eq_false_of_isBlank hb] at h
  exact absurd h (by decide)

theorem isDottedPart_of_isNamePart {c : Char} (h : isNamePart c = true) : isDottedPart c = true := by
  rw [isNamePart] at h
  rw [isDottedPart, h, Bool.true_or]

/-- The letters and digits of ASCII are word characters. -/
theorem isWord_of_isAlphanum {c : Char} (h : c.isAlphanum = true) : isWord c = true := by
  have hc : c.toNat < 0x80 := by
    have h' : (c.isUpper || c.isLower || c.isDigit) = true := h
    simp only [Bool.or_eq_true] at h'
    rcases h' with (hupper | hlower) | hdigit
    · have hle : c.toNat ≤ 90 := (of_decide_eq_true hupper).2
      omega
    · have hle : c.toNat ≤ 122 := of_decide_eq_true (Bool.and_eq_true_iff.1 hlower).2
      omega
    · have hle : c.toNat ≤ 57 := of_decide_eq_true (Bool.and_eq_true_iff.1 hdigit).2
      omega
  simp [isWord, hc, h]

theorem isNamePart_of_isNameStart {c : Char} (h : isNameStart c = true) : isNamePart c = true := by
  simp only [isNameStart, Bool.or_eq_true, beq_iff_eq] at h
  rcases h with (h | rfl) | rfl
  · rw [isNamePart, isWord_of_isAlphanum (by rw [Char.isAlphanum, h, Bool.true_or]), Bool.true_or]
  · rfl
  · rfl

end LuaAmbient.Text
