/-
Parts of a text.

What is read from a text is cut out of it: blanks are stripped, lines and pieces are taken apart, and
what stands in a piece stands in the text.

Main definitions:

* `LuaAmbient.Text.ArePieces` — pieces that stand in a text.

Main results:

* `LuaAmbient.Text.infix_strip`, `LuaAmbient.Text.infix_of_splitFirst?` — what is left of a text without
  its blanks, and what stands before and behind the first separator;
* `LuaAmbient.Text.not_mem_of_mem_lines` — **a line holds no line feed**.
-/

import LuaAmbient.Proofs.Text.Blank
import LuaAmbient.Proofs.Text.Search

set_option relaxedAutoImplicit false
set_option autoImplicit false

namespace LuaAmbient.Text

/-! ### Ends -/

theorem suffix_stripLeft (s : List Char) : stripLeft s <:+ s :=
  List.dropWhile_suffix _

theorem infix_strip (s : List Char) : strip s <:+: s := by
  obtain ⟨a, b, -, -, hs, -⟩ := exists_strip s
  exact ⟨a, b, hs.symm⟩

theorem prefix_dropSuffix (s tail : List Char) : dropSuffix s tail <+: s := by
  obtain ⟨t, -, hs⟩ := exists_dropSuffix_append s tail
  exact ⟨t, hs.symm⟩

/-- What stands before and behind the first separator. -/
theorem infix_of_splitFirst? {p : Char → Bool} {s a b : List Char}
    (h : splitFirst? p s = some (a, b)) : a <:+: s ∧ b <:+: s := by
  have hsuffix : s.dropWhile (fun c => !p c) <:+ s := List.dropWhile_suffix _
  rw [splitFirst?] at h
  split at h
  · simp at h
  · next c rest hrest =>
    obtain ⟨rfl, rfl⟩ := Prod.mk.inj (Option.some.inj h)
    rw [hrest] at hsuffix
    exact ⟨(List.takeWhile_prefix _).isInfix, ((List.suffix_cons c rest).trans hsuffix).isInfix⟩

/-! ### Pieces -/

/-- Pieces of a text, the first of which starts with it. -/
structure ArePieces (s : List Char) (pieces : List (List Char)) : Prop where
  infix_of_mem : ∀ p ∈ pieces, p <:+: s
  prefix_of_head : ∀ p ∈ pieces.head?, p <+: s

theorem ArePieces.consFirst {s : List Char} {pieces : List (List Char)} (h : ArePieces s pieces)
    (c : Char) : ArePieces (c :: s) (consFirst c pieces) := by
  cases pieces with
  | nil =>
      have hc : [c] <+: c :: s := List.prefix_append [c] s
      exact ⟨by simpa [Text.consFirst] using hc.isInfix, by simp [Text.consFirst]⟩
  | cons first rest =>
      have hfirst : c :: first <+: c :: s :=
        List.cons_prefix_cons.2 ⟨rfl, h.prefix_of_head first rfl⟩
      refine ⟨List.forall_mem_cons.2 ⟨hfirst.isInfix, ?_⟩, by simpa [Text.consFirst] using hfirst⟩
      intro p hp
      exact (h.infix_of_mem p (List.mem_cons_of_mem first hp)).trans (List.suffix_cons c s).isInfix

/-- An empty piece in front, and what stands in the rest of the text. -/
theorem ArePieces.cut {s t : List Char} {pieces : List (List Char)} (h : ArePieces s pieces)
    (ht : s <:+ t) : ArePieces t ([] :: pieces) := by
  refine ⟨List.forall_mem_cons.2 ⟨List.nil_infix, ?_⟩, by simp⟩
  intro p hp
  exact (h.infix_of_mem p hp).trans ht.isInfix

/-! ### Lines -/

theorem chomp_cases (s : List Char) : chomp s = s ∨ s = chomp s ++ ['\n'] := by
  rw [chomp]
  split
  · next h =>
    obtain ⟨t, rfl⟩ := List.getLast?_eq_some_iff.1 (eq_of_beq h)
    exact Or.inr (by simp)
  · exact Or.inl rfl

theorem cases_of_mem_consFirst {c : Char} {pieces : List (List Char)} {p : List Char}
    (h : p ∈ consFirst c pieces) : p = [c] ∨ (∃ q ∈ pieces, p = c :: q) ∨ p ∈ pieces := by
  cases pieces with
  | nil => exact .inl (List.mem_singleton.1 h)
  | cons first rest =>
      rcases List.mem_cons.1 h with rfl | h
      · exact .inr (.inl ⟨first, List.mem_cons_self, rfl⟩)
      · exact .inr (.inr (List.mem_cons_of_mem first h))

/-- A line holds no line feed. -/
theorem not_mem_of_mem_lines {s line : List Char} (h : line ∈ lines s) : '\n' ∉ line := by
  induction s using lines.induct generalizing line with
  | case1 => simp [lines] at h
  | case2 s ih =>
      rw [lines] at h
      rcases List.mem_cons.1 h with rfl | h
      · simp
      · exact ih h
  | case3 c s hne hc ih =>
      rw [lines, if_pos hc] at h
      · rcases List.mem_cons.1 h with rfl | h
        · simp
        · exact ih h
      · exact hne
  | case4 c s hne hc ih =>
      have hfeed : '\n' ≠ c := by
        rintro rfl
        exact hc (by decide)
      rw [lines, if_neg hc] at h
      · rcases cases_of_mem_consFirst h with rfl | ⟨q, hq, rfl⟩ | h
        · simpa using hfeed
        · simpa [hfeed] using ih hq
        · exact ih h
      · exact hne

end LuaAmbient.Text
