/-
Texts that are split at a character and joined again.

Main results:

* `LuaAmbient.Text.splitString_joinWith` — **pieces without the separator are found again**;
* `LuaAmbient.Text.joinWith_splitString` — a text is what its pieces make;
* `LuaAmbient.Text.not_mem_of_mem_splitOn` — no piece holds the separator.
-/

import Mathlib.Data.List.Basic
import Mathlib.Tactic.Common
import LuaAmbient.Text.Search

set_option relaxedAutoImplicit false
set_option autoImplicit false

namespace LuaAmbient.Text

/-! ### Pieces -/

theorem splitOn_nil (sep : Char) : splitOn sep [] = [[]] := rfl

theorem splitOn_cons_self (sep : Char) (s : List Char) :
    splitOn sep (sep :: s) = [] :: splitOn sep s := by
  simp [splitOn]

theorem splitOn_cons_ne {sep c : Char} (h : c ≠ sep) (s : List Char) :
    splitOn sep (c :: s) = consFirst c (splitOn sep s) := by
  simp [splitOn, h]

theorem splitOn_ne_nil (sep : Char) (s : List Char) : splitOn sep s ≠ [] := by
  cases s with
  | nil => simp [splitOn]
  | cons c s =>
      rw [splitOn]
      split
      · simp
      · cases splitOn sep s <;> simp [consFirst]

theorem splitOn_of_not_mem {sep : Char} {s : List Char} (h : sep ∉ s) : splitOn sep s = [s] := by
  induction s with
  | nil => rfl
  | cons c s ih =>
      rw [List.mem_cons, not_or] at h
      rw [splitOn_cons_ne (Ne.symm h.1), ih h.2, consFirst]

theorem splitOn_append {sep : Char} {s : List Char} (h : sep ∉ s) (t : List Char) :
    splitOn sep (s ++ sep :: t) = s :: splitOn sep t := by
  induction s with
  | nil => exact splitOn_cons_self sep t
  | cons c s ih =>
      rw [List.mem_cons, not_or] at h
      rw [List.cons_append, splitOn_cons_ne (Ne.symm h.1), ih h.2, consFirst]

/-- What is put behind a text without a separator belongs to its last piece. -/
theorem splitOn_append_of_not_mem {sep : Char} {t : List Char} (h : sep ∉ t) (s : List Char) :
    ∃ init last, splitOn sep s = init ++ [last] ∧ splitOn sep (s ++ t) = init ++ [last ++ t] := by
  induction s with
  | nil => exact ⟨[], [], rfl, splitOn_of_not_mem h⟩
  | cons c s ih =>
      obtain ⟨init, last, hs, hst⟩ := ih
      by_cases hc : c = sep
      · subst hc
        refine ⟨[] :: init, last, ?_, ?_⟩
        · rw [splitOn_cons_self, hs, List.cons_append]
        · rw [List.cons_append, splitOn_cons_self, hst, List.cons_append]
      · rw [List.cons_append, splitOn_cons_ne hc, splitOn_cons_ne hc, hs, hst]
        cases init with
        | nil => exact ⟨[], c :: last, rfl, rfl⟩
        | cons first init => exact ⟨(c :: first) :: init, last, rfl, rfl⟩

/-- A piece is made of characters of the text that are no separators. -/
theorem mem_and_ne_of_mem_splitOn {sep : Char} {s piece : List Char} {c : Char}
    (h : piece ∈ splitOn sep s) (hc : c ∈ piece) : c ∈ s ∧ c ≠ sep := by
  induction s generalizing piece with
  | nil =>
      rw [splitOn_nil, List.mem_singleton] at h
      simp [h] at hc
  | cons d s ih =>
      have hlater {piece : List Char} (hp : piece ∈ splitOn sep s) (hc : c ∈ piece) :
          c ∈ d :: s ∧ c ≠ sep := (ih hp hc).imp_left (List.mem_cons_of_mem d)
      rw [splitOn] at h
      split at h
      · rcases List.mem_cons.1 h with rfl | h
        · simp at hc
        · exact hlater h hc
      · next hd =>
        cases hs : splitOn sep s with
        | nil => exact absurd hs (splitOn_ne_nil sep s)
        | cons first rest =>
            rw [hs, consFirst] at h
            rw [hs] at hlater
            rcases List.mem_cons.1 h with rfl | h
            · rcases List.mem_cons.1 hc with rfl | hc
              · exact ⟨List.mem_cons_self, fun he => hd (by simp [he])⟩
              · exact hlater List.mem_cons_self hc
            · exact hlater (List.mem_cons_of_mem first h) hc

theorem not_mem_of_mem_splitOn {sep : Char} {s piece : List Char} (h : piece ∈ splitOn sep s) :
    sep ∉ piece :=
  fun hc => (mem_and_ne_of_mem_splitOn h hc).2 rfl

theorem dropSuffix_append (s tail : List Char) : dropSuffix (s ++ tail) tail = s := by
  have hends : endsWith (s ++ tail) tail = true := by simp [endsWith]
  rw [dropSuffix, if_pos hends, dropEnd, List.length_append, Nat.add_sub_cancel, List.take_left]

/-- What is left of a text without an end is the beginning of it. -/
theorem exists_dropSuffix_append (s tail : List Char) :
    ∃ t, (t = [] ∨ t = tail) ∧ s = dropSuffix s tail ++ t := by
  rw [dropSuffix]
  split
  · next h =>
    obtain ⟨init, rfl⟩ := List.isSuffixOf_iff_suffix.1 h
    exact ⟨tail, .inr rfl, by simp [dropEnd]⟩
  · exact ⟨[], .inl rfl, by simp⟩

/-! ### Strings -/

theorem splitString_ne_nil (sep : Char) (s : String) : splitString sep s ≠ [] := by
  simpa [splitString] using splitOn_ne_nil sep s.toList

/-- What is put behind a text without a separator belongs to its last piece. -/
theorem exists_splitString_append {sep : Char} {t : String} (h : sep ∉ t.toList) (s : String) :
    ∃ init last, splitString sep s = init ++ [last] ∧
      splitString sep (s ++ t) = init ++ [last ++ t] := by
  obtain ⟨init, last, hs, hst⟩ := splitOn_append_of_not_mem h s.toList
  refine ⟨init.map String.ofList, String.ofList last, ?_, ?_⟩
  · simp [splitString, hs]
  · simp [splitString, hst, String.ofList_append]

theorem mem_of_mem_splitString {sep : Char} {s piece : String} {c : Char}
    (h : piece ∈ splitString sep s) (hc : c ∈ piece.toList) : c ∈ s.toList := by
  obtain ⟨chars, hchars, rfl⟩ := List.mem_map.1 h
  rw [String.toList_ofList] at hc
  exact (mem_and_ne_of_mem_splitOn hchars hc).1

theorem not_mem_of_mem_splitString {sep : Char} {s piece : String} (h : piece ∈ splitString sep s) :
    sep ∉ piece.toList := by
  obtain ⟨chars, hchars, rfl⟩ := List.mem_map.1 h
  rw [String.toList_ofList]
  exact not_mem_of_mem_splitOn hchars

theorem splitString_of_not_mem {sep : Char} {s : String} (h : sep ∉ s.toList) :
    splitString sep s = [s] := by
  simp [splitString, splitOn_of_not_mem h]

theorem splitString_append {sep : Char} {s : String} (h : sep ∉ s.toList) (t : String) :
    splitString sep (s ++ String.singleton sep ++ t) = s :: splitString sep t := by
  have ht : (s ++ String.singleton sep ++ t).toList = s.toList ++ sep :: t.toList := by simp
  rw [splitString, ht, splitOn_append h, List.map_cons, String.ofList_toList, splitString]

/-- **Pieces without the separator are found again.** -/
theorem splitString_joinWith {sep : Char} {pieces : List String} (hne : pieces ≠ [])
    (h : ∀ p ∈ pieces, sep ∉ p.toList) :
    splitString sep (joinWith (String.singleton sep) pieces) = pieces := by
  induction pieces with
  | nil => exact absurd rfl hne
  | cons p rest ih =>
      cases rest with
      | nil => exact splitString_of_not_mem (h p List.mem_cons_self)
      | cons q rest =>
          rw [joinWith, splitString_append (h p List.mem_cons_self),
            ih (by simp) fun r hr => h r (List.mem_cons_of_mem _ hr)]
          simp

theorem joinWith_cons {sep p : String} {rest : List String} (h : rest ≠ []) :
    joinWith sep (p :: rest) = p ++ sep ++ joinWith sep rest := by
  cases rest with
  | nil => exact absurd rfl h
  | cons q rest => rfl

theorem head?_toList_append {s : String} {c : Char} (h : s.toList.head? = some c) (t : String) :
    (s ++ t).toList.head? = some c := by
  rw [String.toList_append, List.head?_append, h]
  rfl

/-- Pieces put together start like the first one. -/
theorem head?_toList_joinWith {s : String} {c : Char} (h : s.toList.head? = some c) (sep : String)
    (rest : List String) : (joinWith sep (s :: rest)).toList.head? = some c := by
  cases rest with
  | nil => exact h
  | cons t rest =>
      rw [joinWith_cons (List.cons_ne_nil t rest), String.append_assoc]
      exact head?_toList_append h _

/-- What stands behind the last piece stands behind all of them. -/
theorem joinWith_concat_append (sep : String) (init : List String) (s t : String) :
    joinWith sep (init ++ [s ++ t]) = joinWith sep (init ++ [s]) ++ t := by
  induction init with
  | nil => rfl
  | cons p init ih =>
      rw [List.cons_append, List.cons_append, joinWith_cons (by simp), joinWith_cons (by simp), ih,
        String.append_assoc, String.append_assoc, String.append_assoc]

theorem joinWith_consFirst (sep : Char) (c : Char) {pieces : List (List Char)} (h : pieces ≠ []) :
    joinWith (String.singleton sep) ((consFirst c pieces).map String.ofList) =
      String.singleton c ++ joinWith (String.singleton sep) (pieces.map String.ofList) := by
  cases pieces with
  | nil => exact absurd rfl h
  | cons p rest =>
      have hc : String.ofList (c :: p) = String.singleton c ++ String.ofList p := by
        apply String.toList_inj.1
        simp
      cases rest with
      | nil => exact hc
      | cons q rest =>
          simp only [consFirst, List.map_cons, joinWith, hc, String.append_assoc]

/-- A text is what its pieces make. -/
theorem joinWith_splitString (sep : Char) (s : String) :
    joinWith (String.singleton sep) (splitString sep s) = s := by
  rw [splitString]
  conv_rhs => rw [← String.ofList_toList (s := s)]
  induction s.toList with
  | nil => rfl
  | cons c cs ih =>
      have hc : String.ofList (c :: cs) = String.singleton c ++ String.ofList cs := by
        apply String.toList_inj.1
        simp
      rw [splitOn, hc]
      split
      · next h =>
        obtain rfl := eq_of_beq h
        rw [List.map_cons, joinWith_cons (by simpa using splitOn_ne_nil c cs), ih]
        apply String.toList_inj.1
        simp
      · rw [joinWith_consFirst sep c (splitOn_ne_nil sep cs), ih]

theorem splitString_injective (sep : Char) : Function.Injective (splitString sep) := by
  intro s t h
  rw [← joinWith_splitString sep s, h, joinWith_splitString]

end LuaAmbient.Text
