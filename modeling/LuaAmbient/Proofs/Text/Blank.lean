/-
Texts without the blanks at their ends.

Stripping drops blanks and nothing else, and what is left neither starts nor ends with one.

Main definitions:

* `LuaAmbient.Text.AllBlank` — a text of blanks;
* `LuaAmbient.Text.Trimmed` — a text that neither starts nor ends with a blank.

Main results:

* `LuaAmbient.Text.exists_strip` — **a text is its stripped part with blanks around it**;
* `LuaAmbient.Text.strip_append_left`, `LuaAmbient.Text.strip_append_right` — blanks at the ends do
  not count;
* `LuaAmbient.Text.strip_eq_self` — the texts that stripping leaves as they are.
-/

import Mathlib.Data.List.DropRight
import Mathlib.Tactic.Common
import LuaAmbient.Text.Blank

set_option relaxedAutoImplicit false
set_option autoImplicit false

namespace LuaAmbient.Text

/-- Whether all characters of a text fulfil a condition is decided one by one. -/
instance (priority := 2000) decidableForallMem (s : List Char) (p : Char → Prop)
    [DecidablePred p] : Decidable (∀ c ∈ s, p c) :=
  List.decidableBAll p s

/-- A text of blanks. -/
def AllBlank (s : List Char) : Prop :=
  ∀ c ∈ s, isBlank c = true

/-- A text that neither starts nor ends with a blank. -/
structure Trimmed (s : List Char) : Prop where
  head : ∀ c ∈ s.head?, isBlank c = false
  last : ∀ c ∈ s.getLast?, isBlank c = false

theorem allBlank_nil : AllBlank [] := by
  simp [AllBlank]

theorem allBlank_space : AllBlank [' '] := by
  simp [AllBlank]
  decide

theorem AllBlank.append {s t : List Char} (hs : AllBlank s) (ht : AllBlank t) :
    AllBlank (s ++ t) := by
  intro c hc
  rcases List.mem_append.1 hc with hc | hc
  · exact hs c hc
  · exact ht c hc

/-- A text whose ends are not blank. -/
theorem trimmed_of_ends {a b : Char} {s : List Char} (ha : isBlank a = false)
    (hb : isBlank b = false) : Trimmed (a :: s ++ [b]) where
  head c hc := by
    obtain rfl : a = c := by simpa using hc
    exact ha
  last c hc := by
    rw [List.getLast?_concat] at hc
    obtain rfl : b = c := Option.some.inj hc
    exact hb

/-- Only the ends of a text matter. -/
theorem Trimmed.around {s m t : List Char} (hs : Trimmed s) (ht : Trimmed t) (hs' : s ≠ [])
    (ht' : t ≠ []) : Trimmed (s ++ m ++ t) where
  head c hc := by
    obtain ⟨a, s, rfl⟩ := List.exists_cons_of_ne_nil hs'
    exact hs.head c (by simpa using hc)
  last c hc := by
    refine ht.last c ?_
    rw [List.getLast?_append, List.getLast?_eq_some_getLast ht'] at hc
    rw [List.getLast?_eq_some_getLast ht']
    simpa using hc

/-- Two texts with a space between them. -/
theorem Trimmed.spaced {s t : List Char} (hs : Trimmed s) (ht : Trimmed t) (hs' : s ≠ [])
    (ht' : t ≠ []) : Trimmed (s ++ ' ' :: t) := by
  have h : Trimmed (s ++ [' '] ++ t) := hs.around ht hs' ht'
  rwa [List.append_assoc, List.singleton_append] at h

/-- Not only blanks stand at the end of a text that does not end with one. -/
theorem Trimmed.not_allBlank {s t : List Char} (h : Trimmed (s ++ t)) (ht : t ≠ []) :
    ¬ AllBlank t := by
  intro hb
  have hlast := h.last (t.getLast ht) (by
    rw [List.getLast?_append, List.getLast?_eq_some_getLast ht]
    rfl)
  rw [hb _ (List.getLast_mem ht)] at hlast
  exact absurd hlast (by decide)

/-- A text whose characters are not blank. -/
theorem trimmed_of_forall {s : List Char} (h : ∀ c ∈ s, isBlank c = false) : Trimmed s where
  head c hc := h c (List.mem_of_mem_head? hc)
  last c hc := h c (List.mem_of_mem_getLast? hc)

/-! ### The left end -/

theorem stripLeft_append {b : List Char} (hb : AllBlank b) (s : List Char) :
    stripLeft (b ++ s) = stripLeft s :=
  List.dropWhile_append_of_pos hb

theorem stripLeft_eq_self {s : List Char} (h : ∀ c ∈ s.head?, isBlank c = false) :
    stripLeft s = s := by
  cases s with
  | nil => rfl
  | cons c s =>
      have hc := h c (by simp)
      rw [stripLeft, List.dropWhile_cons_of_neg (by simp [hc])]

/-- A text is what is left of it behind some blanks. -/
theorem exists_stripLeft (s : List Char) :
    ∃ b, AllBlank b ∧ s = b ++ stripLeft s ∧ ∀ c ∈ (stripLeft s).head?, isBlank c = false := by
  refine ⟨s.takeWhile isBlank, fun c hc => List.mem_takeWhile_imp hc,
    (List.takeWhile_append_dropWhile).symm, ?_⟩
  intro c hc
  have h := List.head?_dropWhile_not isBlank s
  rw [← stripLeft, hc] at h
  simpa using h

theorem stripLeft_eq_nil_iff {s : List Char} : stripLeft s = [] ↔ AllBlank s :=
  List.dropWhile_eq_nil_iff

/-- Blanks behind a text are stripped only if there is nothing else. -/
theorem stripLeft_append_right {s : List Char} (h : ¬ AllBlank s) (t : List Char) :
    stripLeft (s ++ t) = stripLeft s ++ t := by
  obtain ⟨b, hb, hs, hhead⟩ := exists_stripLeft s
  have hne : stripLeft s ≠ [] := fun he => h (stripLeft_eq_nil_iff.1 he)
  have hself : stripLeft (stripLeft s ++ t) = stripLeft s ++ t := by
    refine stripLeft_eq_self ?_
    obtain ⟨c, r, hr⟩ := List.exists_cons_of_ne_nil hne
    rw [hr] at hhead ⊢
    simpa using hhead
  calc stripLeft (s ++ t) = stripLeft (b ++ (stripLeft s ++ t)) := by
        rw [← List.append_assoc, ← hs]
    _ = stripLeft s ++ t := by rw [stripLeft_append hb, hself]

/-! ### The right end -/

theorem stripRight_eq_reverse (s : List Char) : stripRight s = (stripLeft s.reverse).reverse :=
  rfl

theorem AllBlank.reverse {s : List Char} (h : AllBlank s) : AllBlank s.reverse :=
  fun c hc => h c (List.mem_reverse.1 hc)

theorem stripRight_append (s : List Char) {b : List Char} (hb : AllBlank b) :
    stripRight (s ++ b) = stripRight s := by
  rw [stripRight_eq_reverse, List.reverse_append, stripLeft_append hb.reverse,
    ← stripRight_eq_reverse]

theorem stripRight_eq_self {s : List Char} (h : ∀ c ∈ s.getLast?, isBlank c = false) :
    stripRight s = s := by
  rw [stripRight_eq_reverse, stripLeft_eq_self (by simpa using h), List.reverse_reverse]

theorem exists_stripRight (s : List Char) :
    ∃ b, AllBlank b ∧ s = stripRight s ++ b ∧ ∀ c ∈ (stripRight s).getLast?, isBlank c = false := by
  obtain ⟨b, hb, hs, hhead⟩ := exists_stripLeft s.reverse
  refine ⟨b.reverse, hb.reverse, ?_, by simpa [stripRight_eq_reverse] using hhead⟩
  have h := congrArg List.reverse hs
  rwa [List.reverse_reverse, List.reverse_append, ← stripRight_eq_reverse] at h

/-! ### Both ends -/

/-- **A text is its stripped part with blanks around it.** -/
theorem exists_strip (s : List Char) :
    ∃ a b, AllBlank a ∧ AllBlank b ∧ s = a ++ strip s ++ b ∧ Trimmed (strip s) := by
  obtain ⟨a, ha, hs, hhead⟩ := exists_stripLeft s
  obtain ⟨b, hb, hs', hlast⟩ := exists_stripRight (stripLeft s)
  refine ⟨a, b, ha, hb, ?_, ⟨fun c hc => hhead c ?_, hlast⟩⟩
  · rw [List.append_assoc, strip, ← hs', ← hs]
  · -- what is left on the right of a text that is not empty starts where the text starts
    rw [strip] at hc
    rw [hs']
    cases h : stripRight (stripLeft s) with
    | nil => simp [h] at hc
    | cons d r =>
        rw [h] at hc
        simpa using hc

theorem trimmed_strip (s : List Char) : Trimmed (strip s) := by
  obtain ⟨-, -, -, -, -, h⟩ := exists_strip s
  exact h

theorem strip_eq_self {s : List Char} (h : Trimmed s) : strip s = s := by
  rw [strip, stripLeft_eq_self h.head, stripRight_eq_self h.last]

@[simp] theorem strip_strip (s : List Char) : strip (strip s) = strip s :=
  strip_eq_self (trimmed_strip s)

/-- What stands at the start of a text without blanks at its ends has blanks only at its right end. -/
theorem strip_eq_stripRight {s t : List Char} (h : Trimmed (s ++ t)) : strip s = stripRight s := by
  rw [strip, stripLeft_eq_self]
  intro c hc
  refine h.head c ?_
  rw [List.head?_append, hc]
  rfl

/-- What stands at the end of a text without blanks at its ends has blanks only at its left end. -/
theorem strip_eq_stripLeft {s t : List Char} (h : Trimmed (s ++ t)) : strip t = stripLeft t := by
  obtain ⟨b, -, ht, -⟩ := exists_stripLeft t
  rw [strip, stripRight_eq_self]
  intro c hc
  refine h.last c ?_
  rw [ht, List.getLast?_append, List.getLast?_append, hc]
  rfl

theorem strip_append_left {b : List Char} (hb : AllBlank b) (s : List Char) :
    strip (b ++ s) = strip s := by
  rw [strip, stripLeft_append hb, ← strip]

theorem strip_append_right (s : List Char) {b : List Char} (hb : AllBlank b) :
    strip (s ++ b) = strip s := by
  by_cases h : AllBlank s
  · rw [strip, strip, stripLeft_eq_nil_iff.2 h, stripLeft_eq_nil_iff.2 (h.append hb)]
  · rw [strip, stripLeft_append_right h, stripRight_append _ hb, ← strip]

theorem strip_eq_nil_iff {s : List Char} : strip s = [] ↔ AllBlank s := by
  constructor
  · intro h
    obtain ⟨a, b, ha, hb, hs, -⟩ := exists_strip s
    rw [hs, h, List.append_nil]
    exact ha.append hb
  · intro h
    rw [strip, stripLeft_eq_nil_iff.2 h]
    rfl

theorem length_strip_le (s : List Char) : (strip s).length ≤ s.length := by
  obtain ⟨a, b, -, -, hs, -⟩ := exists_strip s
  have h := congrArg List.length hs
  simp only [List.length_append] at h
  omega

theorem mem_of_mem_strip {s : List Char} {c : Char} (h : c ∈ strip s) : c ∈ s := by
  obtain ⟨a, b, -, -, hs, -⟩ := exists_strip s
  rw [hs]
  simp [h]

/-- Characters that are not blank are as many as before. -/
theorem count_strip {c : Char} (hc : isBlank c = false) (s : List Char) :
    (strip s).count c = s.count c := by
  obtain ⟨a, b, ha, hb, hs, -⟩ := exists_strip s
  have hnot : ∀ {t : List Char}, AllBlank t → t.count c = 0 := by
    intro t ht
    refine List.count_eq_zero.2 fun hm => ?_
    rw [ht c hm] at hc
    exact absurd hc (by decide)
  conv_rhs => rw [hs]
  simp [List.count_append, hnot ha, hnot hb]

end LuaAmbient.Text
