/-
Cuts at the outermost level make parts of the text.

Main results:

* `LuaAmbient.Nesting.infix_of_mem_split` — **the pieces between separators stand in the text**;
* `LuaAmbient.Nesting.infix_of_partition`, `LuaAmbient.Nesting.infix_of_splitDescription` — so do the two
  parts of a text, and a type and its description.
-/

import LuaAmbient.Proofs.Nesting
import LuaAmbient.Proofs.Text.Part

set_option relaxedAutoImplicit false
set_option autoImplicit false

namespace LuaAmbient.Nesting

open LuaAmbient.Text

variable (sep : Char → Bool)

theorem arePieces_piecesFrom (d : Int) (s : List Char) : ArePieces s (piecesFrom sep d s) := by
  induction s generalizing d with
  | nil => exact ⟨by simp [piecesFrom], by simp [piecesFrom]⟩
  | cons c s ih =>
      rw [piecesFrom]
      split
      · exact (ih _).cut (List.suffix_cons c s)
      · exact (ih _).consFirst c

variable {sep}

/-- The pieces between separators stand in the text. -/
theorem infix_of_mem_split {s p : List Char} (h : p ∈ split sep s) : p <:+: s := by
  obtain ⟨q, hq, rfl, -⟩ := exists_piece_of_mem_split h
  exact (infix_strip q).trans ((arePieces_piecesFrom sep 0 s).infix_of_mem q hq)

theorem eq_append_of_breakFrom {d : Int} {s a b : List Char} (h : breakFrom sep d s = some (a, b)) :
    ∃ c, s = a ++ c :: b := by
  induction s generalizing d a with
  | nil => simp [breakFrom] at h
  | cons c s ih =>
      rw [breakFrom] at h
      split at h
      · obtain ⟨rfl, rfl⟩ := Prod.mk.inj (Option.some.inj h)
        exact ⟨c, rfl⟩
      · obtain ⟨⟨a', b'⟩, hbreak, heq⟩ := Option.map_eq_some_iff.1 h
        obtain ⟨rfl, rfl⟩ := Prod.mk.inj heq
        obtain ⟨e, rfl⟩ := ih hbreak
        exact ⟨e, rfl⟩

theorem infix_of_partition (sep : Char → Bool) (s : List Char) :
    (partition sep s).1 <:+: s ∧ (partition sep s).2 <:+: s := by
  rw [partition]
  split
  · next a b h =>
    obtain ⟨c, rfl⟩ := eq_append_of_breakFrom h
    have hb : b <:+ a ++ c :: b := (List.suffix_cons c b).trans (List.suffix_append a _)
    exact ⟨(infix_strip a).trans (List.prefix_append a _).isInfix, (infix_strip b).trans hb.isInfix⟩
  · exact ⟨infix_strip s, List.nil_infix⟩

theorem cutFrom_append (before : List Char) (d : Int) (s : List Char) :
    (cutFrom before d s).1 ++ (cutFrom before d s).2 = s := by
  induction s generalizing before d with
  | nil => rfl
  | cons c s ih =>
      rw [cutFrom]
      split
      · rfl
      · rw [List.cons_append, ih]

/-- The type in front of a description stands in the text. -/
theorem infix_of_splitDescription (s : List Char) : (splitDescription s).1 <:+: s := by
  have hcut : (cutFrom [] 0 (strip s)).1 <+: strip s := ⟨_, cutFrom_append [] 0 (strip s)⟩
  exact (infix_strip _).trans (hcut.isInfix.trans (infix_strip s))

end LuaAmbient.Nesting
