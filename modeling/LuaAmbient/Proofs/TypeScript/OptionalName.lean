/-
Names of parameters that may be left out.

A parameter is optional if a question mark stands at the end of its name.  What is left of the name
without such marks is never marked itself, so a name with one mark is told by its bare name and by
whether it is optional.

Main results:

* `LuaAmbient.TypeScript.bareName_eq_self_iff` — **the bare names are those without a mark**;
* `LuaAmbient.TypeScript.bareName_append_marks`, `LuaAmbient.TypeScript.isOptionalName_append_marks` —
  marks behind a bare name.
-/

import Mathlib.Data.List.DropRight
import Mathlib.Tactic.Common
import LuaAmbient.TypeScript.TypeText

set_option relaxedAutoImplicit false
set_option autoImplicit false

namespace LuaAmbient.TypeScript

open LuaAmbient.Text

/-- Only the last character of a name counts. -/
theorem isOptionalName_append (n : String) {m : String} (h : m ≠ "") :
    isOptionalName (n ++ m) = isOptionalName m := by
  have hm : m.toList ≠ [] := by simpa using h
  rw [isOptionalName, isOptionalName, String.toList_append, List.getLast?_append_of_ne_nil _ hm]

@[simp] theorem isOptionalName_append_mark (n : String) : isOptionalName (n ++ "?") = true :=
  isOptionalName_append n (by decide)

/-- The bare names are those without a mark. -/
theorem bareName_eq_self_iff {n : String} : bareName n = n ↔ isOptionalName n = false := by
  calc bareName n = n ↔ n.toList.rdropWhile (· == '?') = n.toList := by
        rw [← String.toList_inj, bareName, String.toList_ofList]
        rfl
    _ ↔ ∀ hne : n.toList ≠ [], ¬ (n.toList.getLast hne == '?') = true := List.rdropWhile_eq_self_iff
    _ ↔ isOptionalName n = false := by
        rw [isOptionalName]
        cases n.toList with
        | nil => simp
        | cons c cs => simp [List.getLast?_eq_some_getLast]

@[simp] theorem isOptionalName_bareName (n : String) : isOptionalName (bareName n) = false := by
  rw [← bareName_eq_self_iff, bareName, bareName, String.toList_ofList]
  exact congrArg String.ofList (List.rdropWhile_idempotent _ _)

@[simp] theorem bareName_append_mark (n : String) : bareName (n ++ "?") = bareName n := by
  rw [bareName, bareName, String.toList_append]
  exact congrArg String.ofList (List.rdropWhile_concat_pos _ _ '?' rfl)

section Marks

variable {n : String} {marks : List Char} (hn : isOptionalName n = false)
  (hmarks : ∀ c ∈ marks, c = '?')

include hn hmarks

/-- All marks behind a bare name are dropped. -/
theorem bareName_append_marks : bareName (n ++ String.ofList marks) = n := by
  induction marks using List.reverseRecOn with
  | nil =>
      rw [String.ofList_nil, String.append_empty]
      exact bareName_eq_self_iff.2 hn
  | append_singleton marks c ih =>
      obtain rfl : c = '?' := hmarks c (by simp)
      rw [String.ofList_append, ← String.append_assoc]
      calc bareName (n ++ String.ofList marks ++ "?") = bareName (n ++ String.ofList marks) :=
            bareName_append_mark _
        _ = n := ih fun c hc => hmarks c (by simp [hc])

theorem isOptionalName_append_marks :
    isOptionalName (n ++ String.ofList marks) = !marks.isEmpty := by
  rcases List.eq_nil_or_concat marks with rfl | ⟨init, c, rfl⟩
  · rw [String.ofList_nil, String.append_empty, hn]
    rfl
  · obtain rfl : c = '?' := hmarks c (by simp)
    rw [List.concat_eq_append, String.ofList_append, ← String.append_assoc]
    exact (isOptionalName_append_mark _).trans (by simp)

end Marks

end LuaAmbient.TypeScript
