/-
The names of declaration files.

A declaration file stands in the directories of its source.  If the path of the source does not go
up, all its names lead to members of a directory.

Main results:

* `LuaAmbient.SourcePath.exists_split_declaration` — the names on the way to a declaration file;
* `LuaAmbient.SourcePath.isMemberName_of_mem_declaration` — **a path that does not go up has a
  declaration file below**.
-/

import LuaAmbient.SourcePath
import LuaAmbient.Proofs.FileTree.Basic
import LuaAmbient.Proofs.Text.Search

set_option relaxedAutoImplicit false
set_option autoImplicit false

namespace LuaAmbient.SourcePath

open LuaAmbient.Text

theorem not_mem_segments {path s : String} (h : s ∈ segments path) :
    s ≠ "" ∧ s ≠ "." ∧ '/' ∉ s.toList := by
  obtain ⟨hm, hk⟩ := List.mem_filter.1 h
  obtain ⟨piece, hp, rfl⟩ := List.mem_map.1 hm
  refine ⟨fun he => by simp [he] at hk, fun he => by simp [he] at hk, ?_⟩
  rw [String.toList_ofList]
  exact not_mem_of_mem_splitOn hp

/-- The names on the way to a declaration file: segments of the path of its source, and last a name
with the end of declaration files. -/
theorem exists_split_declaration (path : String) :
    ∃ init last, splitString '/' (declaration path) = init ++ [last ++ declarationEnding] ∧
      (∀ s ∈ init, s ∈ segments path) ∧ '/' ∉ last.toList := by
  obtain ⟨t, ht, hpath⟩ := exists_dropSuffix_append (normalize path).toList sourceEnding.toList
  have hdecl : (declaration path).toList =
      dropSuffix (normalize path).toList sourceEnding.toList ++ declarationEnding.toList := by
    rw [declaration, specifier, String.toList_append, String.toList_ofList]
  generalize dropSuffix (normalize path).toList sourceEnding.toList = stem at hpath hdecl
  have hslash : '/' ∉ t := by
    rcases ht with rfl | rfl <;> decide
  have hslash' : '/' ∉ declarationEnding.toList := by decide
  obtain ⟨init, last, hstem, hsplit⟩ := splitOn_append_of_not_mem hslash stem
  obtain ⟨init', last', hstem', hsplit'⟩ := splitOn_append_of_not_mem hslash' stem
  obtain ⟨rfl, hlast⟩ := List.append_inj' (hstem.symm.trans hstem') rfl
  obtain rfl : last = last' := by simpa using hlast
  refine ⟨init.map String.ofList, String.ofList last, ?_, fun s hs => ?_, ?_⟩
  · rw [splitString, hdecl, hsplit']
    simp [String.ofList_append]
  · have hmem : s ∈ splitString '/' (normalize path) := by
      rw [splitString, hpath, hsplit, List.map_append]
      exact List.mem_append_left _ hs
    by_cases hne : segments path = []
    · -- nothing is left of the path, and it has no directory
      have hempty : splitOn '/' (normalize path).toList = [[]] := by
        rw [normalize, hne]
        rfl
      rw [hpath, hsplit, List.append_eq_singleton_iff] at hempty
      rcases hempty with ⟨hnil, -⟩ | ⟨-, hnil⟩
      · simp [hnil] at hs
      · simp at hnil
    · have hsegments := splitString_joinWith hne fun p hp => (not_mem_segments hp).2.2
      rwa [normalize, show ("/" : String) = String.singleton '/' from rfl, hsegments] at hmem
  · rw [String.toList_ofList]
    exact not_mem_of_mem_splitOn (hstem ▸ List.mem_append_right init (List.mem_singleton_self last))

/-- A path that does not go up has a declaration file below. -/
theorem isMemberName_of_mem_declaration {path : String} (h : ".." ∉ segments path) :
    ∀ s ∈ splitString '/' (declaration path), FileTree.IsMemberName s := by
  obtain ⟨init, last, hsplit, hinit, hlast⟩ := exists_split_declaration path
  rw [hsplit]
  intro s hs
  rcases List.mem_append.1 hs with hs | hs
  · obtain ⟨hne, hdot, hslash⟩ := not_mem_segments (hinit s hs)
    exact ⟨hne, hdot, fun he => h (he ▸ hinit s hs), hslash⟩
  · rw [List.mem_singleton] at hs
    subst hs
    refine ⟨?_, ?_, ?_, ?_⟩
    · intro he
      have := congrArg String.toList he
      simp [declarationEnding] at this
    · intro he
      have := congrArg (·.toList.length) he
      simp [declarationEnding] at this
    · intro he
      have := congrArg (·.toList.length) he
      simp [declarationEnding] at this
    · rw [String.toList_append, List.mem_append, not_or]
      exact ⟨hlast, by decide⟩

end LuaAmbient.SourcePath
