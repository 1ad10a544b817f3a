/-
What a traversal of a tree finds, before and after a change.

A traversal collects something from the files of a tree, directory by directory.  If it finds the same
at the place of a change before and after, it finds the same in the whole tree.

Main definitions:

* `LuaAmbient.FileTree.Traversal` — a way to collect something from a tree.

Main results:

* `LuaAmbient.FileTree.Traversal.run_put` — **a change that is not seen at its place is not seen at
  all**;
* `LuaAmbient.FileTree.Traversal.run_erase` — nor is the removal of a file in which nothing was found.
-/

import LuaAmbient.Proofs.FileTree.Directory

set_option relaxedAutoImplicit false
set_option autoImplicit false

namespace LuaAmbient.FileTree

/-- A way to collect something from a tree at a place: in a directory it depends on what is found in
the members, one after the other, and in an empty one nothing is found. -/
structure Traversal (α : Type) where
  run : Place → FileTree → List α
  run_empty : ∀ place, run place (.directory []) = []
  run_congr : ∀ place (ms ms' : List (String × FileTree)),
    (ms.flatMap fun m => run (place ++ [m.1]) m.2) =
      (ms'.flatMap fun m => run (place ++ [m.1]) m.2) →
    run place (.directory ms) = run place (.directory ms')

namespace Traversal

variable {α : Type} (f : Traversal α)

/-- A member is replaced by one in which the same is found. -/
theorem flatMap_put {place : Place} {ms : List (String × FileTree)} {name : String}
    {new : FileTree}
    (h : f.run (place ++ [name]) new =
      f.run (place ++ [name]) ((Keyed.get? ms name).getD (.directory []))) :
    ((Keyed.put ms name new).flatMap fun m => f.run (place ++ [m.1]) m.2) =
      ms.flatMap fun m => f.run (place ++ [m.1]) m.2 := by
  induction ms with
  | nil =>
      rw [Keyed.get?_nil, Option.getD_none, f.run_empty] at h
      simp [Keyed.put, h]
  | cons m ms ih =>
      rw [Keyed.get?_cons] at h
      by_cases hm : m.1 = name
      · rw [if_pos hm, Option.getD_some] at h
        simp [Keyed.put, hm, h]
      · rw [if_neg hm] at h
        simp [Keyed.put, hm, ih h]

/-- A change that is not seen at its place is not seen at all. -/
theorem run_put {tree new : FileTree} {place : Place} (hc : tree.Clear place) {above : Place}
    (h : f.run (above ++ place) new = f.run (above ++ place) (tree.subtree place)) :
    f.run above (put new place tree) = f.run above tree := by
  induction place generalizing tree above with
  | nil =>
      rw [List.append_nil] at h
      exact h
  | cons name place ih =>
      -- nothing but directories stands on the way, so there is one here
      obtain ⟨ms, hms⟩ : ∃ ms, tree = .directory ms := by
        rcases hc [] (name :: place) rfl (List.cons_ne_nil name place) with hnone | hdir
        · simp at hnone
        · obtain ⟨ms, hms⟩ := isDirectoryAt_iff.1 hdir
          exact ⟨ms, Option.some.inj hms⟩
      subst hms
      rw [put_cons]
      refine f.run_congr above _ _ (f.flatMap_put ?_)
      have hmember : (FileTree.directory ms).subtree [name] =
          (Keyed.get? ms name).getD (.directory []) := by
        rw [subtree, get?_cons]
        change ((Keyed.get? ms name).bind _).getD _ = _
        cases Keyed.get? ms name <;> rfl
      rw [← List.singleton_append] at hc h
      rw [← List.append_assoc, ← subtree_append, hmember] at h
      have hclear := hc.subtree
      rw [hmember] at hclear
      exact ih hclear h

/-- The removal of a file in which nothing was found is not seen. -/
theorem run_erase {place : Place} {ms : List (String × FileTree)} {name : String}
    (h : ∀ m ∈ ms, m.1 = name → f.run (place ++ [m.1]) m.2 = []) :
    f.run place (.directory (Keyed.erase ms name)) = f.run place (.directory ms) := by
  refine f.run_congr place _ _ ?_
  induction ms with
  | nil => rfl
  | cons m ms ih =>
      obtain ⟨hm, hms⟩ := List.forall_mem_cons.1 h
      rw [Keyed.erase] at ih ⊢
      by_cases hname : m.1 = name
      · rw [List.filter_cons_of_neg (by simp [hname]), List.flatMap_cons, hm hname, List.nil_append]
        exact ih hms
      · rw [List.filter_cons_of_pos (by simp [hname]), List.flatMap_cons, List.flatMap_cons, ih hms]

/-! ### Directories elsewhere -/

section Subtree

variable {tree : FileTree} {place root : Place} {name : String}
  (hroot : tree.isDirectoryAt root = true)
  (hsilent : ∀ above content, f.run (above ++ [name]) (.file content) = [])

include hroot hsilent

/-- A file in which nothing is found is put somewhere: the traversal of a directory does not see
it. -/
theorem run_subtree_put_file (hc : tree.Clear (place ++ [name]))
    (hd : tree.isDirectoryAt (place ++ [name]) = false)
    (hl : ∀ target, tree.get? (place ++ [name]) ≠ some (.link target)) (content : Content) :
    f.run [] ((put (.file content) (place ++ [name]) tree).subtree root) =
      f.run [] (tree.subtree root) := by
  rcases get?_put_cases (.file content) tree (place ++ [name]) root with
    ⟨rest, rfl, -⟩ | ⟨rest, hrest, hne, -⟩ | ⟨hget, -⟩
  · -- the directory does not stand below the file
    rw [isDirectoryAt_of_append hroot] at hd
    exact absurd hd (by simp)
  · -- the file is put below the directory, where there was none or one in which nothing is found
    obtain ⟨init, last, rfl⟩ := List.eq_nil_or_concat rest |>.resolve_left hne
    rw [List.concat_eq_append, ← List.append_assoc] at hrest
    obtain ⟨rfl, hlast⟩ := List.append_inj' hrest rfl
    obtain rfl : name = last := by simpa using hlast
    rw [List.append_assoc] at hc hd hl ⊢
    rw [subtree, get?_put_above]
    refine f.run_put hc.subtree ?_
    rw [List.nil_append, hsilent, subtree_append, subtree]
    cases hold : tree.get? (root ++ (init ++ [name])) with
    | none => exact (f.run_empty _).symm
    | some member =>
        cases member with
        | file content => exact (hsilent init content).symm
        | link target => exact absurd hold (hl target)
        | directory ms =>
            rw [isDirectoryAt_iff.2 ⟨ms, hold⟩] at hd
            exact absurd hd (by simp)
  · rw [subtree, hget, subtree]

/-- A file in which nothing is found is removed somewhere: the traversal of a directory does not see
it. -/
theorem run_subtree_erase {ms : List (String × FileTree)} {content : Content}
    (hms : tree.get? place = some (.directory ms)) (hn : (Keyed.keys ms).Nodup)
    (hf : Keyed.get? ms name = some (.file content)) :
    f.run [] ((put (.directory (Keyed.erase ms name)) place tree).subtree root) =
      f.run [] (tree.subtree root) := by
  have herase : ∀ above, f.run above (.directory (Keyed.erase ms name)) =
      f.run above (.directory ms) := by
    refine fun above => f.run_erase ?_
    intro m hm hname
    have hfile := (Keyed.get?_eq_some_iff hn).2 (show (m.1, m.2) ∈ ms from hm)
    rw [hname, hf, Option.some.injEq] at hfile
    rw [hname, ← hfile]
    exact hsilent above content
  rcases get?_put_cases (.directory (Keyed.erase ms name)) tree place root with
    ⟨rest, rfl, hget⟩ | ⟨rest, rfl, -, -⟩ | ⟨hget, -⟩
  · -- the directory is the one around the file, or stands in it beside the file
    cases rest with
    | nil =>
        rw [List.append_nil] at hget ⊢
        rw [subtree, hget, subtree_eq_of_get? hms]
        exact herase []
    | cons first rest =>
        have hsame : (FileTree.directory (Keyed.erase ms name)).get? (first :: rest) =
            (FileTree.directory ms).get? (first :: rest) := by
          rw [get?_cons, get?_cons]
          change (Keyed.get? (Keyed.erase ms name) first).bind _ = (Keyed.get? ms first).bind _
          rw [Keyed.get?_erase, if_neg]
          -- the directory does not stand below the file
          rintro rfl
          obtain ⟨ms', hms'⟩ := isDirectoryAt_iff.1 hroot
          rw [get?_append_of_eq_some hms, get?_cons] at hms'
          obtain ⟨member, hmember, hrest⟩ := Option.bind_eq_some_iff.1 hms'
          obtain rfl := Option.some.inj (hf.symm.trans hmember)
          cases rest with
          | nil => simp at hrest
          | cons second rest =>
              rw [get?_eq_none_of_members rfl (List.cons_ne_nil second rest)] at hrest
              simp at hrest
        rw [subtree, hget, hsame, ← get?_append_of_eq_some hms, subtree]
  · rw [subtree, get?_put_above]
    have hclear : (tree.subtree root).Clear rest := by
      refine Clear.subtree ?_
      intro above later he _
      rw [he] at hms
      exact .inr (isDirectoryAt_of_append (isDirectoryAt_iff.2 ⟨ms, hms⟩))
    refine f.run_put hclear ?_
    rw [List.nil_append, subtree_append, subtree_eq_of_get? hms]
    exact herase rest
  · rw [subtree, hget, subtree]

end Subtree

end Traversal

end LuaAmbient.FileTree
