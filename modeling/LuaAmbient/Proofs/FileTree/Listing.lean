/-
What a tree holds, in whatever order its directories are listed.

A tree is a list of its leaves with their places.  If the members of a directory have different names,
no place is listed twice, and the regular files in the list are those that stand at their places.  The
members of a directory come in no particular order: the trees that differ in it hold the same leaves.

Main definitions:

* `LuaAmbient.FileTree.Rearranged` — the same tree with the members of its directories in another
  order.

Main results:

* `LuaAmbient.FileTree.WellNamed.nodup_leavesBelow` — no place is listed twice;
* `LuaAmbient.FileTree.WellNamed.mem_files_iff` — **the files of a tree are those that stand at their
  places**;
* `LuaAmbient.FileTree.Rearranged.leavesBelow_perm` — **the order of members does not change what a
  tree holds**.
-/

import LuaAmbient.Proofs.FileTree.Directory

set_option relaxedAutoImplicit false
set_option autoImplicit false

namespace LuaAmbient.FileTree

/-! ### Files -/

/-- A regular file of a list of leaves. -/
def file? (leaf : Place × FileTree) : Option (Place × Content) :=
  (content? leaf.2).map fun content => (leaf.1, content)

theorem files_eq_filterMap (tree : FileTree) : tree.files = tree.leaves.filterMap file? := by
  rw [files]
  refine List.filterMap_congr ?_
  rintro ⟨place, leaf⟩ -
  cases leaf <;> rfl

theorem file?_eq_some_iff {leaf : Place × FileTree} {f : Place × Content} :
    file? leaf = some f ↔ leaf = (f.1, .file f.2) := by
  obtain ⟨place, tree⟩ := leaf
  obtain ⟨place', content'⟩ := f
  cases tree <;> simp [file?, content?]

/-- The places of what is picked out of a list are among its places, in order. -/
theorem sublist_places {α : Type} {pick : Place × FileTree → Option (Place × α)}
    (h : ∀ leaf f, pick leaf = some f → f.1 = leaf.1) (leaves : List (Place × FileTree)) :
    ((leaves.filterMap pick).map (·.1)).Sublist (leaves.map (·.1)) := by
  induction leaves with
  | nil => exact .slnil
  | cons leaf leaves ih =>
      rw [List.filterMap_cons, List.map_cons]
      cases hpick : pick leaf with
      | none => exact ih.cons _
      | some f =>
          rw [List.map_cons, h leaf f hpick]
          exact ih.cons_cons _

namespace WellNamed

variable {tree : FileTree} (h : WellNamed tree)

include h

/-- No place is listed twice. -/
theorem nodup_leavesBelow (place : Place) : ((leavesBelow place tree).map (·.1)).Nodup := by
  induction h generalizing place with
  | file content => simp [leavesBelow]
  | link target => simp [leavesBelow]
  | @directory ms hn hk hm ih =>
      rw [leavesBelow, leavesOf_eq_flatMap, List.map_flatMap, List.nodup_flatMap]
      refine ⟨fun m hmem => ih m hmem _, ?_⟩
      -- the leaves of two members differ in the name behind the place
      refine (List.pairwise_map.1 hn).imp_of_mem ?_
      intro m m' hmem hmem' hne
      refine List.disjoint_iff_ne.2 ?_
      intro p hp p' hp' heq
      obtain ⟨leaf, hleaf, rfl⟩ := List.mem_map.1 hp
      obtain ⟨leaf', hleaf', rfl⟩ := List.mem_map.1 hp'
      obtain ⟨rest, hplace, -⟩ := (hm m hmem).get?_of_mem_leavesBelow hleaf
      obtain ⟨rest', hplace', -⟩ := (hm m' hmem').get?_of_mem_leavesBelow hleaf'
      rw [hplace, hplace', List.append_assoc, List.append_assoc] at heq
      exact hne (List.cons.inj (List.append_cancel_left heq)).1

/-- The files of a tree are those that stand at their places. -/
theorem mem_files_iff {f : Place × Content} :
    f ∈ tree.files ↔ tree.get? f.1 = some (.file f.2) := by
  rw [files_eq_filterMap, List.mem_filterMap]
  constructor
  · rintro ⟨leaf, hleaf, hf⟩
    rw [file?_eq_some_iff] at hf
    subst hf
    exact (h.mem_leaves_iff.1 hleaf).1
  · intro hget
    exact ⟨(f.1, .file f.2), h.mem_leaves_iff.2 ⟨hget, trivial⟩, file?_eq_some_iff.2 rfl⟩

theorem nodup_files : (tree.files.map (·.1)).Nodup := by
  rw [files_eq_filterMap]
  refine (sublist_places ?_ tree.leaves).nodup (h.nodup_leavesBelow [])
  intro leaf f hf
  rw [file?_eq_some_iff.1 hf]

end WellNamed

/-! ### Orders of members -/

/-- The same tree with the members of its directories in another order. -/
inductive Rearranged : FileTree → FileTree → Prop
  | refl (tree : FileTree) : Rearranged tree tree
  | members {ms ms' : List (String × FileTree)} :
      ms.Perm ms' → Rearranged (.directory ms) (.directory ms')
  | member (before after : List (String × FileTree)) (name : String) {tree tree' : FileTree} :
      Rearranged tree tree' → Rearranged (.directory (before ++ (name, tree) :: after))
        (.directory (before ++ (name, tree') :: after))
  | trans {a b c : FileTree} : Rearranged a b → Rearranged b c → Rearranged a c

namespace Rearranged

variable {tree tree' : FileTree} (h : Rearranged tree tree')

include h

/-- The order of members does not change what a tree holds. -/
theorem leavesBelow_perm (place : Place) :
    (leavesBelow place tree).Perm (leavesBelow place tree') := by
  induction h generalizing place with
  | refl tree => exact .refl _
  | members hperm =>
      rw [leavesBelow, leavesBelow, leavesOf_eq_flatMap, leavesOf_eq_flatMap]
      exact hperm.flatMap_right _
  | member before after name _ ih =>
      rw [leavesBelow, leavesBelow, leavesOf_eq_flatMap, leavesOf_eq_flatMap, List.flatMap_append,
        List.flatMap_append, List.flatMap_cons, List.flatMap_cons]
      exact ((ih _).append_right _).append_left _
  | trans _ _ ih ih' => exact (ih place).trans (ih' place)

theorem wellNamed (hnames : WellNamed tree) : WellNamed tree' := by
  induction h with
  | refl tree => exact hnames
  | members hperm =>
      cases hnames with
      | directory hn hk hm =>
          exact .directory ((hperm.map _).nodup_iff.1 hn) (fun m hmem => hk m (hperm.mem_iff.2 hmem))
            fun m hmem => hm m (hperm.mem_iff.2 hmem)
  | member before after name _ ih =>
      cases hnames with
      | directory hn hk hm =>
          rw [List.forall_mem_append, List.forall_mem_cons] at hk hm
          obtain ⟨hbefore, hmember, hafter⟩ := hm
          refine .directory (by simpa using hn) ?_ ?_
          · exact List.forall_mem_append.2 ⟨hk.1, List.forall_mem_cons.2 hk.2⟩
          · exact List.forall_mem_append.2
              ⟨hbefore, List.forall_mem_cons.2 ⟨ih hmember, hafter⟩⟩
  | trans _ _ ih ih' => exact ih' (ih hnames)

theorem files_perm : tree.files.Perm tree'.files := by
  rw [files_eq_filterMap, files_eq_filterMap]
  exact (h.leavesBelow_perm []).filterMap _

end Rearranged

end LuaAmbient.FileTree
