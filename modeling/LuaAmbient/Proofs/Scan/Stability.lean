/-
Which changes of a tree a scan does not see, and which directories it may leave out.

Main definitions:

* `LuaAmbient.Scan.Alike` — a scan finds the same in two trees;
* `LuaAmbient.Scan.IsSilent` — a name that is neither that of a source nor that of an ignore file;
* `LuaAmbient.Scan.walkTraversal`, `LuaAmbient.Scan.ignoreTraversal` — what a scan looks for.

Main results:

* `LuaAmbient.Scan.Alike.sources_eq` — the sources of trees that are alike;
* `LuaAmbient.Scan.walk_eq_filter`, `LuaAmbient.Scan.sources_of_outside` — **to leave out a directory
  without sources makes no difference**.
-/

import LuaAmbient.Proofs.FileTree.Traversal
import LuaAmbient.Scan.Sources

set_option relaxedAutoImplicit false
set_option autoImplicit false

namespace LuaAmbient.Scan

open FileTree

/-! ### Trees that are alike -/

/-- A scan finds the same in two trees. -/
structure Alike (tree tree' : FileTree) : Prop where
  ignoreFiles : ∀ nested, Scan.ignoreFiles nested tree = Scan.ignoreFiles nested tree'
  walk : ∀ output, Scan.walk output [] tree.members = Scan.walk output [] tree'.members

theorem Alike.refl (tree : FileTree) : Alike tree tree :=
  ⟨fun _ => rfl, fun _ => rfl⟩

theorem Alike.trans {a b c : FileTree} (h : Alike a b) (h' : Alike b c) : Alike a c :=
  ⟨fun nested => (h.ignoreFiles nested).trans (h'.ignoreFiles nested),
    fun output => (h.walk output).trans (h'.walk output)⟩

theorem Alike.sources_eq {tree tree' : FileTree} (h : Alike tree tree') (reader : IgnoreReader)
    (output : Place) (nested : Bool) (included excluded : List String) :
    sources reader output nested included excluded tree =
      sources reader output nested included excluded tree' := by
  simp only [sources, select, h.ignoreFiles, h.walk]

/-! ### The walk -/

theorem walk_eq_flatMap (output place : Place) (ms : List (String × FileTree)) :
    walk output place ms = ms.flatMap fun m => walkMember output place m.1 m.2 := by
  induction ms with
  | nil => rw [walk, List.flatMap_nil]
  | cons m ms ih => rw [walk, List.flatMap_cons, ih]

/-- The sources in what stands at a place. -/
def walkAt (output place : Place) (tree : FileTree) : List (Place × Content) :=
  match place.getLast? with
  | none => walk output place tree.members
  | some name => walkMember output place.dropLast name tree

theorem walkAt_concat (output place : Place) (name : String) (tree : FileTree) :
    walkAt output (place ++ [name]) tree = walkMember output place name tree := by
  rw [walkAt, List.getLast?_concat, List.dropLast_concat]

/-- The walk as a traversal. -/
def walkTraversal (output : Place) : Traversal (Place × Content) where
  run := walkAt output
  run_empty place := by
    rw [walkAt]
    split
    · rw [members, walk]
    · rw [walkMember, walk, ite_self]
  run_congr place ms ms' h := by
    simp only [walkAt_concat, ← walk_eq_flatMap] at h
    cases hl : place.getLast? with
    | none =>
        rw [walkAt, walkAt, hl]
        exact h
    | some name =>
        obtain ⟨init, rfl⟩ := List.getLast?_eq_some_iff.1 hl
        simp only [walkAt_concat, walkMember, h]

/-! ### Ignore files -/

/-- Whether an ignore file counts, by its place. -/
def isIgnorePlace (nested : Bool) (place : Place) : Bool :=
  place.getLast? == some ignoreName && (nested || place.length == 1)

/-- An ignore file that counts. -/
def ignoreFile? (nested : Bool) (leaf : Place × FileTree) : Option (Place × Content) :=
  if isIgnorePlace nested leaf.1 then (content? leaf.2).map fun content => (leaf.1, content)
  else none

/-- The search for ignore files as a traversal. -/
def ignoreTraversal (nested : Bool) : Traversal (Place × Content) where
  run place tree := (leavesBelow place tree).filterMap (ignoreFile? nested)
  run_empty place := by
    rw [leavesBelow, leavesOf, List.filterMap_nil]
  run_congr place ms ms' h := by
    rw [leavesBelow, leavesBelow, leavesOf_eq_flatMap, leavesOf_eq_flatMap, List.filterMap_flatMap,
      List.filterMap_flatMap]
    exact h

theorem ignoreTraversal_run (nested : Bool) (tree : FileTree) :
    (ignoreTraversal nested).run [] tree =
      tree.files.filter fun f => f.1.getLast? == some ignoreName && (nested || f.1.length == 1) := by
  rw [files, List.filter_filterMap]
  refine List.filterMap_congr ?_
  intro leaf _
  obtain ⟨place, tree⟩ := leaf
  cases tree with
  | file content => rfl
  | link target => simp [ignoreFile?, content?]
  | directory ms => simp [ignoreFile?, content?]

/-- Directories in which both traversals find the same are alike. -/
theorem Alike.of_run {ms ms' : List (String × FileTree)}
    (hi : ∀ nested, (ignoreTraversal nested).run [] (.directory ms) =
      (ignoreTraversal nested).run [] (.directory ms'))
    (hw : ∀ output, (walkTraversal output).run [] (.directory ms) =
      (walkTraversal output).run [] (.directory ms')) :
    Alike (.directory ms) (.directory ms') where
  ignoreFiles nested := by
    have h := hi nested
    rw [ignoreTraversal_run, ignoreTraversal_run] at h
    simp only [Scan.ignoreFiles, h]
  walk output := hw output

/-! ### Silent names -/

/-- A name that is neither that of a source nor that of an ignore file. -/
def IsSilent (name : String) : Prop :=
  isSourceName name = false ∧ name ≠ ignoreName

theorem walkTraversal_silent {name : String} (h : IsSilent name) (output place : Place)
    (content : Content) : (walkTraversal output).run (place ++ [name]) (.file content) = [] := by
  change walkAt output (place ++ [name]) (.file content) = []
  rw [walkAt_concat, walkMember, h.1]
  rfl

theorem ignoreTraversal_silent {name : String} (h : IsSilent name) (nested : Bool) (place : Place)
    (content : Content) : (ignoreTraversal nested).run (place ++ [name]) (.file content) = [] := by
  change (leavesBelow (place ++ [name]) (.file content)).filterMap (ignoreFile? nested) = []
  simp [leavesBelow, ignoreFile?, isIgnorePlace, h.2]

/-! ### Directories that are left out -/

/-- A place inside a directory that is left out; nothing is left out at the root. -/
def IsInside (output place : Place) : Prop :=
  output ≠ [] ∧ output <+: place ∧ place ≠ output

instance (output place : Place) : Decidable (IsInside output place) :=
  inferInstanceAs (Decidable (output ≠ [] ∧ output <+: place ∧ place ≠ output))

mutual

/-- Whatever a walk finds is below its place. -/
theorem prefix_of_mem_walkMember (output place : Place) (name : String) :
    ∀ tree : FileTree, ∀ f ∈ walkMember output place name tree, place ++ [name] <+: f.1
  | .file content, f, hf => by
      rw [walkMember] at hf
      split at hf
      · rw [List.mem_singleton] at hf
        exact hf ▸ List.prefix_refl _
      · simp at hf
  | .link _, f, hf => by
      rw [walkMember] at hf
      simp at hf
  | .directory ms, f, hf => by
      rw [walkMember] at hf
      split at hf
      · exact (prefix_of_mem_walk output (place ++ [name]) ms f hf).1
      · simp at hf

theorem prefix_of_mem_walk (output place : Place) :
    ∀ ms : List (String × FileTree), ∀ f ∈ walk output place ms, place <+: f.1 ∧ f.1 ≠ place
  | [], f, hf => by
      rw [walk] at hf
      simp at hf
  | (name, member) :: rest, f, hf => by
      rw [walk, List.mem_append] at hf
      rcases hf with hf | hf
      · have hpre := prefix_of_mem_walkMember output place name member f hf
        refine ⟨(List.prefix_append _ _).trans hpre, fun he => ?_⟩
        have hlen := hpre.length_le
        rw [he, List.length_append, List.length_singleton] at hlen
        omega
      · exact prefix_of_mem_walk output place rest f hf

end

theorem entersDirectory_eq (output place : Place) (name : String) :
    entersDirectory output place name =
      (entersDirectory [] place name && (output.isEmpty || place ++ [name] != output)) := by
  simp [entersDirectory]

mutual

theorem walkMember_eq_filter {output place : Place} (hp : ¬ (output ≠ [] ∧ output <+: place))
    (name : String) :
    ∀ tree : FileTree, walkMember output place name tree =
      (walkMember [] place name tree).filter fun f => ¬ IsInside output f.1
  | .file content => by
      rw [walkMember, walkMember]
      split
      · have hin : ¬ IsInside output (place ++ [name]) := by
          rintro ⟨hne, hpre, hneq⟩
          rw [List.prefix_concat_iff] at hpre
          rcases hpre with heq | hpre
          · exact hneq heq.symm
          · exact hp ⟨hne, hpre⟩
        simp [hin]
      · rfl
  | .link _ => by rw [walkMember, walkMember, List.filter_nil]
  | .directory ms => by
      rw [walkMember, walkMember, entersDirectory_eq output]
      cases entersDirectory [] place name with
      | false => simp
      | true =>
          rw [Bool.true_and, if_pos rfl]
          by_cases hout : output ≠ [] ∧ place ++ [name] = output
          · -- all of the directory is left out, and all that is found in it is inside
            obtain ⟨hne, rfl⟩ := hout
            rw [if_neg (by simp), eq_comm, List.filter_eq_nil_iff]
            intro f hf
            simpa [IsInside] using prefix_of_mem_walk [] (place ++ [name]) ms f hf
          · have hp' : ¬ (output ≠ [] ∧ output <+: place ++ [name]) := by
              rintro ⟨hne, hpre⟩
              rw [List.prefix_concat_iff] at hpre
              rcases hpre with heq | hpre
              · exact hout ⟨hne, heq.symm⟩
              · exact hp ⟨hne, hpre⟩
            rw [if_pos, walk_eq_filter hp' ms]
            rw [Bool.or_eq_true, List.isEmpty_iff, bne_iff_ne]
            by_contra hcon
            rw [not_or, not_not] at hcon
            exact hout hcon

theorem walk_eq_filter {output place : Place} (hp : ¬ (output ≠ [] ∧ output <+: place)) :
    ∀ ms : List (String × FileTree), walk output place ms =
      (walk [] place ms).filter fun f => ¬ IsInside output f.1
  | [] => by rw [walk, walk, List.filter_nil]
  | (name, member) :: rest => by
      rw [walk, walk, List.filter_append, walkMember_eq_filter hp name member, walk_eq_filter hp rest]

end

/-- **To leave out a directory without sources makes no difference.** -/
theorem sources_of_outside {output : Place} {tree : FileTree}
    (h : ∀ f ∈ walk [] [] tree.members, ¬ IsInside output f.1) (reader : IgnoreReader) (nested : Bool)
    (included excluded : List String) :
    sources reader output nested included excluded tree =
      sources reader [] nested included excluded tree := by
  have hw : walk output [] tree.members = walk [] [] tree.members := by
    rw [walk_eq_filter (by rintro ⟨hne, hpre⟩; exact hne (List.prefix_nil.1 hpre)),
      List.filter_eq_self.2 fun f hf => by simpa using h f hf]
  simp only [sources, select, hw]

end LuaAmbient.Scan
