/-
What a run leaves alone.

A run changes its output directory only.  It makes no links and takes no directory away, so that all
ways in the file tree lead where they led before; and it writes no sources and no ignore files, so
that a scan finds what it found before.

Main definitions:

* `LuaAmbient.OutputDirectory.Framed` — what all steps of a run leave alone.

Main results:

* `LuaAmbient.OutputDirectory.step_cases` — what a step does to the tree;
* `LuaAmbient.OutputDirectory.framed_of_steps` — **steps leave everything else alone**.
-/

import LuaAmbient.Proofs.OutputDirectory
import LuaAmbient.Proofs.Scan.Stability

set_option relaxedAutoImplicit false
set_option autoImplicit false

namespace LuaAmbient.OutputDirectory

open FileTree Generation

/-- The names that a run writes: they lead into the directory, and a scan does not look for them. -/
structure IsProduct (name : String) : Prop where
  proper : IsProper name
  silent : ∀ init last, names name = init ++ [last] → Scan.IsSilent last

/-- What a step does to the tree: it puts a file, or it takes one out of the directory around. -/
theorem step_cases {wanted : String → Prop} (hw : ∀ n, wanted n → IsProper n)
    {a b : OutputDirectory} {goal : Place} (h : PlainAt a.tree a.place goal)
    (hs : Step wanted a b) :
    ∃ name, wanted name ∧
      ((∃ content, Room a.tree goal (names name) ∧
          b = ⟨put (.file content) (goal ++ names name) a.tree, a.place⟩) ∨
        ∃ init last ms content, names name = init ++ [last] ∧
          a.tree.get? (goal ++ init) = some (.directory ms) ∧
          Keyed.get? ms last = some (.file content) ∧
          b = ⟨put (.directory (Keyed.erase ms last)) (goal ++ init) a.tree, a.place⟩) := by
  cases hs with
  | @write name text hn hc =>
      have hr := (canWrite_iff h (hw name hn)).1 hc
      exact ⟨name, hn, .inl ⟨_, hr, write_eq h (hw name hn) hr text⟩⟩
  | @replace name text hn hc =>
      have hr := (canReplace_iff h (hw name hn)).1 hc
      exact ⟨name, hn, .inl ⟨_, hr, replace_eq h (hw name hn) hr text⟩⟩
  | @remove name hn hread =>
      obtain ⟨content, hread⟩ := Option.isSome_iff_exists.1 hread
      obtain ⟨init, last, ms, he, hms, hf, hb⟩ := remove_eq h (hw name hn) hread
      exact ⟨name, hn, .inr ⟨init, last, ms, content, he, hms, hf, hb⟩⟩

/-- What all steps of a run in a directory leave alone. -/
structure Framed (goal : Place) (a b : OutputDirectory) : Prop where
  place : b.place = a.place
  plain : PlainAt b.tree b.place goal
  keeps : Keeps a.tree b.tree
  elsewhere : ∀ other, ¬ goal <+: other → ¬ other <+: goal → b.tree.get? other = a.tree.get? other
  scan : ∀ root, a.tree.isDirectoryAt root = true →
    Scan.Alike (a.tree.subtree root) (b.tree.subtree root)

theorem Framed.refl {a : OutputDirectory} {goal : Place} (h : PlainAt a.tree a.place goal) :
    Framed goal a a :=
  ⟨rfl, h, .refl _, fun _ _ _ => rfl, fun _ _ => .refl _⟩

theorem Framed.trans {goal : Place} {a b c : OutputDirectory} (h : Framed goal a b)
    (h' : Framed goal b c) : Framed goal a c where
  place := h'.place.trans h.place
  plain := h'.plain
  keeps := h.keeps.trans h'.keeps
  elsewhere other hp hp' := (h'.elsewhere other hp hp').trans (h.elsewhere other hp hp')
  scan root hr := (h.scan root hr).trans (h'.scan root (h.keeps.directory root hr))

/-- A change below a place is not seen elsewhere. -/
theorem get?_put_elsewhere (new tree : FileTree) {goal other : Place} (rest : Place)
    (h : ¬ goal <+: other) (h' : ¬ other <+: goal) :
    (put new (goal ++ rest) tree).get? other = tree.get? other := by
  refine get?_put_apart new tree (fun hp => h ((List.prefix_append _ _).trans hp)) ?_
  intro hp
  rcases List.prefix_or_prefix_of_prefix hp (List.prefix_append goal rest) with hp | hp
  · exact h' hp
  · exact h hp

/-- Directories in which every traversal for a scan finds the same are alike. -/
theorem alike_of_traversals {tree tree' : FileTree} {root : Place}
    (hd : tree.isDirectoryAt root = true) (hd' : tree'.isDirectoryAt root = true)
    (hi : ∀ nested, (Scan.ignoreTraversal nested).run [] (tree'.subtree root) =
      (Scan.ignoreTraversal nested).run [] (tree.subtree root))
    (hw : ∀ output, (Scan.walkTraversal output).run [] (tree'.subtree root) =
      (Scan.walkTraversal output).run [] (tree.subtree root)) :
    Scan.Alike (tree.subtree root) (tree'.subtree root) := by
  obtain ⟨ms, hms⟩ := isDirectoryAt_iff.1 hd
  obtain ⟨ms', hms'⟩ := isDirectoryAt_iff.1 hd'
  rw [subtree_eq_of_get? hms, subtree_eq_of_get? hms'] at *
  exact .of_run (fun nested => (hi nested).symm) fun output => (hw output).symm

/-- A step leaves everything else alone. -/
theorem framed_of_step {wanted : String → Prop} (hw : ∀ n, wanted n → IsProduct n)
    {a b : OutputDirectory} {goal : Place} (h : PlainAt a.tree a.place goal)
    (hs : Step wanted a b) : Framed goal a b := by
  obtain ⟨name, hn, ⟨content, hr, rfl⟩ | ⟨init, last, ms, content, he, hms, hf, rfl⟩⟩ :=
    step_cases (fun n hn => (hw n hn).proper) h hs
  · -- a file is put
    have hk := h.keeps_put hr content
    refine ⟨rfl, h.put_file hr content (hw name hn).proper (names_ne_nil name), hk,
      fun other hp hp' => get?_put_elsewhere _ _ _ hp hp', fun root hroot => ?_⟩
    obtain ⟨init, last, he⟩ :=
      List.eq_nil_or_concat (names name) |>.resolve_left (names_ne_nil name)
    rw [List.concat_eq_append] at he
    have hsilent := (hw name hn).silent init last he
    have hc := h.clear_append hr
    have hd := hr.here
    have hl := h.ne_link (names name)
    rw [he, ← List.append_assoc] at hc hd hl hk ⊢
    refine alike_of_traversals hroot (hk.directory root hroot) (fun nested => ?_) fun output => ?_
    · exact Traversal.run_subtree_put_file _ hroot
        (fun above => Scan.ignoreTraversal_silent hsilent nested above) hc hd hl content
    · exact Traversal.run_subtree_put_file _ hroot
        (fun above => Scan.walkTraversal_silent hsilent output above) hc hd hl content
  · -- a file is taken out of the directory around it
    have hk := h.keeps_erase hms hf
    refine ⟨rfl, h.erase hms hf, hk, fun other hp hp' => get?_put_elsewhere _ _ _ hp hp',
      fun root hroot => ?_⟩
    have hsilent := (hw name hn).silent init last he
    have hnodup : (Keyed.keys ms).Nodup := by
      cases h.plain_get? hms with
      | directory hn _ _ => exact hn
    refine alike_of_traversals hroot (hk.directory root hroot) (fun nested => ?_) fun output => ?_
    · exact Traversal.run_subtree_erase _ hroot
        (fun above => Scan.ignoreTraversal_silent hsilent nested above) hms hnodup hf
    · exact Traversal.run_subtree_erase _ hroot
        (fun above => Scan.walkTraversal_silent hsilent output above) hms hnodup hf

/-- **Steps leave everything else alone.** -/
theorem framed_of_steps {wanted : String → Prop} (hw : ∀ n, wanted n → IsProduct n)
    {a b : OutputDirectory} {goal : Place} (h : PlainAt a.tree a.place goal)
    (hs : Steps wanted a b) : Framed goal a b := by
  induction hs with
  | refl => exact .refl h
  | tail _ hstep ih => exact ih.trans (framed_of_step hw ih.plain hstep)

end LuaAmbient.OutputDirectory
