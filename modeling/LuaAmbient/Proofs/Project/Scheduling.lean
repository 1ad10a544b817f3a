/-
Projects, whatever the order in which their sources are finished.

Main definitions:

* `LuaAmbient.Project.Outcome.Reordered` — **two outcomes that differ in the order of the messages
  alone**.

Main results:

* `LuaAmbient.Project.reordered_generate`, `LuaAmbient.Project.generate_of_schedules` — **a run of a
  project in two orders**;
* `LuaAmbient.Project.reordered_verify` — a verification in two orders.
-/

import LuaAmbient.Proofs.Generation.Scheduling
import LuaAmbient.Proofs.Project.Accounting

set_option relaxedAutoImplicit false
set_option autoImplicit false

namespace LuaAmbient.Project

open Generation

/-- Two outcomes that differ in the order of the messages alone: the file trees are the same, and so
is what is reported. -/
structure Outcome.Reordered (o o' : Outcome) : Prop where
  tree : o.tree = o'.tree
  result : o.result = o'.result
  log : o.log.Perm o'.log

section Schedules

variable (digest : String → String) (parser : Lua.Parser) (ignores : Scan.IgnoreReader)
  {schedule schedule' : Schedule} (hs : Complete schedule) (hs' : Complete schedule')

include hs hs'

/-- A run with all that it needs to know, in two orders. -/
theorem reordered_generate (tree : FileTree) (root : Place) (options : Options) :
    (generate ⟨digest, schedule, parser, ignores⟩ tree root options).Reordered
      (generate ⟨digest, schedule', parser, ignores⟩ tree root options) := by
  rw [generate, generate]
  dsimp only
  -- settings and sources are found before anything is scheduled
  split
  · exact ⟨rfl, rfl, .refl _⟩
  · next settings output sources _ =>
    have h := generate_reordered digest
      ⟨⟨parser, settings, options.symbolIndex.getD settings.symbolIndex⟩, options.force⟩ hs hs' sources
      (OutputDirectory.mk tree output)
    exact ⟨congrArg OutputDirectory.tree h.output, by rw [h.result], h.log⟩

/-- A verification in two orders finds the same differences. -/
theorem reordered_verify (scratch : Place) (tree : FileTree) (root : Place)
    (settings : Option Settings) (output : Place) :
    (verify ⟨digest, schedule, parser, ignores⟩ scratch tree root settings output).1 =
        (verify ⟨digest, schedule', parser, ignores⟩ scratch tree root settings output).1 ∧
      (verify ⟨digest, schedule, parser, ignores⟩ scratch tree root settings output).2.Perm
        (verify ⟨digest, schedule', parser, ignores⟩ scratch tree root settings output).2 := by
  rw [verify, verify]
  by_cases he : (!tree.exists? output) = true
  · rw [if_pos he, if_pos he]
    exact ⟨rfl, .refl _⟩
  rw [if_neg he, if_neg he]
  by_cases hd : (!tree.isDirectory output) = true
  · rw [if_pos hd, if_pos hd]
    exact ⟨rfl, .refl _⟩
  rw [if_neg hd, if_neg hd]
  have h := reordered_generate digest parser ignores hs hs' tree root
    { settings := settings, output := some scratch, force := true
      symbolIndex := some (tree.read? (output ++ [symbolsName])).isSome }
  exact ⟨by simp only [h.tree, h.result], h.log⟩

/-- **A run of a project in two orders.**  Whatever is in the file tree and whatever the run is asked
to do, it leaves the same tree and reports the same if the sources of its batches are finished in
another order; the messages are the same up to their order. -/
theorem generate_of_schedules (tree : FileTree) (root : Place) (options : Options) :
    (generate ⟨digest, schedule, parser, ignores⟩ tree root options).tree =
        (generate ⟨digest, schedule', parser, ignores⟩ tree root options).tree ∧
      (generate ⟨digest, schedule, parser, ignores⟩ tree root options).result =
        (generate ⟨digest, schedule', parser, ignores⟩ tree root options).result ∧
      (generate ⟨digest, schedule, parser, ignores⟩ tree root options).log.Perm
        (generate ⟨digest, schedule', parser, ignores⟩ tree root options).log := by
  have h := reordered_generate digest parser ignores hs hs' tree root options
  exact ⟨h.tree, h.result, h.log⟩

end Schedules

namespace Plan

/-- A project in which one source provides a name, one uses it and two fail, with a declaration file
of one that fails. -/
def unsteadyTree : FileTree :=
  smallTree [("a.lua", "---@class Item\n"), ("b.lua", typeless), ("c.lua", "---@type Item\nx = 1\n"),
    ("d.lua", typeless)] [("d.d.ts", "old\n")]

/-- Sources that are finished in their order and in the opposite one: the messages come in another
order, and everything else is the same. -/
theorem generate_of_schedules_of_reverse :
    (small.run id false unsteadyTree).result =
        .ok (small.output, ⟨["a.lua", "c.lua"], [], ["b.lua", "d.lua"], [], [], false⟩) ∧
      (small.run id false unsteadyTree).log ≠ (small.run List.reverse false unsteadyTree).log ∧
      (small.run id false unsteadyTree).tree = (small.run List.reverse false unsteadyTree).tree ∧
      (small.run id false unsteadyTree).result =
        (small.run List.reverse false unsteadyTree).result ∧
      (small.run id false unsteadyTree).log.Perm
        (small.run List.reverse false unsteadyTree).log := by
  refine ⟨eq_ok_of_toOption (by decide +kernel), by decide +kernel, ?_⟩
  exact generate_of_schedules small.digest small.parser small.ignores (fun _ => .refl _)
    List.reverse_perm unsteadyTree small.root (small.options small.output false)

end Plan

end LuaAmbient.Project
