/-
**Declaration files that a run overwrites.**

The output directory may hold anything but links, and its cache may be made up.  Of the declaration
files that a run writes, it leaves those as they are that no later file of the run replaces: a
source may have the declaration file of another one, and a source at the root may be called like the
index.

Main results:

* `LuaAmbient.Project.Plan.survives_of_run` — **after any run that returns, what was emitted for a
  source stands in its declaration file exactly if the file survives**;
* `LuaAmbient.Project.Plan.survives_of_index` — a source that is called like the index.
-/

import LuaAmbient.Proofs.Generation.Overwriting
import LuaAmbient.Proofs.Project.Imports

set_option relaxedAutoImplicit false
set_option autoImplicit false

namespace LuaAmbient.Project.Plan

open FileTree Generation Emission

variable {plan : Plan} {tree : FileTree}

/-- **After any run that returns, what was emitted for a source stands in its declaration file
exactly if the file survives**: it is not called like the index, and the last of the emitted files
of its name, in the order of their paths, has its text. -/
theorem survives_of_run {schedule : Schedule} {force : Bool} {result : Result}
    (hs : Complete schedule) (hplain : PlainAt tree plan.output plan.directory)
    (hdown : plan.Downward tree) (hn : ((plan.sources tree).map (·.1)).Nodup)
    (hr : (plan.run schedule force tree).result = .ok (plan.output, result)) :
    ∃ files, plan.emitted schedule force tree = .ok files ∧
      result.written = orderNames (files.map (·.path)) ∧
      ∀ f ∈ files, OutputStore.read? (plan.out (plan.run schedule force tree).tree)
          (SourcePath.declaration f.path) = some (.text f.text) ↔ Survives files f := by
  have hl := lists_of_run hr
  have hplain' : PlainAt (plan.out tree).tree (plan.out tree).place plan.directory := hplain
  obtain ⟨hsurvey, -⟩ := OutputDirectory.plainAt_removeOutputs "Removed "
    (survey plan.digest (plan.request force) (loadCache (plan.request force) (plan.out tree))
      (plan.sources tree) (plan.out tree)).removed hplain'
  have hsound : LawfulOutputStore.Sound (survey plan.digest (plan.request force)
      (loadCache (plan.request force) (plan.out tree)) (plan.sources tree)
      (plan.out tree)).output := ⟨plan.directory, hsurvey⟩
  rw [hl.out_run schedule force]
  exact survives_of_finish hs hsound hdown.isProper hn (((hl.run_eq schedule force).2 result).1 hr)

/-- A source at the root is called like the index: its declarations are lost to the index, those of
the other source are not. -/
theorem survives_of_index :
    let tree := smallTree [("a.lua", "---@class Item\n"), ("index.lua", "---@class Box\n")] []
    let result : Result := ⟨["a.lua", "index.lua"], [], [], [], [], true⟩
    (small.run id false tree).result = .ok (small.output, result) ∧
      (∃ files, small.emitted id false tree = .ok files ∧
        result.written = orderNames (files.map (·.path)) ∧
        ∀ f ∈ files, OutputStore.read? (small.out (small.run id false tree).tree)
            (SourcePath.declaration f.path) = some (.text f.text) ↔ Survives files f) ∧
      OutputStore.read? (small.out (small.run id false tree).tree)
          (SourcePath.declaration "index.lua") =
        some (.text "export * from \"./a\";\nexport * from \"./index\";\n") := by
  intro tree result
  have hr : (small.run id false tree).result = .ok (small.output, result) :=
    eq_ok_of_toOption (by decide +kernel)
  refine ⟨hr, survives_of_run (fun _ => .refl _) ?_ ?_ ?_ hr, by decide +kernel⟩
  · exact small_plainAt _ (by decide) (by decide)
  · decide +kernel
  · decide +kernel

end LuaAmbient.Project.Plan
