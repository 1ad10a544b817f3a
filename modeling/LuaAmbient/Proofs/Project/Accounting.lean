/-
**Every run accounts for every source that it has found.**

The output directory may hold anything but links, and its cache may name any paths, also some that go
up and lead out of the directory.  Their declaration files are removed, wherever they stand; this
leaves the directory without links and the cache where it is.  All other steps of a run stay in the
directory if no source has a path that goes up.

Main results:

* `LuaAmbient.OutputDirectory.plainAt_removeOutputs` — the removal of any declaration files;
* `LuaAmbient.Project.Plan.accounts_of_run` — **after any run that returns, each source is written,
  skipped or failed, and the output directory tells which**;
* `LuaAmbient.Project.Plan.failed_output_remains` — this fails for sources whose paths go up, and in a
  directory with links.
-/

import LuaAmbient.Proofs.FileTree.Removal
import LuaAmbient.Proofs.Generation.Accounting
import LuaAmbient.Proofs.Project.Plan

set_option relaxedAutoImplicit false
set_option autoImplicit false

namespace LuaAmbient.OutputDirectory

open FileTree Generation

/-! ### Removals anywhere -/

theorem append_declarationEnding_ne {name other : String}
    (h : Text.endsWith other.toList SourcePath.declarationEnding.toList = false) :
    name ++ SourcePath.declarationEnding ≠ other := by
  rintro rfl
  rw [Text.endsWith, String.toList_append, Bool.eq_false_iff] at h
  exact h (List.isSuffixOf_iff_suffix.2 (List.suffix_append _ _))

/-- Where the cache stands. -/
theorem read?_cache_eq {out : OutputDirectory} {goal : Place}
    (h : PlainAt out.tree out.place goal) :
    OutputStore.read? out cacheName = (out.tree.get? (goal ++ [cacheName])).bind content? := by
  rw [read?_eq h isProper_cache, names, Text.splitString_of_not_mem (by decide)]

/-- To remove a declaration file, wherever it stands, leaves a directory without links and its
cache. -/
theorem plainAt_removeOutput {goal : Place} (message : String)
    {state : OutputDirectory × List Log.Entry} (path : String)
    (h : PlainAt state.1.tree state.1.place goal) :
    PlainAt (removeOutput message state path).1.tree (removeOutput message state path).1.place
        goal ∧
      OutputStore.read? (removeOutput message state path).1 cacheName =
        OutputStore.read? state.1 cacheName := by
  rw [removeOutput]
  split
  · next hout =>
    obtain ⟨init, last, hsplit, -⟩ := SourcePath.exists_split_declaration path
    have hplace : state.1.placeOf (SourcePath.declaration path) =
        state.1.place ++ init ++ [last ++ SourcePath.declarationEnding] := by
      rw [placeOf, hsplit, List.append_assoc]
    have hidle : isIdle (last ++ SourcePath.declarationEnding) = false := by
      rw [isIdle, Bool.or_eq_false_iff, String.isEmpty_eq_false_iff, beq_eq_false_iff_ne]
      exact ⟨append_declarationEnding_ne (by decide), append_declarationEnding_ne (by decide)⟩
    have hread : (state.1.tree.read?
        (state.1.place ++ init ++ [last ++ SourcePath.declarationEnding])).isSome := hplace ▸ hout
    obtain ⟨hplain, hcontent⟩ := h.unlink hidle (append_declarationEnding_ne (by decide)) hread
    rw [← hplace] at hplain hcontent
    refine ⟨hplain, ?_⟩
    rw [read?_cache_eq h, ← hcontent goal cacheName (append_declarationEnding_ne (by decide)).symm]
    exact @read?_cache_eq (OutputStore.remove state.1 (SourcePath.declaration path)) goal hplain
  · exact ⟨h, rfl⟩

/-- To remove declaration files, wherever they stand, leaves a directory without links and its
cache. -/
theorem plainAt_removeOutputs {goal : Place} (message : String) (paths : List String)
    {out : OutputDirectory} (h : PlainAt out.tree out.place goal) :
    PlainAt (removeOutputs message paths out).1.tree (removeOutputs message paths out).1.place
        goal ∧
      OutputStore.read? (removeOutputs message paths out).1 cacheName =
        OutputStore.read? out cacheName := by
  rw [removeOutputs]
  generalize hstate : (out, ([] : List Log.Entry)) = state
  obtain rfl : state.1 = out := hstate ▸ rfl
  clear hstate
  induction paths generalizing state with
  | nil => exact ⟨h, rfl⟩
  | cons path paths ih =>
      obtain ⟨hplain, hcache⟩ := plainAt_removeOutput message path h
      obtain ⟨hrest, hrest'⟩ := ih _ hplain
      exact ⟨hrest, hrest'.trans hcache⟩

theorem place_of_step {wanted : String → Prop} {a b : OutputDirectory} (h : Step wanted a b) :
    b.place = a.place := by
  cases h <;> rfl

/-- No step of a run changes which directory it works on. -/
theorem place_of_steps {wanted : String → Prop} {a b : OutputDirectory} (h : Steps wanted a b) :
    b.place = a.place := by
  induction h with
  | refl => rfl
  | tail _ hstep ih => exact (place_of_step hstep).trans ih

theorem place_generate (digest : String → String) (schedule : Schedule) (request : Request)
    (sources : List (String × Option String)) (out : OutputDirectory) :
    (generate digest schedule request sources out).output.place = out.place := by
  rw [generate]
  have hsurvey := place_of_steps (removeOutputs_steps "Removed "
    (survey digest request (loadCache request out) sources out).removed out)
  rcases finish_cases digest schedule request
    (survey digest request (loadCache request out) sources out) with ⟨emitted, w, hsv⟩ | ⟨-, hsteps⟩
  · exact (place_of_steps hsv.steps).trans hsurvey
  · exact (place_of_steps hsteps).trans hsurvey

end LuaAmbient.OutputDirectory

namespace LuaAmbient.Project.Plan

open FileTree Generation

variable {plan : Plan} {tree : FileTree}

/-! ### Runs that return -/

theorem lists_of_run {schedule : Schedule} {force : Bool} {result : Result}
    (h : (plan.run schedule force tree).result = .ok (plan.output, result)) : plan.Lists tree := by
  cases hsources : Project.sources plan.ignores tree plan.root plan.settings plan.output with
  | error cause =>
      rw [run_of_error hsources] at h
      exact absurd h (by simp)
  | ok found => exact lists_of_ok hsources

/-- The output directory after a run. -/
theorem Lists.out_run (h : plan.Lists tree) (schedule : Schedule) (force : Bool) :
    plan.out (plan.run schedule force tree).tree =
      (plan.generated schedule force tree).output := by
  rw [out, (h.run_eq schedule force).1]
  exact congrArg (OutputDirectory.mk _) (OutputDirectory.place_generate plan.digest schedule
    (plan.request force) (plan.sources tree) (plan.out tree)).symm

/-- **After any run that returns, each source is written, skipped or failed, and the output directory
tells which.** -/
theorem accounts_of_run {schedule : Schedule} {force : Bool} {result : Result}
    (hs : Complete schedule) (hplain : PlainAt tree plan.output plan.directory)
    (hdown : plan.Downward tree)
    (hn : ((plan.sources tree).map fun s => SourcePath.declaration s.1).Nodup)
    (hi : ∀ p ∈ (plan.sources tree).map (·.1), SourcePath.declaration p ≠ indexName)
    (hr : (plan.run schedule force tree).result = .ok (plan.output, result)) :
    Accounts ((plan.sources tree).map (·.1)) result (plan.out tree)
      (plan.out (plan.run schedule force tree).tree) := by
  have hl := lists_of_run hr
  have hout : plan.out (plan.run schedule force tree).tree =
      (plan.generated schedule force tree).output := by
    rw [out, (hl.run_eq schedule force).1]
    exact congrArg (OutputDirectory.mk _) (OutputDirectory.place_generate plan.digest schedule
      (plan.request force) (plan.sources tree) (plan.out tree)).symm
  have hplain' : PlainAt (plan.out tree).tree (plan.out tree).place plan.directory := hplain
  obtain ⟨hsurvey, hcache⟩ := OutputDirectory.plainAt_removeOutputs "Removed "
    (survey plan.digest (plan.request force) (loadCache (plan.request force) (plan.out tree))
      (plan.sources tree) (plan.out tree)).removed hplain'
  have hsound : LawfulOutputStore.Sound (survey plan.digest (plan.request force)
      (loadCache (plan.request force) (plan.out tree)) (plan.sources tree)
      (plan.out tree)).output := ⟨plan.directory, hsurvey⟩
  have haccounts := accounts_of_finish hs (nodup_keys_loadCache (plan.request force) (plan.out tree))
    hsound hdown.isProper hn hi (((hl.run_eq schedule force).2 result).1 hr)
  rw [hout]
  exact { haccounts with kept := fun hf => (haccounts.kept hf).trans hcache }

/-! ### Small projects -/

/-- The output directory of a small project has no links in it. -/
theorem small_plainAt (sources : List (String × String)) {outputs : List (String × String)}
    (hn : (Keyed.keys outputs).Nodup) (hm : ∀ o ∈ outputs, IsMemberName o.1) :
    PlainAt (smallTree sources outputs) small.output small.directory where
  leads := reach?_eq_some_iff.1 (small_reaches sources outputs).leads
  clear := (small_reaches sources outputs).clear
  plain := by
    change Plain (.directory (outputs.map fun f => (f.1, FileTree.file (.text f.2))))
    refine .directory ?_ ?_ ?_
    · rwa [Keyed.keys_map _ fun text : String => FileTree.file (.text text)]
    · intro m hmem
      obtain ⟨f, hf, rfl⟩ := List.mem_map.1 hmem
      exact hm f hf
    · intro m hmem
      obtain ⟨f, hf, rfl⟩ := List.mem_map.1 hmem
      exact .file _

/-- A source in which a field has no type. -/
def typeless : String :=
  "---@class B\n---@field id\nlocal B = \x7b\x7d\n"

/-- One source fails and one is written, next to a cache that cannot be read. -/
theorem accounts_of_typeless :
    let tree := smallTree [("a.lua", "---@class Item\n"), ("b.lua", typeless)]
      [("b.d.ts", "old\n"), (cacheName, "no cache\n")]
    let result : Result := ⟨["a.lua"], [], ["b.lua"], [], [], false⟩
    (small.run id false tree).result = .ok (small.output, result) ∧
      Accounts ["a.lua", "b.lua"] result (small.out tree)
        (small.out (small.run id false tree).tree) := by
  intro tree result
  have hpaths : (small.sources tree).map (·.1) = ["a.lua", "b.lua"] := by decide +kernel
  have hr : (small.run id false tree).result = .ok (small.output, result) :=
    eq_ok_of_toOption (by decide +kernel)
  refine ⟨hr, hpaths ▸ accounts_of_run (fun _ => .refl _) ?_ ?_ ?_ ?_ hr⟩
  · exact small_plainAt _ (by decide) (by decide)
  · decide +kernel
  · decide +kernel
  · decide +kernel

/-- A project with a failing source whose path goes up, before it has an output directory. -/
def upwardTree : FileTree :=
  .directory [("p", .directory [("..\\x.lua", .file (.text typeless))]),
    ("x.d.ts", .file (.text "old\n"))]

/-- A project with a failing source, and a link in its output directory. -/
def linkedTree : FileTree :=
  .directory [("p", .directory [("a.lua", .file (.text "---@class Item\n")),
      ("b.lua", .file (.text typeless))]),
    ("out", .directory [("a.d.ts", .link "b.d.ts")])]

/-- A source whose path goes up has its declaration file outside the output directory; before that
directory is made, no way leads there, and the file stays when the source fails.  In a directory with
links, a file that is written may turn out to be the declaration file of a source that has failed. -/
theorem failed_output_remains :
    (((small.sources upwardTree).map fun s => SourcePath.declaration s.1).Nodup ∧
        (∀ p ∈ (small.sources upwardTree).map (·.1), SourcePath.declaration p ≠ indexName) ∧
        (small.run id false upwardTree).result =
          .ok (small.output, ⟨[], [], ["..\\x.lua"], [], [], false⟩) ∧
        hasOutput (small.out (small.run id false upwardTree).tree) "..\\x.lua" = true) ∧
      ((small.sources linkedTree).map fun s => SourcePath.declaration s.1).Nodup ∧
        (∀ p ∈ (small.sources linkedTree).map (·.1), SourcePath.declaration p ≠ indexName) ∧
        (small.run id false linkedTree).result =
          .ok (small.output, ⟨["a.lua"], [], ["b.lua"], [], [], false⟩) ∧
        hasOutput (small.out (small.run id false linkedTree).tree) "b.lua" = true := by
  refine ⟨⟨?_, ?_, eq_ok_of_toOption ?_, ?_⟩, ?_, ?_, eq_ok_of_toOption ?_, ?_⟩
  all_goals decide +kernel

end LuaAmbient.Project.Plan
