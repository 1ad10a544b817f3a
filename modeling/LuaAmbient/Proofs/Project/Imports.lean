/-
**No dangling imports, whatever has happened before.**

The output directory remembers the sources of the last run that has succeeded, while its files may
come from later runs that have not.  A run imports from what it reads and from what the directory
remembers, and it removes the declaration files of sources that have gone or fail.  After it, there is
a declaration file for everything that the written files import from.

This needs that no path of a source goes up.  A path that does may lead to a declaration file of
another source; if it fails, that file is removed as its own.

Main definitions:

* `LuaAmbient.Project.Plan.emitted` — the declaration files that a run makes.

Main results:

* `LuaAmbient.Project.Plan.linked_of_run` — **after any runs, a run that returns leaves no dangling
  import**;
* `LuaAmbient.Project.Plan.dangling_of_upward` — a source whose path goes up.
-/

import LuaAmbient.Proofs.Generation.Imports
import LuaAmbient.Proofs.Project.Accounting
import LuaAmbient.Proofs.Project.Rewriting

set_option relaxedAutoImplicit false
set_option autoImplicit false

namespace LuaAmbient.Project.Plan

open FileTree Generation Emission

variable {plan : Plan}

/-- The declaration files that a run makes of the sources that it reads. -/
def emitted (plan : Plan) (schedule : Schedule) (force : Bool) (tree : FileTree) :
    Except SourcePath.Fault (List DeclarationFile) :=
  emission schedule (plan.request force) (survey plan.digest (plan.request force)
    (loadCache (plan.request force) (plan.out tree)) (plan.sources tree) (plan.out tree))

/-- **After any runs, a run that returns leaves no dangling import.**  The earlier runs may have been
forced or not and may have ended in any way, on any sources.  What the run has written stands in the
output directory, and so does the declaration file of everything that it imports from. -/
theorem linked_of_run (hd : Function.Injective plan.digest) {earlier tree : FileTree}
    (h : plan.Runs earlier) (hf : plan.Follows earlier tree) (hdown : plan.Downward tree)
    {schedule : Schedule} {force : Bool} (hs : Complete schedule) {result : Result}
    (hn : ((plan.sources tree).map fun s => SourcePath.declaration s.1).Nodup)
    (hr : (plan.run schedule force tree).result = .ok (plan.output, result)) :
    ∃ files, plan.emitted schedule force tree = .ok files ∧
      Linked result files (plan.out (plan.run schedule force tree).tree) := by
  obtain ⟨texts, hknows⟩ := h.knows hd
  have hknows := hknows.follows hf
  have hl := lists_of_run hr
  have hrem : Remembers plan.digest (plan.request force).reader texts (plan.out tree) :=
    hknows.remembers
  obtain ⟨cache, log, hload, hc⟩ := hrem.loadCache
  have hsound : LawfulOutputStore.Sound (survey plan.digest (plan.request force) (cache, log)
      (plan.sources tree) (plan.out tree)).output :=
    sound_survey hc hrem.sound fun p hpm => proper_paths hrem hdown.isProper hpm
  have hresult := ((hl.run_eq schedule force).2 result).1 hr
  rw [(hl.framed hs hknows hdown).2, emitted, hload]
  rw [generated, Generation.generate, hload] at hresult ⊢
  exact linked_of_finish hd hs hc hsound hdown.isProper hn hresult

/-! ### Small projects -/

/-- A project in which one source refers to a name of another. -/
def heirTree : FileTree :=
  smallTree [("a.lua", "---@class Box: Item\n"), ("b.lua", "---@class Item\n")] []

/-- What a run on it records. -/
def heirCache : RunCache :=
  ⟨currentVersion, [
    ("a.lua", ⟨"---@class Box: Item\n", ["Item"], [], ["Box"], "0.3.0::a.lua",
      "0.3.0::a.lua::---@class Box: Item\n"⟩),
    ("b.lua", ⟨"---@class Item\n", [], [], ["Item"], "0.3.0::b.lua",
      "0.3.0::b.lua::---@class Item\n"⟩)]⟩

/-- The output files that it leaves. -/
def heirOutputs : List (String × String) :=
  [("a.d.ts", "import type \x7b Item \x7d from \"./b\";\n\n" ++ banner ++
      "export class Box extends Item \x7b\n\x7d\n\n"),
    ("b.d.ts", banner ++ "export class Item \x7b\n\x7d\n\n"),
    (indexName, "export * from \"./a\";\nexport * from \"./b\";\n"),
    (cacheName, heirCache.render)]

theorem heir_run : (small.run id false heirTree).result =
    .ok (small.output, ⟨["a.lua", "b.lua"], [], [], [], [], true⟩) :=
  eq_ok_of_toOption (by decide +kernel)

theorem heir_follows (sources : List (String × String)) :
    small.Follows (small.run id false heirTree).tree (smallTree sources heirOutputs) :=
  @small_follows [] sources heirOutputs _ (by decide +kernel)

/-- A run finds the cache that another one has left. -/
theorem loadCache_of_render (plan : Plan) (tree : FileTree) (cache : RunCache)
    (hn : (Keyed.keys cache.entries).Nodup) (hv : cache.version = currentVersion)
    (h : OutputStore.read? (plan.out tree) cacheName = some (.text cache.render)) :
    loadCache (plan.request false) (plan.out tree) = (cache.reloaded,
      [⟨.debug, "Loaded cache with " ++ toString cache.reloaded.entries.length ++ " entries"⟩]) := by
  have hb : (cache.reloaded.version == currentVersion) = true := beq_iff_eq.2 hv
  rw [loadCache, if_neg (by simp [request]), h, RunCache.load]
  simp only [RunCache.parse?_render hn, if_pos hb]

/-- What the next run makes if one source has a new text. -/
theorem heir_emits {sources : List (String × String)} (maps : List (String × List String))
    (hload : loadCache (small.request false) (small.out (smallTree sources heirOutputs)) =
      (heirCache.reloaded, [⟨.debug, "Loaded cache with 2 entries"⟩]))
    (h : (emission id (small.request false) (survey small.digest (small.request false)
      (heirCache.reloaded, [⟨.debug, "Loaded cache with 2 entries"⟩])
      (small.sources (smallTree sources heirOutputs))
      (small.out (smallTree sources heirOutputs)))).toOption.map
        (fun l => l.map fun f => (f.path, Keyed.keys f.importMap)) = some maps) :
    ∃ files, small.emitted id false (smallTree sources heirOutputs) = .ok files ∧
      files.map (fun f => (f.path, Keyed.keys f.importMap)) = maps := by
  rw [emitted, hload]
  exact exists_ok_of_toOption_map h

/-- One source has a new text and imports from one that is skipped, and a third one fails. -/
theorem linked_of_heir :
    let tree := smallTree [("a.lua", "---@class Crate: Item\n"), ("b.lua", "---@class Item\n"),
      ("c.lua", typeless)] heirOutputs
    ∃ files, small.emitted id false tree = .ok files ∧
      files.map (fun f => (f.path, Keyed.keys f.importMap)) = [("a.lua", ["b.lua"])] ∧
      Linked ⟨["a.lua"], ["b.lua"], ["c.lua"], [], [], false⟩ files
        (small.out (small.run id false tree).tree) := by
  intro tree
  have hl : small.Lists tree := lists_of_ok (eq_ok_of_toOption
    (a := [("a.lua", some "---@class Crate: Item\n"), ("b.lua", some "---@class Item\n"),
      ("c.lua", some typeless)]) (by decide +kernel))
  have hload := loadCache_of_render small tree heirCache (by decide) rfl (by decide +kernel)
  have hearlier : small.Runs (small.run id false heirTree).tree :=
    .run false (.start (small_starts [])) ⟨small_reaches _ _, rfl⟩ (by decide +kernel)
      fun _ => .refl _
  have hr : (small.run id false tree).result =
      .ok (small.output, ⟨["a.lua"], ["b.lua"], ["c.lua"], [], [], false⟩) :=
    result_of_load hl hload (by decide +kernel)
  obtain ⟨files, hfiles, hlinked⟩ := linked_of_run Function.injective_id hearlier (heir_follows _)
    (by decide +kernel) (fun _ => .refl _) (by decide +kernel) hr
  obtain ⟨files', hfiles', hmaps⟩ := heir_emits [("a.lua", ["b.lua"])] hload (by decide +kernel)
  obtain rfl : files' = files := Except.ok.inj (hfiles'.symm.trans hfiles)
  exact ⟨files', hfiles', hmaps, hlinked⟩

/-- The sources of the next run: one has a new text, and one is new whose path goes up and that has no
declarations. -/
def upwardHeirTree : FileTree :=
  smallTree [("a.lua", "---@class Crate: Item\n"), ("b.lua", "---@class Item\n"),
    ("..\\out\\b.lua", typeless)] heirOutputs

/-- A source whose path goes up fails, and the declaration file that is removed is that of another
source, which is skipped. -/
theorem dangling_of_upward :
    small.Starts heirTree ∧
      (small.run id false heirTree).result =
        .ok (small.output, ⟨["a.lua", "b.lua"], [], [], [], [], true⟩) ∧
      small.Follows (small.run id false heirTree).tree upwardHeirTree ∧
      ((small.sources heirTree).map fun s => SourcePath.declaration s.1).Nodup ∧
      ((small.sources upwardHeirTree).map fun s => SourcePath.declaration s.1).Nodup ∧
      (small.run id false upwardHeirTree).result =
        .ok (small.output, ⟨["a.lua"], ["b.lua"], ["..\\out\\b.lua"], [], [], false⟩) ∧
      ∃ files, small.emitted id false upwardHeirTree = .ok files ∧
        files.map (fun f => (f.path, Keyed.keys f.importMap)) = [("a.lua", ["b.lua"])] ∧
        hasOutput (small.out (small.run id false upwardHeirTree).tree) "b.lua" = false := by
  have hl : small.Lists upwardHeirTree := lists_of_ok (eq_ok_of_toOption
    (a := [("..\\out\\b.lua", some typeless), ("a.lua", some "---@class Crate: Item\n"),
      ("b.lua", some "---@class Item\n")]) (by decide +kernel))
  have hload := loadCache_of_render small upwardHeirTree heirCache (by decide) rfl
    (by decide +kernel)
  obtain ⟨files, hfiles, hmaps⟩ := heir_emits [("a.lua", ["b.lua"])] hload (by decide +kernel)
  refine ⟨small_starts _, heir_run, heir_follows _, by decide +kernel, by decide +kernel,
    result_of_load hl hload (by decide +kernel), files, hfiles, hmaps, ?_⟩
  rw [(hl.run_eq id false).1, generated, Generation.generate, hload]
  decide +kernel

end LuaAmbient.Project.Plan
