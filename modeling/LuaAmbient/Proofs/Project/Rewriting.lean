/-
**Which declaration files of a project a run writes.**

Main definitions:

* `LuaAmbient.Project.Plan.Runs` — a file tree after any runs of a plan;
* `LuaAmbient.Project.Displaced` — a name that a source has begun or ceased to export because the
  source is new, has a new text, or has gone.

Main results:

* `LuaAmbient.Project.Plan.rewrites_exactly` — **after any runs of which the last has succeeded, the
  next one writes the files of exactly those sources that are new, have a new text or import a name
  that has been displaced; if no source has changed, it changes nothing**.
-/

import LuaAmbient.Proofs.Generation.Rewriting
import LuaAmbient.Proofs.Project.Plan

set_option relaxedAutoImplicit false
set_option autoImplicit false

namespace LuaAmbient.Project

open FileTree Generation

/-- A name that a source has begun or ceased to export because the source has gone, is new, or has a
new text. -/
def Displaced (reader : SourceReader) (before after : List (String × String)) (name : String) :
    Prop :=
  (∃ p ∈ Keyed.keys before, p ∉ Keyed.keys after ∧ name ∈ exportsAt reader before p) ∨
    ∃ p ∈ Keyed.keys after, Keyed.get? before p ≠ Keyed.get? after p ∧
      ¬ (name ∈ exportsAt reader before p ↔ name ∈ exportsAt reader after p)

/-- The names that have moved are those that are displaced. -/
theorem moved_iff_displaced {reader : SourceReader} {before after : List (String × String)}
    {name : String} : Moved reader before after name ↔ Displaced reader before after name := by
  constructor
  · rintro ⟨p, hp⟩
    -- a source with the same text exports the same names
    by_cases hpa : p ∈ Keyed.keys after
    · refine .inr ⟨p, hpa, fun hsame => hp ?_, hp⟩
      rw [exportsAt_congr hsame]
    · rw [exportsAt_of_not_mem hpa] at hp
      have hname : name ∈ exportsAt reader before p := by simpa using hp
      obtain ⟨file, hfile, rfl, -⟩ := mem_exportsAt.1 hname
      exact .inl ⟨file.path, (mem_filesOf.1 hfile).1, hpa, hname⟩
  · rintro (⟨p, -, hpa, hname⟩ | ⟨p, -, -, hp⟩)
    · exact ⟨p, fun hiff => by simpa [exportsAt_of_not_mem hpa] using hiff.1 hname⟩
    · exact ⟨p, hp⟩

namespace Plan

variable {plan : Plan}

/-- A file tree after any runs of a plan, forced or not, whatever their results. -/
inductive Runs (plan : Plan) : FileTree → Prop
  | start {tree : FileTree} : plan.Starts tree → Runs plan tree
  | run {tree tree' : FileTree} {schedule : Schedule} (force : Bool) : Runs plan tree →
      plan.Follows tree tree' → plan.Downward tree' → Complete schedule →
      Runs plan (plan.run schedule force tree').tree

/-- After any runs, the output directory remembers some sources. -/
theorem Runs.knows (hd : Function.Injective plan.digest) {tree : FileTree} (h : plan.Runs tree) :
    ∃ texts, plan.Knows texts tree := by
  induction h with
  | start hstart => exact ⟨[], hstart.knows⟩
  | @run tree tree' schedule force _ hf hdown hs ih =>
      obtain ⟨texts, hk⟩ := ih
      have hk' := hk.follows hf
      by_cases hr : ∃ result, plan.Succeeds schedule force tree' result
      · obtain ⟨result, hr⟩ := hr
        exact ⟨plan.texts tree', knows_of_succeeds hd hs hk' hdown hr⟩
      · exact ⟨texts, knows_of_not_succeeds hs hk' hdown fun result h => hr ⟨result, h⟩⟩

/-- After any runs of which the last has succeeded, the output directory holds the files of its
sources. -/
theorem Runs.settled (hd : Function.Injective plan.digest) {earlier tree : FileTree}
    (h : plan.Runs earlier) (hf : plan.Follows earlier tree) (hdown : plan.Downward tree)
    {schedule : Schedule} {force : Bool} (hs : Complete schedule) {result : Result}
    (hr : plan.Succeeds schedule force tree result) (hdist : DistinctOutputs (plan.texts tree))
    (hx : StorableExports plan.reader (plan.texts tree)) :
    PlainAt (plan.run schedule force tree).tree plan.output plan.directory ∧
      Settled plan.digest plan.toSetup (plan.texts tree)
        (plan.out (plan.run schedule force tree).tree) := by
  obtain ⟨texts, hk⟩ := h.knows hd
  have hk' := hk.follows hf
  have hrem : Remembers plan.digest (plan.request force).reader texts (plan.out tree) := hk'.remembers
  refine ⟨(framed_run hs hk' hdown).plain, ?_⟩
  rw [(hr.lists.framed hs hk' hdown).2]
  exact .of_succeeds hd hs hdown.isProper (hr.lists.succeeds_iff.1 hr) hrem hdist hx

/-- **After any runs of which the last has succeeded, the next one writes the files of exactly those
sources that are new, have a new text or import a name that has been displaced; if no source has
changed, it changes nothing.** -/
theorem rewrites_exactly (hd : Function.Injective plan.digest) {earlier tree tree' : FileTree}
    {schedule schedule' : Schedule} {force : Bool} {result result' : Result}
    (h : plan.Runs earlier) (hf : plan.Follows earlier tree) (hdown : plan.Downward tree)
    (hs : Complete schedule) (hr : plan.Succeeds schedule force tree result)
    (hf' : plan.Follows (plan.run schedule force tree).tree tree') (hdown' : plan.Downward tree')
    (hs' : Complete schedule') (hr' : plan.Succeeds schedule' false tree' result')
    (hdist : ∀ p q, p ∈ Keyed.keys (plan.texts tree) ∨ p ∈ Keyed.keys (plan.texts tree') →
      q ∈ Keyed.keys (plan.texts tree) ∨ q ∈ Keyed.keys (plan.texts tree') →
      SourcePath.declaration p = SourcePath.declaration q → p = q)
    (hx : StorableExports plan.reader (plan.texts tree)) :
    (∀ p, p ∈ result'.written ↔ p ∈ Keyed.keys (plan.texts tree') ∧
      (Keyed.get? (plan.texts tree) p ≠ Keyed.get? (plan.texts tree') p ∨
        ∃ n ∈ recordedImports (plan.out tree') p,
          Displaced plan.reader (plan.texts tree) (plan.texts tree') n)) ∧
    (∀ p, p ∈ result'.skipped ↔
      p ∈ Keyed.keys (plan.texts tree') ∧ p ∉ result'.written) ∧
    (plan.texts tree' = plan.texts tree →
      result'.written = [] ∧ (plan.run schedule' false tree').tree = tree') := by
  obtain ⟨hplain, hsettled⟩ := h.settled hd hf hdown hs hr
    (fun p hp q hq => hdist p q (.inl hp) (.inl hq)) hx
  have hset := hsettled.unaltered (hf'.unaltered hplain)
  have hknows : plan.Knows (plan.texts tree) tree' := ⟨hf'.plainAt hplain, hset.toRemembers⟩
  have hgen := hr'.lists.succeeds_iff.1 hr'
  refine ⟨fun p => ?_, fun p => ?_, fun hsame => ?_⟩
  · simp only [← moved_iff_displaced]
    exact hset.mem_written_iff hd hs' hdown'.isProper hgen rfl hdist hx
  · exact hset.mem_skipped_iff hd hs' hdown'.isProper hgen
  · obtain ⟨hwritten, hout⟩ := hset.output_eq hd hs' hdown'.isProper hgen rfl hdist hx hsame
    refine ⟨hwritten, ?_⟩
    have htree : plan.out (plan.run schedule' false tree').tree =
        (plan.generated schedule' false tree').output := (hr'.lists.framed hs' hknows hdown').2
    rw [hout] at htree
    exact congrArg OutputDirectory.tree htree

/-- A source that is new is written. -/
theorem mem_written_of_new :
    ∃ result, "a.lua" ∈ result.written ∧
      small.Succeeds id false (smallTree [("a.lua", "---@class Item\n")] smallOutputs) result := by
  have hr : small.Succeeds id false (smallTree [("a.lua", "---@class Item\n")] smallOutputs)
      ⟨["a.lua"], [], [], [], [], true⟩ := ⟨eq_ok_of_toOption (by decide +kernel), rfl⟩
  have hbefore : small.texts (smallTree [] []) = [] := by decide +kernel
  have hafter : small.texts (smallTree [("a.lua", "---@class Item\n")] smallOutputs) =
      [("a.lua", "---@class Item\n")] := by decide +kernel
  refine ⟨_, ?_, hr⟩
  refine ((rewrites_exactly Function.injective_id (.start (small_starts [])) ⟨small_reaches [] [], rfl⟩
    (by decide +kernel) (fun _ => .refl _) small_succeeds (small_outputs _) (by decide +kernel)
    (fun _ => .refl _) hr (fun p q hp hq _ => ?_) (by decide +kernel)).1 "a.lua").2 ⟨?_, .inl ?_⟩
  · rw [hbefore, hafter] at hp hq
    simp_all [Keyed.keys]
  · rw [hafter]
    decide
  · rw [hbefore, hafter]
    decide

/-- The output files of a small project with one source, whose path goes up. -/
def upwardOutputs : List (String × String) :=
  [(indexName, "export * from \"./../b\";\n"),
    (cacheName, "\x7b\n  \"entries\": \x7b\n    \"..\\\\b.lua\": \x7b\n" ++
      "      \"content_hash\": \"\",\n      \"exports\": \"\",\n" ++
      "      \"fc_hash\": \"0.3.0::..\\\\b.lua::\",\n" ++
      "      \"fn_hash\": \"0.3.0::..\\\\b.lua\",\n      \"imports\": \"\",\n" ++
      "      \"missing_deps\": \"\"\n    \x7d\n  \x7d,\n  \"tool_version\": \"0.3.0\"\n\x7d")]

/-- What is loaded from them. -/
def upwardCache : RunCache × List Log.Entry :=
  (⟨currentVersion, [("..\\b.lua", ⟨"", [], [], [], "0.3.0::..\\b.lua", "0.3.0::..\\b.lua::"⟩)]⟩,
    [⟨.debug, "Loaded cache with 1 entries"⟩])

/-- A source whose path goes up has its declaration file outside the output directory.  If that file
is taken away, an unchanged source is written again. -/
theorem written_again_of_upward :
    let tree := smallTree [("..\\b.lua", "")] []
    let tree' := smallTree [("..\\b.lua", "")] upwardOutputs
    let result : Result := ⟨["..\\b.lua"], [], [], [], [], true⟩
    small.Starts tree ∧ small.Succeeds id false tree result ∧
      small.Follows (small.run id false tree).tree tree' ∧ small.Succeeds id false tree' result ∧
      small.texts tree' = small.texts tree ∧ DistinctOutputs (small.texts tree) ∧
      StorableExports small.reader (small.texts tree) ∧ result.written ≠ [] := by
  intro tree tree' result
  have hl : small.Lists tree' := lists_of_ok (eq_ok_of_toOption (a := [("..\\b.lua", some "")])
    (by decide +kernel))
  have hload : loadCache (small.request false) (small.out tree') = upwardCache := by decide +kernel
  refine ⟨small_starts _, ⟨eq_ok_of_toOption (by decide +kernel), rfl⟩, ?_, ?_, ?_⟩
  · exact @small_follows [] _ upwardOutputs _ (by decide +kernel)
  · exact succeeds_of_load hl hload (by decide +kernel) rfl
  · exact ⟨by decide +kernel, by decide +kernel, by decide +kernel, by decide⟩

end Plan

end LuaAmbient.Project
