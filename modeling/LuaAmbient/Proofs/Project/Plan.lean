/-
Runs on one project.

All runs of a plan have the same settings, root and output directory, and the same digests, parser and
ignore reader, of which nothing is known.  Before a run, everything in the file tree may be changed but
the output directory, and nothing else may come in the way to it.

Main definitions:

* `LuaAmbient.Project.Plan` — what all runs have in common;
* `LuaAmbient.Project.Plan.run`, `LuaAmbient.Project.Plan.Succeeds` — a run, and one in which no
  source fails;
* `LuaAmbient.Project.Plan.Starts`, `LuaAmbient.Project.Plan.Follows` — an output directory with
  nothing in it, and one that nobody has changed;
* `LuaAmbient.Project.Plan.Downward` — no path of a source goes up;
* `LuaAmbient.Project.Plan.Knows` — what is known of the output directory;
* `LuaAmbient.Project.Plan.small`, `LuaAmbient.Project.Plan.smallTree` — a plan and trees that are
  small enough to be run here.

Main results:

* `LuaAmbient.Project.Plan.framed_run` — a run leaves everything else alone;
* `LuaAmbient.Project.Plan.knows_of_succeeds`, `LuaAmbient.Project.Plan.knows_of_not_succeeds` —
  **after any run, the output directory remembers the sources of the last one that has succeeded**.
-/

import LuaAmbient.Lua.Parser
import LuaAmbient.Proofs.Generation.History
import LuaAmbient.Proofs.Project.Frame
import LuaAmbient.Scan.Ignore

set_option relaxedAutoImplicit false
set_option autoImplicit false

namespace LuaAmbient.Project

open FileTree Generation

/-! ### Runs with all options -/

section Generate

variable (engine : Engine) {tree : FileTree} {root output : Place} {settings : Settings}
  {force symbolIndex : Bool}

/-- A run whose sources cannot be listed. -/
theorem generate_of_error {cause : Breakdown}
    (h : Project.sources engine.ignores tree root settings output = .error cause) :
    generate engine tree root ⟨some settings, some output, force, some symbolIndex⟩ =
      ⟨tree, [], .error (.breakdown cause)⟩ := by
  simp only [generate, prepare, h, Except.mapError, bind, Except.bind, pure, Except.pure]

/-- A run whose sources are listed. -/
theorem generate_of_ok {found : List (String × Option String)}
    (h : Project.sources engine.ignores tree root settings output = .ok found) :
    generate engine tree root ⟨some settings, some output, force, some symbolIndex⟩ =
      let run := Generation.generate engine.digest engine.schedule
        ⟨⟨engine.parser, settings, symbolIndex⟩, force⟩ found (OutputDirectory.mk tree output)
      ⟨run.output.tree, run.log, match run.result with
        | .ok result => .ok (output, result)
        | .error fault => .error (.path fault)⟩ := by
  unfold generate
  dsimp only
  split
  · next hprepared =>
    simp [prepare, h, Except.mapError, bind, Except.bind, pure, Except.pure] at hprepared
  · next hprepared =>
    simp only [prepare, h, Except.mapError, bind, Except.bind, pure, Except.pure, Except.ok.injEq,
      Prod.mk.injEq] at hprepared
    obtain ⟨rfl, rfl, rfl⟩ := hprepared
    rfl

end Generate

/-- What all runs on a project have in common. -/
structure Plan extends Setup where
  digest : String → String
  ignores : Scan.IgnoreReader
  root : Place
  output : Place
  /-- The place that the way to the output leads to. -/
  directory : Place

namespace Plan

/-- What a run is asked to do. -/
def request (plan : Plan) (force : Bool) : Request :=
  ⟨plan.toSetup, force⟩

/-- What a run into a directory is asked to do. -/
def options (plan : Plan) (output : Place) (force : Bool) : Options :=
  ⟨some plan.settings, some output, force, some plan.symbolIndex⟩

/-- What a run relies on. -/
abbrev engine (plan : Plan) (schedule : Schedule) : Engine :=
  ⟨plan.digest, schedule, plan.parser, plan.ignores⟩

/-- A run of the plan, of which the batches are scheduled in some way. -/
def run (plan : Plan) (schedule : Schedule) (force : Bool) (tree : FileTree) : Project.Outcome :=
  generate (plan.engine schedule) tree plan.root (plan.options plan.output force)

/-- The sources of a run; none if they cannot be listed. -/
def sources (plan : Plan) (tree : FileTree) : List (String × Option String) :=
  (Project.sources plan.ignores tree plan.root plan.settings plan.output).toOption.getD []

/-- The sources of a run with their texts. -/
def texts (plan : Plan) (tree : FileTree) : List (String × String) :=
  textsOf (plan.sources tree)

/-- A run that comes to its end without a failed source. -/
def Succeeds (plan : Plan) (schedule : Schedule) (force : Bool) (tree : FileTree)
    (result : Result) : Prop :=
  (plan.run schedule force tree).result = .ok (plan.output, result) ∧ result.failed = []

/-- The output directory in a tree. -/
abbrev out (plan : Plan) (tree : FileTree) : OutputDirectory :=
  ⟨tree, plan.output⟩

/-- The way to the output leads to its directory, and nothing but directories is on it. -/
structure Reaches (plan : Plan) (tree : FileTree) : Prop where
  leads : tree.reach? plan.output = some plan.directory
  clear : ∀ above, above <+: plan.directory → tree.IsFree above

/-- There is nothing in the output directory, which may have to be made. -/
structure Starts (plan : Plan) (tree : FileTree) : Prop extends plan.Reaches tree where
  vacant : ∀ name, tree.get? (plan.directory ++ [name]) = none

/-- Nobody has changed the output directory in between. -/
structure Follows (plan : Plan) (tree tree' : FileTree) : Prop extends plan.Reaches tree' where
  same : tree'.get? plan.directory = tree.get? plan.directory

/-- No path of a source goes up. -/
def Downward (plan : Plan) (tree : FileTree) : Prop :=
  ∀ p ∈ (plan.sources tree).map (·.1), ".." ∉ SourcePath.segments p

instance (plan : Plan) (tree : FileTree) : Decidable (plan.Downward tree) :=
  inferInstanceAs (Decidable (∀ p ∈ (plan.sources tree).map (·.1), ".." ∉ SourcePath.segments p))

/-! ### Names of output files -/

theorem isSilent_append_declarationEnding (name : String) :
    Scan.IsSilent (name ++ SourcePath.declarationEnding) := by
  have hlast : (name ++ SourcePath.declarationEnding).toList.getLast? = some 's' := by
    rw [String.toList_append, List.getLast?_append]
    rfl
  constructor
  · rw [Scan.isSourceName, Text.endsWith, Bool.eq_false_iff]
    intro hs
    obtain ⟨init, hinit⟩ := List.isSuffixOf_iff_suffix.1 hs
    rw [← hinit, List.getLast?_append] at hlast
    exact absurd (show some 'a' = some 's' from hlast) (by decide)
  · intro he
    rw [he] at hlast
    exact absurd hlast (by decide)

/-- The declaration file of a source whose path does not go up. -/
theorem isProduct_declaration {path : String}
    (h : OutputDirectory.IsProper (SourcePath.declaration path)) :
    OutputDirectory.IsProduct (SourcePath.declaration path) where
  proper := h
  silent init last he := by
    obtain ⟨init', last', hsplit, -⟩ := SourcePath.exists_split_declaration path
    obtain ⟨-, hlast⟩ := List.append_inj' (he.symm.trans hsplit) rfl
    rw [List.singleton_inj.1 hlast]
    exact isSilent_append_declarationEnding last'

theorem isProduct_of_not_mem {name : String} (h : '/' ∉ name.toList) (hn : IsMemberName name)
    (hs : Scan.IsSilent name) : OutputDirectory.IsProduct name where
  proper := OutputDirectory.isProper_of_not_mem h hn
  silent init last he := by
    rw [OutputDirectory.names, Text.splitString_of_not_mem h] at he
    obtain ⟨-, hlast⟩ := List.append_inj' (show [] ++ [name] = init ++ [last] from he) rfl
    rw [← List.singleton_inj.1 hlast]
    exact hs

theorem isProduct_of_runNames {sources : List (String × Option String)}
    {texts : List (String × String)}
    (hs : ∀ p ∈ sources.map (·.1), OutputDirectory.IsProper (SourcePath.declaration p))
    (ht : ∀ p ∈ Keyed.keys texts, OutputDirectory.IsProper (SourcePath.declaration p))
    {name : String} (hn : runNames sources texts name) : OutputDirectory.IsProduct name := by
  rcases hn with rfl | rfl | rfl | ⟨p, hp | hp, rfl⟩
  · exact isProduct_of_not_mem (by decide) (by decide) ⟨by decide, by decide⟩
  · exact isProduct_of_not_mem (by decide) (by decide) ⟨by decide, by decide⟩
  · exact isProduct_of_not_mem (by decide) (by decide) ⟨by decide, by decide⟩
  · exact isProduct_declaration (hs p hp)
  · exact isProduct_declaration (ht p hp)

/-! ### The output directory -/

variable {plan : Plan} {tree tree' : FileTree}

theorem Starts.plainAt (h : plan.Starts tree) : PlainAt tree plan.output plan.directory :=
  @OutputDirectory.plainAt_of_vacant (plan.out tree) plan.directory
    (reach?_eq_some_iff.1 h.leads) h.clear h.vacant

theorem Follows.plainAt (h : plan.Follows tree tree')
    (hp : PlainAt tree plan.output plan.directory) :
    PlainAt tree' plan.output plan.directory where
  leads := reach?_eq_some_iff.1 h.leads
  clear := h.clear
  plain := by
    rw [subtree, h.same]
    exact hp.plain

/-- What is in the directory can be read as before. -/
theorem Follows.unaltered (h : plan.Follows tree tree')
    (hp : PlainAt tree plan.output plan.directory) :
    Unaltered (plan.out tree) (plan.out tree') where
  sound _ := ⟨plan.directory, h.plainAt hp⟩
  read? name hn := by
    rw [@OutputDirectory.read?_eq (plan.out tree') _ (h.plainAt hp) name hn,
      @OutputDirectory.read?_eq (plan.out tree) _ hp name hn]
    change (tree'.get? _).bind _ = (tree.get? _).bind _
    rw [get?_append, get?_append, h.same]

/-! ### A run -/

/-- A run whose sources cannot be listed changes nothing. -/
theorem run_of_error {schedule : Schedule} {force : Bool} {cause : Breakdown}
    (h : Project.sources plan.ignores tree plan.root plan.settings plan.output = .error cause) :
    plan.run schedule force tree = ⟨tree, [], .error (.breakdown cause)⟩ := by
  rw [run, options, generate_of_error (plan.engine schedule) h]

/-- The sources of a run are listed. -/
def Lists (plan : Plan) (tree : FileTree) : Prop :=
  Project.sources plan.ignores tree plan.root plan.settings plan.output = .ok (plan.sources tree)

theorem lists_of_ok {found : List (String × Option String)}
    (h : Project.sources plan.ignores tree plan.root plan.settings plan.output = .ok found) :
    plan.Lists tree := by
  rw [Lists, sources, h]
  rfl

/-- What a run does that has listed its sources. -/
abbrev generated (plan : Plan) (schedule : Schedule) (force : Bool) (tree : FileTree) :
    Generation.Outcome OutputDirectory :=
  Generation.generate plan.digest schedule (plan.request force) (plan.sources tree) (plan.out tree)

theorem Lists.run_eq (h : plan.Lists tree) (schedule : Schedule) (force : Bool) :
    (plan.run schedule force tree).tree = (plan.generated schedule force tree).output.tree ∧
      ∀ result, (plan.run schedule force tree).result = .ok (plan.output, result) ↔
        (plan.generated schedule force tree).result = .ok result := by
  rw [run, options, generate_of_ok (plan.engine schedule) h]
  refine ⟨rfl, fun result => ?_⟩
  dsimp only [generated, request]
  split
  · next hr => simp [hr]
  · next hr => simp [hr]

theorem Succeeds.lists {schedule : Schedule} {force : Bool} {result : Result}
    (h : plan.Succeeds schedule force tree result) : plan.Lists tree := by
  cases hsources : Project.sources plan.ignores tree plan.root plan.settings plan.output with
  | error cause =>
      rw [Succeeds, run_of_error hsources] at h
      exact absurd h.1 (by simp)
  | ok found => exact lists_of_ok hsources

theorem Lists.succeeds_iff (h : plan.Lists tree) {schedule : Schedule} {force : Bool}
    {result : Result} : plan.Succeeds schedule force tree result ↔
      Generation.Succeeds (plan.generated schedule force tree) result :=
  and_congr_left fun _ => (h.run_eq schedule force).2 result

/-! ### What a run leaves -/

theorem Downward.isProper (h : plan.Downward tree) :
    ∀ p ∈ (plan.sources tree).map (·.1), OutputDirectory.IsProper (SourcePath.declaration p) :=
  fun p hp => SourcePath.isMemberName_of_mem_declaration (h p hp)

/-- **What the plan knows of an output directory**: it is a directory without links, and it remembers
given sources. -/
structure Knows (plan : Plan) (texts : List (String × String)) (tree : FileTree) : Prop where
  plain : PlainAt tree plan.output plan.directory
  remembers : Remembers plan.digest plan.reader texts (plan.out tree)

theorem Starts.knows (h : plan.Starts tree) : plan.Knows [] tree where
  plain := h.plainAt
  remembers := {
    sound := ⟨plan.directory, h.plainAt⟩
    increasing := List.Pairwise.nil
    proper := by simp
    cache := .inl ⟨rfl, LawfulOutputStore.read?_of_vacant
      (show LawfulOutputStore.Vacant (plan.out tree) from
        ⟨plan.directory, reach?_eq_some_iff.1 h.leads, h.clear, h.vacant⟩)
      LawfulOutputStore.proper_cache⟩ }

variable {texts : List (String × String)}

theorem Knows.follows (h : plan.Knows texts tree) (hf : plan.Follows tree tree') :
    plan.Knows texts tree' where
  plain := hf.plainAt h.plain
  remembers := h.remembers.unaltered (hf.unaltered h.plain)

section Run

variable {schedule : Schedule} {force : Bool} (hd : Function.Injective plan.digest)
  (hs : Complete schedule) (h : plan.Knows texts tree) (hdown : plan.Downward tree)

include hs h hdown

theorem Lists.framed (hl : plan.Lists tree) :
    OutputDirectory.Framed plan.directory (plan.out tree)
        (plan.generated schedule force tree).output ∧
      plan.out (plan.run schedule force tree).tree =
        (plan.generated schedule force tree).output := by
  have hrem : Remembers plan.digest (plan.request force).reader texts (plan.out tree) := h.remembers
  obtain ⟨cache, log, hload, hc⟩ := hrem.loadCache
  have hnames : ∀ n, runNames (plan.sources tree) (comparedTexts (plan.request force) texts) n →
      OutputDirectory.IsProduct n := by
    refine fun n hn => isProduct_of_runNames hdown.isProper (fun p hp => ?_) hn
    exact proper_paths hrem hdown.isProper (.inr hp)
  have hframed := OutputDirectory.framed_of_steps hnames h.plain (generate_steps hs hload hc)
  refine ⟨hframed, ?_⟩
  rw [(hl.run_eq schedule force).1]
  exact congrArg (OutputDirectory.mk _) hframed.place.symm

/-- A run leaves everything else alone. -/
theorem framed_run :
    OutputDirectory.Framed plan.directory (plan.out tree)
      (plan.out (plan.run schedule force tree).tree) := by
  cases hsources : Project.sources plan.ignores tree plan.root plan.settings plan.output with
  | error cause =>
      rw [run_of_error hsources]
      exact .refl h.plain
  | ok found =>
      obtain ⟨hframed, hout⟩ := (lists_of_ok hsources).framed hs h hdown
      rwa [hout]

include hd in
/-- After a run that succeeds, the directory remembers its sources. -/
theorem knows_of_succeeds {result : Result} (hr : plan.Succeeds schedule force tree result) :
    plan.Knows (plan.texts tree) (plan.run schedule force tree).tree where
  plain := (framed_run hs h hdown).plain
  remembers := by
    have hrem : Remembers plan.digest (plan.request force).reader texts (plan.out tree) := h.remembers
    rw [(hr.lists.framed hs h hdown).2]
    exact hrem.of_succeeds hd hs hdown.isProper (hr.lists.succeeds_iff.1 hr)

/-- After a run that does not succeed, the directory remembers what it has remembered before. -/
theorem knows_of_not_succeeds (hno : ∀ result, ¬ plan.Succeeds schedule force tree result) :
    plan.Knows texts (plan.run schedule force tree).tree where
  plain := (framed_run hs h hdown).plain
  remembers := by
    have hrem : Remembers plan.digest (plan.request force).reader texts (plan.out tree) := h.remembers
    cases hsources : Project.sources plan.ignores tree plan.root plan.settings plan.output with
    | error cause =>
        rw [run_of_error hsources]
        exact h.remembers
    | ok found =>
        have hl := lists_of_ok hsources
        rw [(hl.framed hs h hdown).2]
        exact hrem.of_not_succeeds hs hdown.isProper fun result hr =>
          hno result (hl.succeeds_iff.2 hr)

end Run

/-! ### Small projects -/

/-- A plan whose digests are the texts themselves. -/
def small : Plan :=
  ⟨⟨Lua.parse, {}, false⟩, id, IgnoreRule.readTest, ["p"], ["out"], ["out"]⟩

/-- A tree with the given sources and output files. -/
def smallTree (sources outputs : List (String × String)) : FileTree :=
  let files := List.map fun f : String × String => (f.1, FileTree.file (.text f.2))
  .directory [("p", .directory (files sources)), ("out", .directory (files outputs))]

theorem small_reaches (sources outputs : List (String × String)) :
    small.Reaches (smallTree sources outputs) where
  leads := reach?_eq_some_iff.2 (.down (by decide) (by decide)
    (by simp [smallTree, get?, members, Keyed.get?]) (.done _ _))
  clear above h := by
    rw [small, List.prefix_cons_iff] at h
    rcases h with rfl | ⟨rest, rfl, h⟩
    · exact .inr rfl
    · rw [List.prefix_nil.1 h]
      exact .inr rfl

theorem small_starts (sources : List (String × String)) : small.Starts (smallTree sources []) where
  toReaches := small_reaches sources []
  vacant _ := rfl

/-- The next sources, with the output files that are there. -/
theorem small_follows {sources sources' outputs : List (String × String)} {tree : FileTree}
    (h : tree.get? ["out"] = (smallTree sources outputs).get? ["out"]) :
    small.Follows tree (smallTree sources' outputs) where
  toReaches := small_reaches sources' outputs
  same := h.symm

/-- The output files of a small project without sources. -/
def smallOutputs : List (String × String) :=
  [(indexName, ""),
    (cacheName, "\x7b\n  \"entries\": \x7b\x7d,\n  \"tool_version\": \"0.3.0\"\n\x7d")]

theorem small_succeeds : small.Succeeds id false (smallTree [] []) ⟨[], [], [], [], [], true⟩ :=
  ⟨eq_ok_of_toOption (by decide +kernel), rfl⟩

theorem small_outputs (sources : List (String × String)) :
    small.Follows (small.run id false (smallTree [] [])).tree (smallTree sources smallOutputs) :=
  @small_follows [] sources smallOutputs _ (by decide +kernel)

/-- A run whose sources and cache are known. -/
theorem result_of_load {plan : Plan} {tree : FileTree} {schedule : Schedule} {force : Bool}
    {loaded : RunCache × List Log.Entry} {result : Result} (hl : plan.Lists tree)
    (hload : loadCache (plan.request force) (plan.out tree) = loaded)
    (hr : (finish plan.digest schedule (plan.request force) (survey plan.digest
      (plan.request force) loaded (plan.sources tree) (plan.out tree))).result.toOption =
        some result) : (plan.run schedule force tree).result = .ok (plan.output, result) := by
  rw [(hl.run_eq schedule force).2, generated, Generation.generate, hload]
  exact eq_ok_of_toOption hr

theorem succeeds_of_load {plan : Plan} {tree : FileTree} {schedule : Schedule} {force : Bool}
    {loaded : RunCache × List Log.Entry} {result : Result} (hl : plan.Lists tree)
    (hload : loadCache (plan.request force) (plan.out tree) = loaded)
    (hr : (finish plan.digest schedule (plan.request force) (survey plan.digest
      (plan.request force) loaded (plan.sources tree) (plan.out tree))).result.toOption =
        some result) (hf : result.failed = []) : plan.Succeeds schedule force tree result :=
  ⟨result_of_load hl hload hr, hf⟩

end Plan

end LuaAmbient.Project
