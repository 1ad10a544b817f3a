/-
**What is left of failed runs.**

A run in which a source fails writes declaration files, but not the cache.  A file that it has changed
stays so until a run that succeeds writes or removes it; and that run does not know that it should if
the sources of the file are, by then, those of the last run that has succeeded.

Main definitions:

* `LuaAmbient.Project.Plan.History` — a file tree after runs that succeed or not, with the names of
  the files that only failed runs have changed since;
* `LuaAmbient.Project.Plan.State` — what is known after such runs.

Main results:

* `LuaAmbient.Project.Plan.History.recovers` — **after a run that succeeds, a run from scratch leaves
  the same files but for those that only failed runs have changed since**.
-/

import LuaAmbient.Proofs.Project.Clean

set_option relaxedAutoImplicit false
set_option autoImplicit false

namespace LuaAmbient.Project.Plan

open FileTree Generation

variable {plan : Plan}

/-- A file tree after runs that are not forced, and the names of suspect files: those that a run which
has not succeeded has changed and that no run which has succeeded has written or removed since. -/
inductive History (plan : Plan) : Set String → FileTree → Prop
  | start {tree : FileTree} : plan.Starts tree → History plan ∅ tree
  | failure {suspect : Set String} {tree tree' : FileTree} {schedule : Schedule} :
      History plan suspect tree → plan.Follows tree tree' → plan.Downward tree' →
      Complete schedule → (∀ result, ¬ plan.Succeeds schedule false tree' result) →
      History plan (suspect ∪ {name | OutputStore.read?
          (plan.out (plan.run schedule false tree').tree) name ≠
        OutputStore.read? (plan.out tree') name}) (plan.run schedule false tree').tree
  | success {suspect : Set String} {tree tree' : FileTree} {schedule : Schedule} {result : Result} :
      History plan suspect tree → plan.Follows tree tree' → plan.Admits tree' →
      Complete schedule → plan.Succeeds schedule false tree' result →
      History plan (suspect \ {name | Touched (plan.request false) result name})
        (plan.run schedule false tree').tree

/-- What is known after runs: the directory remembers sources, and every file that is not suspect
holds what belongs to them.  The index and the file of exported names are written by every run that
succeeds. -/
structure State (plan : Plan) (suspect : Set String) (texts : List (String × String))
    (tree : FileTree) : Prop extends plan.Knows texts tree where
  storable : StorableExports plan.reader texts
  distinct : DistinctOutputs texts
  renders : Renders plan.toSetup texts
  agrees : ∀ name, OutputDirectory.IsProper name → name ≠ cacheName → name ≠ indexName →
    (plan.symbolIndex = true → name ≠ symbolsName) → name ∉ suspect →
    Agrees plan.toSetup texts (plan.out tree) name

theorem Starts.state {tree : FileTree} (h : plan.Starts tree) : plan.State ∅ [] tree where
  toKnows := h.knows
  storable p n hn := by simp [exportsAt] at hn
  distinct p hp := by simp at hp
  renders p hp := by simp at hp
  agrees name hn _ hi hsym _ := by
    have hv : LawfulOutputStore.Vacant (plan.out tree) :=
      ⟨plan.directory, reach?_eq_some_iff.1 h.leads, h.clear, h.vacant⟩
    rw [Agrees, LawfulOutputStore.read?_of_vacant hv hn, target?_eq_none hi hsym (by simp)]
    rfl

variable {suspect : Set String} {texts : List (String × String)} {tree tree' : FileTree}

theorem State.follows (h : plan.State suspect texts tree) (hf : plan.Follows tree tree') :
    plan.State suspect texts tree' where
  toKnows := h.toKnows.follows hf
  storable := h.storable
  distinct := h.distinct
  renders := h.renders
  agrees name hn hc hi hsym hsus := by
    rw [Agrees, (hf.unaltered h.plain).read? name hn]
    exact h.agrees name hn hc hi hsym hsus

variable {schedule : Schedule} (hs : Complete schedule)

include hs

/-- After a run that does not succeed, what it has changed is suspect. -/
theorem State.failure (h : plan.State suspect texts tree) (hdown : plan.Downward tree)
    (hno : ∀ result, ¬ plan.Succeeds schedule false tree result) :
    plan.State (suspect ∪ {name | OutputStore.read?
        (plan.out (plan.run schedule false tree).tree) name ≠
      OutputStore.read? (plan.out tree) name}) texts (plan.run schedule false tree).tree where
  toKnows := knows_of_not_succeeds hs h.toKnows hdown hno
  storable := h.storable
  distinct := h.distinct
  renders := h.renders
  agrees name hn hc hi hsym hsus := by
    have hold : name ∉ suspect := fun hm => hsus (.inl hm)
    have hsame : OutputStore.read? (plan.out (plan.run schedule false tree).tree) name =
        OutputStore.read? (plan.out tree) name := by_contra fun hne => hsus (.inr hne)
    rw [Agrees, hsame]
    exact h.agrees name hn hc hi hsym hold

variable {result : Result} (hd : Function.Injective plan.digest)

include hd

/-- After a run that succeeds, every file is right that is not suspect or that it has touched. -/
theorem State.agrees_of_succeeds (h : plan.State suspect texts tree) (ha : plan.Admits tree)
    (hr : plan.Succeeds schedule false tree result) {name : String}
    (hn : OutputDirectory.IsProper name) (hc : name ≠ cacheName)
    (hsus : name ∉ suspect \ {name | Touched (plan.request false) result name}) :
    Agrees plan.toSetup (plan.texts tree)
      (plan.out (plan.run schedule false tree).tree) name := by
  have hrem : Remembers plan.digest (plan.request false).reader texts (plan.out tree) := h.remembers
  rw [(hr.lists.framed hs h.toKnows ha.downward).2]
  have hx : StorableExports (plan.request false).reader texts := h.storable
  have hxt : StorableExports (plan.request false).reader (textsOf (plan.sources tree)) := ha.storable
  have hu : UniqueExporters (plan.request false).reader (textsOf (plan.sources tree)) := ha.unique
  refine Generation.agrees_of_succeeds hd hs hrem ha.downward.isProper rfl hx h.distinct hxt
    ha.distinct hu (hr.lists.succeeds_iff.1 hr) hn hc fun ht => ?_
  have hi : name ≠ indexName := fun he => ht (.inl he)
  have hsym : plan.symbolIndex = true → name ≠ symbolsName :=
    fun hb he => ht (.inr (.inl ⟨hb, he⟩))
  exact h.agrees name hn hc hi hsym fun hm => hsus ⟨hm, ht⟩

theorem State.renders_of_succeeds (h : plan.State suspect texts tree) (ha : plan.Admits tree)
    (hr : plan.Succeeds schedule false tree result) :
    unreadable (plan.sources tree) = [] ∧ Renders plan.toSetup (plan.texts tree) := by
  have hrem : Remembers plan.digest (plan.request false).reader texts (plan.out tree) := h.remembers
  have hx : StorableExports (plan.request false).reader texts := h.storable
  have hu : UniqueExporters (plan.request false).reader (textsOf (plan.sources tree)) := ha.unique
  have hren : Renders (plan.request false).toSetup texts := h.renders
  obtain ⟨hread, hren'⟩ := Generation.renders_of_succeeds hd hs hrem ha.downward.isProper rfl hx hren
    hu (hr.lists.succeeds_iff.1 hr)
  exact ⟨hread, hren'⟩

theorem State.success (h : plan.State suspect texts tree) (ha : plan.Admits tree)
    (hr : plan.Succeeds schedule false tree result) :
    plan.State (suspect \ {name | Touched (plan.request false) result name}) (plan.texts tree)
      (plan.run schedule false tree).tree where
  toKnows := knows_of_succeeds hd hs h.toKnows ha.downward hr
  storable := ha.storable
  distinct := ha.distinct
  renders := (h.renders_of_succeeds hs hd ha hr).2
  agrees _ hn hc _ _ hsus := h.agrees_of_succeeds hs hd ha hr hn hc hsus

omit hs in
/-- What is known after any runs. -/
theorem History.state (h : plan.History suspect tree) : ∃ texts, plan.State suspect texts tree := by
  induction h with
  | start hstart => exact ⟨[], hstart.state⟩
  | failure _ hf hdown hs hno ih =>
      obtain ⟨texts, hst⟩ := ih
      exact ⟨texts, (hst.follows hf).failure hs hdown hno⟩
  | success _ hf ha hs hr ih =>
      obtain ⟨texts, hst⟩ := ih
      exact ⟨_, (hst.follows hf).success hs hd ha hr⟩

/-- A run that succeeds leaves what a run from scratch needs to know. -/
theorem State.settled (h : plan.State suspect texts tree) (ha : plan.Admits tree)
    (hr : plan.Succeeds schedule false tree result) :
    Settled plan.digest plan.toSetup (plan.texts tree)
      (plan.out (plan.run schedule false tree).tree) := by
  have hrem : Remembers plan.digest (plan.request false).reader texts (plan.out tree) := h.remembers
  have hxt : StorableExports (plan.request false).reader (textsOf (plan.sources tree)) := ha.storable
  rw [(hr.lists.framed hs h.toKnows ha.downward).2]
  exact .of_succeeds hd hs ha.downward.isProper (hr.lists.succeeds_iff.1 hr) hrem ha.distinct hxt

/-- A file is the same in two output directories, or in neither. -/
def SameFile (a b : OutputDirectory) (name : String) : Prop :=
  OutputStore.read? a name = OutputStore.read? b name

/-- **After a run that succeeds, a run from scratch succeeds and leaves the same files but for the
suspect ones.**  So it leaves the same files altogether exactly if the suspect ones are the same, which
the last part spells out. -/
theorem History.recovers (h : plan.History suspect tree) (hf : plan.Follows tree tree')
    (ha : plan.Admits tree') (hr : plan.Succeeds schedule false tree' result)
    {schedule' : Schedule} (hs' : Complete schedule') {scratch goal : Place}
    (hsp : plan.Spare (plan.run schedule false tree').tree scratch goal) :
    let after := plan.out (plan.run schedule false tree').tree
    let clean := plan.scratchRun schedule' scratch (plan.run schedule false tree').tree
    let left := suspect \ {name | Touched (plan.request false) result name}
    (∃ result', clean.result = .ok (scratch, result') ∧ result'.failed = []) ∧
      (∀ name, OutputDirectory.IsProper name → name ≠ cacheName → name ∉ left →
        SameFile after ⟨clean.tree, scratch⟩ name) ∧
      ((∀ name, OutputDirectory.IsProper name → name ≠ cacheName →
          SameFile after ⟨clean.tree, scratch⟩ name) ↔
        ∀ name ∈ left, OutputDirectory.IsProper name → name ≠ cacheName →
          SameFile after ⟨clean.tree, scratch⟩ name) := by
  intro after clean left
  obtain ⟨texts, hst⟩ := h.state hd
  have hst' := hst.follows hf
  obtain ⟨hread, hren⟩ := hst'.renders_of_succeeds hs hd ha hr
  obtain ⟨hresult, -, hclean⟩ := scratch_run hd hs' ha hr.lists hst'.plain
    (framed_run hs hst'.toKnows ha.downward) (hst'.settled hs hd ha hr) hread hren hsp
  -- both directories hold what belongs to the sources
  have hsame : ∀ name, OutputDirectory.IsProper name → name ≠ cacheName → name ∉ left →
      SameFile after ⟨clean.tree, scratch⟩ name := fun name hn hc hleft =>
    (hst'.agrees_of_succeeds hs hd ha hr hn hc hleft).trans (hclean name hn hc).symm
  refine ⟨hresult, hsame, fun hall name _ hn hc => hall name hn hc, fun hall name hn hc => ?_⟩
  by_cases hleft : name ∈ left
  · exact hall name hleft hn hc
  · exact hsame name hn hc hleft

omit hs hd in
/-- After its only source has failed and been mended, a project is as a run from scratch leaves it. -/
theorem recovers_of_mended :
    let tree := (small.run id false (smallTree [("a.lua", "---@class Item\n")] [(indexName, "")])).tree
    let clean := small.scratchRun id ["tmp"] tree
    ∃ result, clean.result = .ok (["tmp"], result) ∧ result.failed = [] ∧
      SameFile (small.out tree) ⟨clean.tree, ["tmp"]⟩ "a.d.ts" := by
  have hbroken : (small.run id false (smallTree [("a.lua", "---@field id\n")] [])).result =
      .ok (["out"], ⟨[], [], ["a.lua"], [], [], false⟩) := eq_ok_of_toOption (by decide +kernel)
  have hno : ∀ result, ¬ small.Succeeds id false (smallTree [("a.lua", "---@field id\n")] []) result := by
    rintro result ⟨hr, hf⟩
    obtain rfl := (Prod.mk.inj (Except.ok.inj (hbroken.symm.trans hr))).2
    exact absurd hf (by decide)
  have hr : small.Succeeds id false (smallTree [("a.lua", "---@class Item\n")] [(indexName, "")])
      ⟨["a.lua"], [], [], [], [], true⟩ := ⟨eq_ok_of_toOption (by decide +kernel), rfl⟩
  have hhistory := History.failure (.start (small_starts [("a.lua", "---@field id\n")]))
    ⟨small_reaches _ _, rfl⟩ (by decide +kernel) (fun _ => .refl _) hno
  obtain ⟨⟨result, hresult, hfailed⟩, hsame, -⟩ := History.recovers (fun _ => .refl _)
    Function.injective_id hhistory (@small_follows [] _ [(indexName, "")] _ (by decide +kernel))
    (small_admits (by decide +kernel) (by decide +kernel) (by decide +kernel) (by decide +kernel)) hr
    (fun _ => .refl _) (small_spare (by decide +kernel) (by decide +kernel) (by decide +kernel))
  have hproper : OutputDirectory.IsProper "a.d.ts" :=
    OutputDirectory.isProper_of_not_mem (by decide) (by decide)
  exact ⟨result, hresult, hfailed, hsame "a.d.ts" hproper (by decide)
    fun hleft => hleft.2 (.inr (.inr ⟨"a.lua", .inl (by decide), by decide⟩))⟩

end LuaAmbient.Project.Plan
