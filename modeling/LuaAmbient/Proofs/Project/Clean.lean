/-
**A run from scratch on a project.**

After a run, the sources are still the ones that it has found: it has written no source, and the
directory that it leaves out, its output, holds none.  A run into a directory that is free, which
leaves out nothing, finds the same.

Main definitions:

* `LuaAmbient.Project.Plan.Admits` — the sources of a tree, of which no two are in each other's way;
* `LuaAmbient.Project.Plan.Spare` — a free directory apart from the sources and the output.

Main results:

* `LuaAmbient.Project.Plan.sources_scratch` — the sources that a run from scratch finds;
* `LuaAmbient.Project.Plan.scratch_run` — **a run from scratch succeeds, and leaves the files that
  belong to the sources**.
-/

import LuaAmbient.Proofs.Generation.Rewriting
import LuaAmbient.Proofs.Project.Plan

set_option relaxedAutoImplicit false
set_option autoImplicit false

namespace LuaAmbient.Project

open FileTree Generation

/-! ### Sources -/

/-- The directory that is left out when sources are listed, as names from the root. -/
def leftOut (root output : Place) : Place :=
  Scan.outputPlace (Text.joinWith "/"
    (if root.isPrefixOf output then output.drop root.length else []))

theorem leftOut_of_apart {root output : Place} (h : ¬ root <+: output) :
    leftOut root output = [] := by
  rw [leftOut, if_neg (by simpa using h)]
  decide

theorem sources_eq {ignores : Scan.IgnoreReader} {tree : FileTree}
    {root output root' output' : Place} (settings : Settings)
    (hr : tree.resolve root = .ok root') (ho : tree.resolve output = .ok output') :
    sources ignores tree root settings output =
      (Scan.sources ignores (leftOut root' output') settings.nestedIgnores settings.included
        settings.excluded (tree.subtree root')).map fun found =>
          found.map fun f => (f.1, f.2.sourceText?) := by
  rw [sources, hr, ho]
  rfl

/-- Names without null characters can be resolved. -/
theorem not_mem_of_resolve {tree : FileTree} {place goal : Place}
    (h : tree.resolve place = .ok goal) : ∀ n ∈ place, '\x00' ∉ n.toList := by
  rw [resolve] at h
  split at h
  · simp at h
  · next hany => simpa using hany

theorem resolve_of_sources {ignores : Scan.IgnoreReader} {tree : FileTree} {root output : Place}
    {settings : Settings} {found : List (String × Option String)}
    (h : sources ignores tree root settings output = .ok found) :
    (∃ root', tree.resolve root = .ok root') ∧ ∃ output', tree.resolve output = .ok output' := by
  rw [sources] at h
  cases ho : tree.resolve output with
  | error cause =>
      rw [ho] at h
      cases h
  | ok output' =>
      cases hr : tree.resolve root with
      | error cause =>
          rw [ho, hr] at h
          cases h
      | ok root' => exact ⟨⟨root', rfl⟩, output', rfl⟩

namespace Plan

/-- The sources of a tree: no two export the same name, the exported names can be stored, every source
has a declaration file of its own in the output directory, and no source lies in the directory that
is left out when they are listed. -/
structure Admits (plan : Plan) (tree : FileTree) : Prop where
  root : tree.isDirectory plan.root = true
  downward : plan.Downward tree
  unique : UniqueExporters plan.reader (plan.texts tree)
  storable : StorableExports plan.reader (plan.texts tree)
  distinct : DistinctOutputs (plan.texts tree)
  outside : ∀ root, tree.reach? plan.root = some root →
    ∀ f ∈ Scan.walk [] [] (tree.subtree root).members,
      ¬ Scan.IsInside (leftOut root plan.directory) f.1

/-- A directory with nothing in it that lies neither in the root nor in the output directory. -/
structure Spare (plan : Plan) (tree : FileTree) (scratch goal : Place) : Prop where
  named : ∀ n ∈ scratch, '\x00' ∉ n.toList
  leads : tree.reach? scratch = some goal
  clear : ∀ above, above <+: goal → tree.IsFree above
  vacant : ∀ name, tree.get? (goal ++ [name]) = none
  root : ∀ root, tree.reach? plan.root = some root → ¬ root <+: goal
  output : ¬ plan.directory <+: goal

variable {plan : Plan} {tree tree' : FileTree} {scratch goal : Place}

theorem exists_root (h : tree.isDirectory plan.root = true) :
    ∃ root, tree.reach? plan.root = some root ∧ tree.isDirectoryAt root = true := by
  rw [isDirectory, find?] at h
  cases hr : tree.reach? plan.root with
  | none => simp [hr] at h
  | some root =>
      rw [hr] at h
      exact ⟨root, rfl, h⟩

/-- A run from scratch finds the sources that the last run has found. -/
theorem sources_scratch (ha : plan.Admits tree) (hl : plan.Lists tree)
    (hplain : PlainAt tree plan.output plan.directory)
    (hf : OutputDirectory.Framed plan.directory (plan.out tree) (plan.out tree'))
    (hsp : plan.Spare tree' scratch goal) :
    Project.sources plan.ignores tree' plan.root plan.settings scratch = .ok (plan.sources tree) := by
  obtain ⟨root, hroot, hdir⟩ := exists_root ha.root
  obtain ⟨⟨root', hr⟩, output', ho⟩ := resolve_of_sources hl
  have hlr := reach?_eq_some_iff.1 hroot
  have hnr := not_mem_of_resolve hr
  have hrt := resolve_eq_ok hlr hnr
  have hot := resolve_eq_ok hplain.leads (not_mem_of_resolve ho)
  have hrt' := resolve_eq_ok (hlr.of_keeps hf.keeps) hnr
  have hst' := resolve_eq_ok (reach?_eq_some_iff.1 hsp.leads) hsp.named
  have hroot' : ¬ root <+: goal := hsp.root root (reach?_of_keeps hf.keeps hroot)
  -- the last run has left out its output, this one leaves out nothing, and both make no difference
  have hold := hl
  rw [Lists, sources_eq plan.settings hrt hot,
    Scan.sources_of_outside (ha.outside root hroot)] at hold
  rw [sources_eq plan.settings hrt' hst', leftOut_of_apart hroot',
    ← (hf.scan root hdir).sources_eq]
  exact hold

/-- The output directory, in which there is something, lies apart from the free directory. -/
theorem Spare.apart (h : plan.Spare tree scratch goal) {name : String}
    (hn : (tree.get? (plan.directory ++ [name])).isSome) : ¬ goal <+: plan.directory := by
  rintro ⟨more, hmore⟩
  obtain ⟨first, rest, hrest⟩ := List.exists_cons_of_ne_nil (l := more ++ [name]) (by simp)
  rw [← hmore, List.append_assoc, hrest, List.append_cons,
    get?_append_of_eq_none (h.vacant first)] at hn
  simp at hn

theorem Spare.isVacant (h : plan.Spare tree scratch goal) :
    OutputDirectory.IsVacant ⟨tree, scratch⟩ :=
  ⟨goal, reach?_eq_some_iff.1 h.leads, h.clear, h.vacant⟩

theorem Spare.plainAt (h : plan.Spare tree scratch goal) : PlainAt tree scratch goal :=
  @OutputDirectory.plainAt_of_vacant ⟨tree, scratch⟩ goal (reach?_eq_some_iff.1 h.leads) h.clear
    h.vacant

/-- The run from scratch into a free directory. -/
def scratchRun (plan : Plan) (schedule : Schedule) (scratch : Place) (tree : FileTree) :
    Project.Outcome :=
  generate (plan.engine schedule) tree plan.root (plan.options scratch true)

section Scratch

/-- What the run from scratch does that has found the sources. -/
abbrev scratched (plan : Plan) (schedule : Schedule) (scratch : Place) (tree tree' : FileTree) :
    Generation.Outcome OutputDirectory :=
  Generation.generate plan.digest schedule (plan.request true) (plan.sources tree)
    (OutputDirectory.mk tree' scratch)

variable {schedule : Schedule}

theorem scratchRun_eq
    (h : Project.sources plan.ignores tree' plan.root plan.settings scratch = .ok (plan.sources tree)) :
    (plan.scratchRun schedule scratch tree').tree =
        (plan.scratched schedule scratch tree tree').output.tree ∧
      ∀ result, (plan.scratched schedule scratch tree tree').result = .ok result →
        (plan.scratchRun schedule scratch tree').result = .ok (scratch, result) := by
  rw [scratchRun, options, generate_of_ok (plan.engine schedule) h]
  refine ⟨rfl, ?_⟩
  intro result hresult
  dsimp only [scratched, request] at hresult ⊢
  rw [hresult]

/-- A run from scratch changes the free directory only. -/
theorem framed_scratched (hs : Complete schedule) (hdown : plan.Downward tree)
    (hsp : plan.Spare tree' scratch goal) :
    OutputDirectory.Framed goal ⟨tree', scratch⟩
      (plan.scratched schedule scratch tree tree').output := by
  have hnames : ∀ n, runNames (plan.sources tree) [] n → OutputDirectory.IsProduct n :=
    fun n hn => isProduct_of_runNames hdown.isProper (by simp) hn
  exact OutputDirectory.framed_of_steps hnames hsp.plainAt
    (generate_steps hs rfl (cacheOf_empty plan.digest plan.reader))

/-- Nothing stands in the way of the files of the sources, since they stand side by side in the output
directory. -/
theorem isSome_read?_of_freshNames {texts : List (String × String)} {out : OutputDirectory}
    (h : Settled plan.digest plan.toSetup texts out) {name : String}
    (hn : freshNames plan.symbolIndex texts name) : (OutputStore.read? out name).isSome := by
  rcases hn with rfl | ⟨hb, rfl⟩ | rfl | ⟨p, hp, rfl⟩
  · exact h.index ▸ rfl
  · exact h.symbols hb ▸ rfl
  · exact h.stored
  · exact h.outputs p hp

/-- **A run from scratch succeeds, and leaves the files that belong to the sources.** -/
theorem scratch_run (hd : Function.Injective plan.digest) (hs : Complete schedule)
    (ha : plan.Admits tree) (hl : plan.Lists tree)
    (hplain : PlainAt tree plan.output plan.directory)
    (hf : OutputDirectory.Framed plan.directory (plan.out tree) (plan.out tree'))
    (hset : Settled plan.digest plan.toSetup (plan.texts tree) (plan.out tree'))
    (hread : unreadable (plan.sources tree) = []) (hren : Renders plan.toSetup (plan.texts tree))
    (hsp : plan.Spare tree' scratch goal) :
    (∃ result, (plan.scratchRun schedule scratch tree').result = .ok (scratch, result) ∧
        result.failed = []) ∧
      OutputDirectory.Framed goal ⟨tree', scratch⟩
        ⟨(plan.scratchRun schedule scratch tree').tree, scratch⟩ ∧
      ∀ name, OutputDirectory.IsProper name → name ≠ cacheName →
        Agrees plan.toSetup (plan.texts tree)
          (OutputDirectory.mk (plan.scratchRun schedule scratch tree').tree scratch) name := by
  have hv : LawfulOutputStore.Vacant (OutputDirectory.mk tree' scratch) := hsp.isVacant
  have hproper : ∀ p ∈ Keyed.keys (plan.texts tree),
      LawfulOutputStore.Proper OutputDirectory (SourcePath.declaration p) :=
    fun p hp => ha.downward.isProper p (mem_keys_textsOf hp)
  obtain ⟨result, hres, hfail⟩ :
      ∃ result, (plan.scratched schedule scratch tree tree').result = .ok result ∧
        result.failed = [] :=
    generate_fresh hd hs hread hren ha.unique hv hproper hset.sound
      fun n hn => isSome_read?_of_freshNames hset hn
  obtain ⟨htree, hresult⟩ := @scratchRun_eq plan tree tree' scratch schedule
    (sources_scratch ha hl hplain hf hsp)
  have hframed := framed_scratched hs ha.downward hsp
  have hout : OutputDirectory.mk (plan.scratchRun schedule scratch tree').tree scratch =
      (plan.scratched schedule scratch tree tree').output := by
    rw [htree]
    exact congrArg (OutputDirectory.mk _) hframed.place.symm
  refine ⟨⟨result, hresult result hres, hfail⟩, hout ▸ hframed, ?_⟩
  intro name hn hcn
  rw [hout]
  have hu : UniqueExporters (plan.request true).reader (textsOf (plan.sources tree)) := ha.unique
  have hx : StorableExports (plan.request true).reader (textsOf (plan.sources tree)) := ha.storable
  exact read?_fresh hd hs hu hx ha.distinct hv hproper hres hfail hn hcn

end Scratch

/-! ### Small projects -/

section Small

variable {sources outputs : List (String × String)}

theorem small_root : (smallTree sources outputs).reach? small.root = some ["p"] :=
  reach?_eq_some_iff.2 (.down (by decide) (by decide)
    (by simp [smallTree, get?, members, Keyed.get?]) (.done _ _))

theorem small_isDirectory : (smallTree sources outputs).isDirectory small.root = true := by
  rw [isDirectory, find?, small_root]
  rfl

/-- The output of a small project is not in its root, and nothing is left out there. -/
theorem small_outside (root : Place) (h : (smallTree sources outputs).reach? small.root = some root) :
    ∀ f ∈ Scan.walk [] [] ((smallTree sources outputs).subtree root).members,
      ¬ Scan.IsInside (leftOut root small.directory) f.1 := by
  obtain rfl := Option.some.inj (small_root.symm.trans h)
  intro f _ hin
  exact hin.1 (leftOut_of_apart (by decide))

theorem small_admits (hdown : small.Downward (smallTree sources outputs))
    (hu : UniqueExporters small.reader (small.texts (smallTree sources outputs)))
    (hx : StorableExports small.reader (small.texts (smallTree sources outputs)))
    (hd : DistinctOutputs (small.texts (smallTree sources outputs))) :
    small.Admits (smallTree sources outputs) where
  root := small_isDirectory
  downward := hdown
  unique := hu
  storable := hx
  distinct := hd
  outside := small_outside

/-- A directory that is still to be made beside the root and the output. -/
theorem small_spare {tree : FileTree} (hr : tree.reach? small.root = some ["p"])
    (hd : tree.isDirectoryAt [] = true) (h : tree.get? ["tmp"] = none) :
    small.Spare tree ["tmp"] ["tmp"] where
  named := by decide
  leads := reach?_eq_some_iff.2 (.down (by decide) (by decide) (by simp [h]) (.done _ _))
  clear above ha := by
    rcases List.prefix_cons_iff.1 ha with rfl | ⟨rest, rfl, hrest⟩
    · exact .inr hd
    · rw [List.prefix_nil.1 hrest]
      exact .inl h
  vacant name := get?_append_of_eq_none h [name]
  root root hroot := by
    obtain rfl := Option.some.inj (hr.symm.trans hroot)
    decide
  output := by decide

end Small

end Plan

end LuaAmbient.Project
