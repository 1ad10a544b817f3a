/-
**Verification succeeds after runs that succeed.**

Main definitions:

* `LuaAmbient.Project.Plan.Steady` — a file tree after runs that have all succeeded.

Main results:

* `LuaAmbient.Project.mem_comparedFiles_iff` — the files that are compared;
* `LuaAmbient.Project.difference_isEmpty` — nothing differs if the same files are there;
* `LuaAmbient.Project.Plan.Steady.verify_isEmpty` — **after runs that have all succeeded, the output
  directory is what a run from scratch would leave**.
-/

import LuaAmbient.Proofs.Project.Recovery

set_option relaxedAutoImplicit false
set_option autoImplicit false

namespace LuaAmbient.Project

open FileTree Generation

/-! ### The comparison -/

/-- Nothing differs if the same files are there. -/
theorem difference_isEmpty {files fresh : List (String × Content)}
    (h : ∀ n, Keyed.get? files n = Keyed.get? fresh n) :
    (difference files fresh).isEmpty = true := by
  have hkeys : ∀ n, n ∈ Keyed.keys files ↔ n ∈ Keyed.keys fresh := fun n => Keyed.mem_keys_congr (h n)
  have hmismatches : (difference files fresh).mismatches = [] := by
    refine List.filter_eq_nil_iff.2 ?_
    intro n _
    rw [h]
    split <;> simp_all
  have hmissing : (difference files fresh).missing = [] := by
    refine List.filter_eq_nil_iff.2 ?_
    intro n hn
    simpa using (hkeys n).1 (mem_orderNames.1 hn)
  have hextra : (difference files fresh).extra = [] := by
    refine List.filter_eq_nil_iff.2 ?_
    intro n hn
    simpa using (hkeys n).2 (mem_orderNames.1 hn)
  simp [Difference.isEmpty, hmismatches, hmissing, hextra]

/-- What is found under a name in a list of pairs that belong together. -/
theorem get?_eq_of_mem_iff {l : List (String × Content)} {n : String} {found : Option Content}
    (h : ∀ content, (n, content) ∈ l ↔ found = some content) : Keyed.get? l n = found := by
  cases hg : Keyed.get? l n with
  | none =>
      cases found with
      | none => rfl
      | some content =>
          have hm := Keyed.mem_keys_of_mem ((h content).2 rfl)
          exact absurd hm (Keyed.get?_eq_none_iff.1 hg)
  | some content => exact ((h content).1 (Keyed.mem_of_get?_eq_some hg)).symm

/-- The names on the way to a file in a plain tree are those of its name. -/
theorem names_joinWith {rest : Place} (hne : rest ≠ []) (hn : ∀ s ∈ rest, IsMemberName s) :
    OutputDirectory.names (Text.joinWith "/" rest) = rest :=
  Text.splitString_joinWith hne fun s hs => (hn s hs).2.2.2

/-- The files that are compared are all files of the directory but the cache. -/
theorem mem_comparedFiles_iff {tree : FileTree} {place goal : Place} (h : PlainAt tree place goal)
    {n : String} {content : Content} :
    (n, content) ∈ comparedFiles tree place ↔ OutputDirectory.IsProper n ∧ n ≠ cacheName ∧
      OutputStore.read? (OutputDirectory.mk tree place) n = some content := by
  have hfind : tree.find? place = tree.get? goal := by
    simpa using h.find?_append (show ∀ n ∈ [], IsMemberName n by simp)
  cases hg : tree.get? goal with
  | none =>
      refine iff_of_false (by simp [comparedFiles, hfind, hg]) ?_
      rintro ⟨hn, -, hread⟩
      have hfile := @OutputDirectory.get?_of_read? ⟨tree, place⟩ goal h n hn content hread
      simp [get?_append_of_eq_none hg] at hfile
  | some directory =>
      have hplain : Plain directory := subtree_eq_of_get? hg ▸ h.plain
      simp only [comparedFiles, hfind, hg, List.mem_filter, List.mem_filterMap, Option.map_eq_some_iff]
      constructor
      · -- a leaf of a plain tree stands at its place, and the names of the place lead there
        rintro ⟨⟨leaf, hleaf, found, hread, he⟩, hc⟩
        obtain ⟨rfl, rfl⟩ := Prod.mk.inj he
        obtain ⟨hget, hl⟩ := (mem_leaves_iff hplain).1 hleaf
        have hne : leaf.1 ≠ [] := by
          intro hnil
          rw [hnil, get?_nil, Option.some.injEq] at hget
          rcases h.clear goal (List.prefix_refl _) with hnone | hdir
          · simp [hnone] at hg
          · obtain ⟨ms, hms⟩ := isDirectoryAt_iff.1 hdir
            obtain rfl := Option.some.inj (hg.symm.trans hms)
            exact (hget ▸ hl : IsLeaf (.directory ms)).elim
        have hmember := (hplain.get? hget).2
        have hnames := names_joinWith hne hmember
        refine ⟨?_, by simpa using hc, ?_⟩
        · rw [OutputDirectory.IsProper, hnames]
          exact hmember
        · change tree.read? (place ++ OutputDirectory.names (Text.joinWith "/" leaf.1)) = some found
          rw [hnames, hread]
      · rintro ⟨hn, hc, hread⟩
        have hfile := @OutputDirectory.get?_of_read? ⟨tree, place⟩ goal h n hn content hread
        rw [get?_append_of_eq_some hg] at hfile
        refine ⟨⟨(OutputDirectory.names n, .file content), (mem_leaves_iff hplain).2 ⟨hfile, trivial⟩,
          content, hread, ?_⟩, by simpa using hc⟩
        exact Prod.ext (Text.joinWith_splitString '/' n) rfl

theorem get?_comparedFiles {tree : FileTree} {place goal : Place} (h : PlainAt tree place goal)
    {n : String} (hn : OutputDirectory.IsProper n) (hc : n ≠ cacheName) :
    Keyed.get? (comparedFiles tree place) n =
      OutputStore.read? (OutputDirectory.mk tree place) n := by
  refine get?_eq_of_mem_iff fun content => ?_
  rw [mem_comparedFiles_iff h]
  simp [hn, hc]

theorem get?_comparedFiles_eq_none {tree : FileTree} {place goal : Place}
    (h : PlainAt tree place goal) {n : String}
    (hn : ¬ (OutputDirectory.IsProper n ∧ n ≠ cacheName)) :
    Keyed.get? (comparedFiles tree place) n = none := by
  refine get?_eq_of_mem_iff fun content => iff_of_false ?_ (by simp)
  rw [mem_comparedFiles_iff h]
  exact fun hm => hn ⟨hm.1, hm.2.1⟩

/-- Directories are alike in a comparison if all their files but the caches are the same. -/
theorem get?_comparedFiles_congr {tree : FileTree} {place goal place' goal' : Place}
    (h : PlainAt tree place goal) (h' : PlainAt tree place' goal')
    (hsame : ∀ n, OutputDirectory.IsProper n → n ≠ cacheName →
      OutputStore.read? (OutputDirectory.mk tree place) n =
        OutputStore.read? (OutputDirectory.mk tree place') n) (n : String) :
    Keyed.get? (comparedFiles tree place) n = Keyed.get? (comparedFiles tree place') n := by
  by_cases hn : OutputDirectory.IsProper n ∧ n ≠ cacheName
  · rw [get?_comparedFiles h hn.1 hn.2, get?_comparedFiles h' hn.1 hn.2, hsame n hn.1 hn.2]
  · rw [get?_comparedFiles_eq_none h hn, get?_comparedFiles_eq_none h' hn]

namespace Plan

variable {plan : Plan}

/-! ### Runs that succeed -/

/-- A file tree after runs that are not forced and have all succeeded. -/
inductive Steady (plan : Plan) : FileTree → Prop
  | first {tree : FileTree} {schedule : Schedule} {result : Result} : plan.Starts tree →
      plan.Admits tree → Complete schedule → plan.Succeeds schedule false tree result →
      Steady plan (plan.run schedule false tree).tree
  | next {tree tree' : FileTree} {schedule : Schedule} {result : Result} : Steady plan tree →
      plan.Follows tree tree' → plan.Admits tree' → Complete schedule →
      plan.Succeeds schedule false tree' result → Steady plan (plan.run schedule false tree').tree

theorem Starts.follows {tree : FileTree} (h : plan.Starts tree) : plan.Follows tree tree :=
  ⟨h.toReaches, rfl⟩

/-- No file is suspect after runs that have all succeeded. -/
theorem Steady.history {tree : FileTree} (h : plan.Steady tree) : plan.History ∅ tree := by
  induction h with
  | first hstart ha hs hr =>
      simpa using History.success (.start hstart) hstart.follows ha hs hr
  | next _ hf ha hs hr ih => simpa using History.success ih hf ha hs hr

/-- The last of runs that have all succeeded. -/
theorem Steady.last {tree : FileTree} (h : plan.Steady tree) :
    ∃ earlier before schedule result, plan.History ∅ earlier ∧ plan.Follows earlier before ∧
      plan.Admits before ∧ Complete schedule ∧ plan.Succeeds schedule false before result ∧
      tree = (plan.run schedule false before).tree := by
  cases h with
  | first hstart ha hs hr => exact ⟨_, _, _, _, .start hstart, hstart.follows, ha, hs, hr, rfl⟩
  | next h hf ha hs hr => exact ⟨_, _, _, _, h.history, hf, ha, hs, hr, rfl⟩

/-! ### Verification -/

/-- A directory apart from the output directory of a run stays as it is. -/
theorem plainAt_elsewhere {tree tree' : FileTree} {place goal other : Place} {scratch : Place}
    (h : PlainAt tree place goal) (hdir : tree.isDirectoryAt goal = true)
    (hf : OutputDirectory.Framed other ⟨tree, scratch⟩ ⟨tree', scratch⟩)
    (ho : ¬ other <+: goal) (hg : ¬ goal <+: other) :
    PlainAt tree' place goal ∧ tree'.get? goal = tree.get? goal := by
  have hsame : tree'.get? goal = tree.get? goal := hf.elsewhere goal ho hg
  refine ⟨⟨h.leads.of_keeps hf.keeps, ?_, ?_⟩, hsame⟩
  · rintro above ⟨rest, rfl⟩
    exact .inr (hf.keeps.directory above (isDirectoryAt_of_append hdir))
  · rw [subtree, hsame]
    exact h.plain

theorem names_symbolsName : OutputDirectory.names symbolsName = [symbolsName] :=
  Text.splitString_of_not_mem (by decide)

theorem names_indexName : OutputDirectory.names indexName = [indexName] :=
  Text.splitString_of_not_mem (by decide)

/-- Verification asks for the file of exported names if the runs have done so. -/
theorem isSome_read?_symbols {tree : FileTree} {texts : List (String × String)}
    (h : Agrees plan.toSetup texts (plan.out tree) symbolsName) :
    (tree.read? (plan.output ++ [symbolsName])).isSome = plan.symbolIndex := by
  have hread : tree.read? (plan.output ++ [symbolsName]) =
      (target? plan.toSetup texts symbolsName).map .text := by
    rw [← names_symbolsName]
    exact h
  rw [hread, target?, if_neg (by decide), if_pos rfl]
  cases plan.symbolIndex <;> rfl

/-- **After runs that have all succeeded, the output directory is what a run from scratch would
leave.** -/
theorem Steady.verify_isEmpty (hd : Function.Injective plan.digest) {tree : FileTree}
    (h : plan.Steady tree) {schedule : Schedule} (hs : Complete schedule) {scratch goal : Place}
    (hsp : plan.Spare tree scratch goal) :
    ∃ d, (verify (plan.engine schedule) scratch tree plan.root (some plan.settings)
      plan.output).1 = .ok d ∧ d.isEmpty = true := by
  obtain ⟨earlier, before, schedule', result, hh, hf, ha, hs', hr, rfl⟩ := h.last
  obtain ⟨texts, hst⟩ := hh.state hd
  have hst' := hst.follows hf
  have hset := hst'.settled hs' hd ha hr
  have hagrees : ∀ name, OutputDirectory.IsProper name → name ≠ cacheName →
      Agrees plan.toSetup (plan.texts before)
        (plan.out (plan.run schedule' false before).tree) name :=
    fun name hn hc => hst'.agrees_of_succeeds hs' hd ha hr hn hc (by simp)
  have hframed : OutputDirectory.Framed plan.directory (plan.out before)
      (plan.out (plan.run schedule' false before).tree) := framed_run hs' hst'.toKnows ha.downward
  obtain ⟨hread, hren⟩ := hst'.renders_of_succeeds hs' hd ha hr
  generalize (plan.run schedule' false before).tree = tree at *
  obtain ⟨⟨clean, hclean, -⟩, hfr, hfresh⟩ :=
    scratch_run hd hs ha hr.lists hst'.plain hframed hset hread hren hsp
  -- the output directory is there, and the run from scratch leaves it alone
  have hindex : tree.get? (plan.directory ++ [indexName]) =
      some (.file (.text (indexOfPaths (Keyed.keys (plan.texts before))))) := by
    rw [← names_indexName]
    exact OutputDirectory.get?_of_read? hframed.plain OutputDirectory.isProper_index hset.index
  have hsome : (tree.get? (plan.directory ++ [indexName])).isSome := hindex ▸ rfl
  have hdir := isDirectoryAt_of_isSome (List.cons_ne_nil indexName []) hsome
  have hisdir : tree.isDirectory plan.output = true := (isDirectory_eq hframed.plain.leads).trans hdir
  have hexists : tree.exists? plan.output = true := by
    obtain ⟨ms, hms⟩ := isDirectoryAt_iff.1 hdir
    rw [exists?, find?, reach?_eq_some_iff.2 hframed.plain.leads, Option.bind_some, hms]
    rfl
  obtain ⟨hplain, hsame⟩ := plainAt_elsewhere hframed.plain hdir hfr (hsp.apart hsome) hsp.output
  have hsymbols := isSome_read?_symbols (hagrees symbolsName OutputDirectory.isProper_symbols
    (by decide))
  have hrun : generate (plan.engine schedule) tree plan.root
      { settings := some plan.settings, output := some scratch, force := true,
        symbolIndex := some (tree.read? (plan.output ++ [symbolsName])).isSome } =
      plan.scratchRun schedule scratch tree := by
    rw [hsymbols]
    rfl
  rw [verify, hexists, hisdir]
  simp only [Bool.not_true, Bool.false_eq_true, if_false, hrun, hclean]
  refine ⟨_, rfl, difference_isEmpty (get?_comparedFiles_congr hplain hfr.plain fun n hn hc => ?_)⟩
  have hleft : plan.Follows tree (plan.scratchRun schedule scratch tree).tree :=
    ⟨⟨reach?_eq_some_iff.2 hplain.leads, hplain.clear⟩, hsame⟩
  rw [hfresh n hn hc, ← hagrees n hn hc]
  exact (hleft.unaltered hframed.plain).read? n hn

/-- A project without sources has been run, and then again with one source. -/
theorem verify_isEmpty_of_new :
    ∃ d, (verify (small.engine id) ["tmp"]
      (small.run id false (smallTree [("a.lua", "---@class Item\n")] smallOutputs)).tree ["p"]
      (some {}) ["out"]).1 = .ok d ∧ d.isEmpty = true := by
  have hr : small.Succeeds id false (smallTree [("a.lua", "---@class Item\n")] smallOutputs)
      ⟨["a.lua"], [], [], [], [], true⟩ := ⟨eq_ok_of_toOption (by decide +kernel), rfl⟩
  have hfirst : small.Steady (small.run id false (smallTree [] [])).tree :=
    .first (small_starts []) (small_admits (by decide +kernel) (by decide +kernel) (by decide +kernel)
      (by decide +kernel)) (fun _ => .refl _) small_succeeds
  have hnext := hfirst.next (small_outputs _) (small_admits (by decide +kernel) (by decide +kernel)
    (by decide +kernel) (by decide +kernel)) (fun _ => .refl _) hr
  exact Steady.verify_isEmpty Function.injective_id hnext (fun _ => .refl _)
    (small_spare (by decide +kernel) (by decide +kernel) (by decide +kernel))

/-- A source whose path goes up and back into the output directory has its declaration file there,
but a run from scratch into another directory does not write one. -/
theorem verify_of_upward :
    let tree := smallTree [("..\\out\\b.lua", "")] []
    small.Starts tree ∧ tree.isDirectory small.root = true ∧
      UniqueExporters small.reader (small.texts tree) ∧
      StorableExports small.reader (small.texts tree) ∧ DistinctOutputs (small.texts tree) ∧
      (∀ root, tree.reach? small.root = some root →
        ∀ f ∈ Scan.walk [] [] (tree.subtree root).members,
          ¬ Scan.IsInside (leftOut root small.directory) f.1) ∧
      small.Succeeds id false tree ⟨["..\\out\\b.lua"], [], [], [], [], true⟩ ∧
      small.Spare (small.run id false tree).tree ["tmp"] ["tmp"] ∧
      (verify (small.engine id) ["tmp"] (small.run id false tree).tree ["p"] (some {}) ["out"]).1 =
        .ok ⟨[], ["b.d.ts"], []⟩ := by
  refine ⟨small_starts _, small_isDirectory, by decide +kernel, by decide +kernel, by decide +kernel,
    small_outside, ⟨eq_ok_of_toOption (by decide +kernel), rfl⟩, ?_, ?_⟩
  · exact small_spare (by decide +kernel) (by decide +kernel) (by decide +kernel)
  · exact eq_ok_of_toOption (by decide +kernel)

end Plan

end LuaAmbient.Project
