/-
**Declaration files that outlive their sources.**

A run that succeeds removes the declaration files of the sources that it remembers and does not find
any more.  It remembers those of the last run that has succeeded, and none at all if it is forced.
So what a run has written that did not succeed is never removed, and a forced run removes nothing:
such a file stays until some source has it again.

Main definitions:

* `LuaAmbient.Project.Plan.Declares` — a declaration file, not the index, stands at a place below
  the output directory;
* `LuaAmbient.Project.Plan.Trail` — a file tree after any runs, with the sources of the last run
  that has succeeded and the declaration files that are of none of them.

Main results:

* `LuaAmbient.Generation.read?_of_succeeds_of_foreign` — what a run that succeeds does to a file
  that no source has;
* `LuaAmbient.Project.Plan.Trail.mem_stray_iff` — the stray files are those of no remembered source;
* `LuaAmbient.Project.Plan.Trail.outlives_iff` — **after a run that succeeds, the declaration files
  without a source are the stray ones, and, if the run is forced, all others that were there**.
-/

import LuaAmbient.Proofs.Project.Imports
import LuaAmbient.Proofs.Project.Verification

set_option relaxedAutoImplicit false
set_option autoImplicit false

namespace LuaAmbient.Generation

open OutputStore LawfulOutputStore

variable {σ : Type} [OutputStore σ] [LawfulOutputStore σ]

/-- A run that succeeds removes a file that no source has exactly if a source that it remembers had
it. -/
theorem read?_of_succeeds_of_foreign {digest : String → String} {schedule : Schedule}
    {request : Request} {sources : List (String × Option String)} {out : σ}
    {texts : List (String × String)} (hs : Complete schedule)
    (h : Remembers digest request.reader texts out)
    (hp : ∀ p ∈ sources.map (·.1), Proper σ (SourcePath.declaration p)) {result : Result}
    (hr : Succeeds (generate digest schedule request sources out) result) {name : String}
    (hn : Proper σ name) (hlist : ¬ listNames name) (hcache : name ≠ cacheName)
    (hforeign : ∀ p ∈ sources.map (·.1), SourcePath.declaration p ≠ name) :
    OutputStore.read? (generate digest schedule request sources out).output name =
      if ∃ p ∈ Keyed.keys (comparedTexts request texts), SourcePath.declaration p = name then none
      else OutputStore.read? out name := by
  obtain ⟨cache, log, emitted, w, -, hc, hsv, -⟩ := exists_saved hs h hp hr
  have hpaths := fun p => proper_paths (p := p) h hp
  -- after the survey, only files of sources are written
  have hlater : ¬ (laterNames (read schedule request
      (survey digest request (cache, log) sources out)) name ∨ name = cacheName) := by
    rintro ((hl | ⟨p, hpm, rfl⟩) | rfl)
    · exact hlist hl
    · exact hforeign p (mem_sources_of_read hs hpm) rfl
    · exact hcache rfl
  have hproper : ∀ n, laterNames (read schedule request
      (survey digest request (cache, log) sources out)) n ∨ n = cacheName → Proper σ n := by
    rintro n (hn | rfl)
    · exact (laterNames_proper hs hp hn).1
    · exact proper_cache
  rw [hsv.steps.read?_eq hproper (sound_survey hc h.sound hpaths) hn hlater,
    read?_survey hc h.sound hpaths hn]
  refine if_congr ⟨?_, ?_⟩ rfl rfl
  · rintro ⟨p, hpr, rfl⟩
    exact ⟨p, ((mem_removed hc).1 hpr).1, rfl⟩
  · rintro ⟨p, hpm, rfl⟩
    exact ⟨p, (mem_removed hc).2 ⟨hpm, fun hpt => hforeign p (mem_keys_textsOf hpt) rfl⟩, rfl⟩

end LuaAmbient.Generation

namespace LuaAmbient.Project.Plan

open FileTree Generation

variable {plan : Plan} {tree tree' : FileTree} {rest : Place}

/-! ### Declaration files -/

/-- The place of a declaration file in the output directory, but for the index. -/
def IsDeclarationPlace (rest : Place) : Prop :=
  rest ≠ [indexName] ∧ ∃ init last, rest = init ++ [last] ∧
    Text.endsWith last.toList SourcePath.declarationEnding.toList = true

/-- A declaration file, not the index, stands at a place below the output directory. -/
def Declares (plan : Plan) (tree : FileTree) (rest : Place) : Prop :=
  IsDeclarationPlace rest ∧ ∃ content, tree.get? (plan.directory ++ rest) = some (.file content)

/-- The place is that of the declaration file of one of the sources. -/
def IsOutputOf (paths : List String) (rest : Place) : Prop :=
  ∃ p ∈ paths, OutputDirectory.names (SourcePath.declaration p) = rest

instance (paths : List String) (rest : Place) : Decidable (IsOutputOf paths rest) :=
  inferInstanceAs (Decidable (∃ p ∈ paths, OutputDirectory.names (SourcePath.declaration p) = rest))

/-- The other files that a run writes are no declaration files. -/
theorem IsDeclarationPlace.ne_names (h : IsDeclarationPlace rest) {name : String}
    (hname : OutputDirectory.names name = rest) : ¬ listNames name ∧ name ≠ cacheName := by
  obtain ⟨hindex, init, last, hlast, hending⟩ := h
  have hplain : ∀ n, '/' ∉ n.toList →
      Text.endsWith n.toList SourcePath.declarationEnding.toList = false → name ≠ n := by
    rintro n hslash hno rfl
    rw [OutputDirectory.names, Text.splitString_of_not_mem hslash] at hname
    have hsplit : [] ++ [name] = init ++ [last] := hname.trans hlast
    rw [List.singleton_inj.1 (List.append_inj' hsplit rfl).2, hending] at hno
    cases hno
  refine ⟨?_, hplain cacheName (by decide) (by decide)⟩
  rintro (rfl | rfl)
  · rw [OutputDirectory.names, Text.splitString_of_not_mem (by decide)] at hname
    exact hindex hname.symm
  · exact hplain symbolsName (by decide) (by decide) rfl

/-- In a directory without links, the file at a place is the one of a name. -/
theorem declares_iff (h : PlainAt tree plan.output plan.directory) :
    plan.Declares tree rest ↔ IsDeclarationPlace rest ∧ ∃ name, OutputDirectory.IsProper name ∧
      OutputDirectory.names name = rest ∧ (OutputStore.read? (plan.out tree) name).isSome := by
  refine and_congr_right fun hplace => ⟨?_, ?_⟩
  · rintro ⟨content, hfile⟩
    have hne : rest ≠ [] := by
      obtain ⟨-, init, last, rfl, -⟩ := hplace
      simp
    have hbelow := (get?_subtree tree plan.directory hne).trans hfile
    have hmember := (h.plain.get? hbelow).2
    have hnames := names_joinWith hne hmember
    refine ⟨Text.joinWith "/" rest, ?_, hnames, ?_⟩
    · rw [OutputDirectory.IsProper, hnames]
      exact hmember
    · rw [@OutputDirectory.read?_eq (plan.out tree) _ h _ (by
        rw [OutputDirectory.IsProper, hnames]
        exact hmember), hnames]
      change ((tree.get? (plan.directory ++ rest)).bind content?).isSome
      rw [hfile]
      rfl
  · rintro ⟨name, hproper, rfl, hread⟩
    obtain ⟨content, hread⟩ := Option.isSome_iff_exists.1 hread
    exact ⟨content, @OutputDirectory.get?_of_read? (plan.out tree) _ h _ hproper _ hread⟩

/-- Between two runs, the declaration files stay. -/
theorem Follows.declares_iff (h : plan.Follows tree tree') :
    plan.Declares tree' rest ↔ plan.Declares tree rest := by
  rw [Declares, Declares, get?_append, get?_append, h.same]

/-! ### Runs -/

theorem isOutputOf_names_iff {paths : List String} {name : String} :
    IsOutputOf paths (OutputDirectory.names name) ↔
      ∃ p ∈ paths, SourcePath.declaration p = name :=
  exists_congr fun _ => and_congr_right fun _ => (Text.splitString_injective '/').eq_iff

/-- After a run that succeeds, there is a declaration file that no source has exactly if it was
there before, and no source that the run remembers had it or the run is forced. -/
theorem declares_of_succeeds (hd : Function.Injective plan.digest) {schedule : Schedule}
    {force : Bool} {texts : List (String × String)} (hs : Complete schedule)
    (h : plan.Knows texts tree) (hdown : plan.Downward tree) {result : Result}
    (hr : plan.Succeeds schedule force tree result)
    (hforeign : ¬ IsOutputOf ((plan.sources tree).map (·.1)) rest) :
    plan.Declares (plan.run schedule force tree).tree rest ↔
      plan.Declares tree rest ∧ (force = true ∨ ¬ IsOutputOf (Keyed.keys texts) rest) := by
  have hrem : Remembers plan.digest (plan.request force).reader texts (plan.out tree) := h.remembers
  rw [declares_iff (knows_of_succeeds hd hs h hdown hr).plain, declares_iff h.plain, and_assoc,
    (hr.lists.framed hs h hdown).2]
  refine and_congr_right fun hplace => ?_
  rw [← exists_and_right]
  refine exists_congr fun name => ?_
  rw [and_assoc, and_assoc]
  refine and_congr_right fun hproper => and_congr_right ?_
  rintro rfl
  rw [isOutputOf_names_iff] at hforeign ⊢
  obtain ⟨hlist, hcache⟩ := hplace.ne_names rfl
  rw [read?_of_succeeds_of_foreign hs hrem hdown.isProper (hr.lists.succeeds_iff.1 hr) hproper hlist
    hcache fun p hpm heq => hforeign ⟨p, hpm, heq⟩]
  cases force with
  | true => simp [comparedTexts, request]
  | false =>
      rw [comparedTexts_of_not_force rfl]
      split
      · next hgone => simp [hgone]
      · next hkept => simp [hkept]

/-! ### Histories -/

/-- A file tree after any runs, forced or not, whatever their results; the sources of the last run
that has succeeded; and the places of stray files.  A file is made a stray one by a run that does
not succeed and that makes it, though none of these sources has it, and by a forced run that
succeeds and finds it, though none of its own sources has it. -/
inductive Trail (plan : Plan) : List String → Set Place → FileTree → Prop
  | start {tree : FileTree} : plan.Starts tree → Trail plan [] ∅ tree
  | failure {paths : List String} {stray : Set Place} {tree tree' : FileTree} {schedule : Schedule}
      {force : Bool} : Trail plan paths stray tree → plan.Follows tree tree' → plan.Downward tree' →
      Complete schedule → (∀ result, ¬ plan.Succeeds schedule force tree' result) →
      Trail plan paths
        {rest | plan.Declares (plan.run schedule force tree').tree rest ∧
          (rest ∈ stray ∨ ¬ plan.Declares tree' rest ∧ ¬ IsOutputOf paths rest)}
        (plan.run schedule force tree').tree
  | success {paths : List String} {stray : Set Place} {tree tree' : FileTree} {schedule : Schedule}
      {force : Bool} {result : Result} : Trail plan paths stray tree → plan.Follows tree tree' →
      plan.Downward tree' → Complete schedule → plan.Succeeds schedule force tree' result →
      Trail plan ((plan.sources tree').map (·.1))
        {rest | (rest ∈ stray ∨ force = true ∧ plan.Declares tree' rest) ∧
          ¬ IsOutputOf ((plan.sources tree').map (·.1)) rest}
        (plan.run schedule force tree').tree

/-- A run that succeeds remembers all its sources. -/
theorem mem_texts_of_succeeds {schedule : Schedule} {force : Bool} {texts : List (String × String)}
    (hs : Complete schedule) (h : plan.Knows texts tree) (hdown : plan.Downward tree)
    {result : Result} (hr : plan.Succeeds schedule force tree result) {p : String} :
    p ∈ Keyed.keys (plan.texts tree) ↔ p ∈ (plan.sources tree).map (·.1) := by
  have hrem : Remembers plan.digest (plan.request force).reader texts (plan.out tree) := h.remembers
  obtain ⟨cache, log, emitted, w, -, -, hsv, -⟩ :=
    exists_saved hs hrem hdown.isProper (hr.lists.succeeds_iff.1 hr)
  have hread : unreadable (plan.sources tree) = [] := (read_of_failed_eq_nil hsv.failed).1
  rw [mem_paths_iff, hread]
  simp [Plan.texts]

theorem isOutputOf_congr {paths paths' : List String} (h : ∀ p, p ∈ paths ↔ p ∈ paths') :
    IsOutputOf paths rest ↔ IsOutputOf paths' rest :=
  exists_congr fun p => and_congr_left fun _ => h p

section Trail

variable {paths : List String} {stray : Set Place} (hd : Function.Injective plan.digest)
  (h : plan.Trail paths stray tree)

include hd h

/-- The output directory remembers the sources of the last run that has succeeded. -/
theorem Trail.knows : ∃ texts, plan.Knows texts tree ∧ ∀ p, p ∈ Keyed.keys texts ↔ p ∈ paths := by
  induction h with
  | start hstart => exact ⟨[], hstart.knows, fun _ => Iff.rfl⟩
  | failure _ hf hdown hs hno ih =>
      obtain ⟨texts, hk, hpaths⟩ := ih
      exact ⟨texts, knows_of_not_succeeds hs (hk.follows hf) hdown hno, hpaths⟩
  | @success _ _ _ tree' _ _ _ _ hf hdown hs hr ih =>
      obtain ⟨texts, hk, -⟩ := ih
      have hk' := hk.follows hf
      exact ⟨plan.texts tree', knows_of_succeeds hd hs hk' hdown hr,
        fun _ => mem_texts_of_succeeds hs hk' hdown hr⟩

/-- What the next run that succeeds does to a declaration file that none of its sources has. -/
theorem Trail.declares_of_succeeds (hf : plan.Follows tree tree') (hdown : plan.Downward tree')
    {schedule : Schedule} {force : Bool} (hs : Complete schedule) {result : Result}
    (hr : plan.Succeeds schedule force tree' result)
    (hforeign : ¬ IsOutputOf ((plan.sources tree').map (·.1)) rest) :
    plan.Declares (plan.run schedule force tree').tree rest ↔
      plan.Declares tree' rest ∧ (force = true ∨ ¬ IsOutputOf paths rest) := by
  obtain ⟨texts, hk, hpaths⟩ := h.knows hd
  rw [Plan.declares_of_succeeds hd hs (hk.follows hf) hdown hr hforeign, isOutputOf_congr hpaths]

/-- **The stray files are the declaration files of no remembered source.** -/
theorem Trail.mem_stray_iff : rest ∈ stray ↔ plan.Declares tree rest ∧ ¬ IsOutputOf paths rest := by
  induction h with
  | start hstart =>
      refine iff_of_false (Set.notMem_empty rest) ?_
      rintro ⟨⟨⟨-, init, last, rfl, -⟩, content, hfile⟩, -⟩
      -- nothing is in the directory
      obtain ⟨first, later, hrest⟩ :=
        List.exists_cons_of_ne_nil (show init ++ [last] ≠ [] by simp)
      rw [hrest, List.append_cons, get?_append_of_eq_none (hstart.vacant first)] at hfile
      cases hfile
  | @failure paths stray tree tree' _ _ _ hf _ _ _ ih =>
      rw [← hf.declares_iff] at ih
      rw [Set.mem_ofPred_eq, ih]
      tauto
  | @success paths stray tree tree' _ _ _ htrail hf hdown hs hr ih =>
      rw [← hf.declares_iff] at ih
      rw [Set.mem_ofPred_eq, ih]
      refine and_congr_left fun hforeign => ?_
      rw [htrail.declares_of_succeeds hd hf hdown hs hr hforeign]
      tauto

/-- **After a run that succeeds, the declaration files without a source are the stray ones, and, if
the run is forced, all others that were there.**  The earlier runs may have been forced or not and
may have ended in any way, on any sources. -/
theorem Trail.outlives_iff (hf : plan.Follows tree tree') (hdown : plan.Downward tree')
    {schedule : Schedule} {force : Bool} (hs : Complete schedule) {result : Result}
    (hr : plan.Succeeds schedule force tree' result) (rest : Place) :
    plan.Declares (plan.run schedule force tree').tree rest ∧
        ¬ IsOutputOf ((plan.sources tree').map (·.1)) rest ↔
      (rest ∈ stray ∨ force = true ∧ plan.Declares tree' rest) ∧
        ¬ IsOutputOf ((plan.sources tree').map (·.1)) rest := by
  refine and_congr_left fun hforeign => ?_
  rw [h.declares_of_succeeds hd hf hdown hs hr hforeign, h.mem_stray_iff hd, hf.declares_iff]
  tauto

end Trail

/-- One of two sources is gone, and the next run is forced: the declaration file of that source
stays, though the run succeeds. -/
theorem outlives_of_forced :
    let tree := smallTree [("b.lua", "---@class Item\n")] heirOutputs
    small.Succeeds id true tree ⟨["b.lua"], [], [], [], [], true⟩ ∧
      small.Declares (small.run id true tree).tree ["a.d.ts"] ∧
      ¬ IsOutputOf ((small.sources tree).map (·.1)) ["a.d.ts"] := by
  intro tree
  have hr : small.Succeeds id true tree ⟨["b.lua"], [], [], [], [], true⟩ :=
    ⟨eq_ok_of_toOption (by decide +kernel), rfl⟩
  have hfirst : small.Succeeds id false heirTree ⟨["a.lua", "b.lua"], [], [], [], [], true⟩ :=
    ⟨heir_run, rfl⟩
  have hfollows : small.Follows (smallTree [] []) heirTree := ⟨small_reaches _ _, rfl⟩
  have htrail := Trail.success (.start (small_starts [])) hfollows (by decide +kernel)
    (fun _ => .refl _) hfirst
  have hdeclares : small.Declares tree ["a.d.ts"] :=
    ⟨⟨by decide, [], "a.d.ts", rfl, by decide⟩, _, rfl⟩
  have hforeign : ¬ IsOutputOf ((small.sources tree).map (·.1)) ["a.d.ts"] := by
    decide +kernel
  exact ⟨hr, (htrail.outlives_iff Function.injective_id (heir_follows _) (by decide +kernel)
    (fun _ => .refl _) hr ["a.d.ts"]).2 ⟨.inr ⟨rfl, hdeclares⟩, hforeign⟩⟩

end LuaAmbient.Project.Plan
