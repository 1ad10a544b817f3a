/-
Declaration files resolved against the files of a run and against records.

A run resolves the names of the files that it reads against those files and against what earlier runs
have recorded of the others.  What it writes for a file depends on the owners of the names that the
file refers to and on nothing else, so the question whether records are as good as the files
themselves is a question about owners.  The answer is: for every name that no recorded file of a
greater path disputes with the files of the run.

Main definitions:

* `LuaAmbient.Emission.fileOf?` — the declaration file of a path;
* `LuaAmbient.Emission.Undisputed` — no skipped file stands behind the exporters of a name among the
  files of the run.

Main results:

* `LuaAmbient.Emission.complete_congr`, `LuaAmbient.Emission.owner?_eq_of_complete_eq` — a declaration
  file tells the owners of the names that its source refers to, and depends on nothing else of the
  index;
* `LuaAmbient.Emission.produce_eq_ok_iff` — the files that a run produces, one by one;
* `LuaAmbient.Emission.owner?_split_eq_iff` — the owner of a name is the same exactly if the name is
  undisputed;
* `LuaAmbient.Emission.produce_split` — **records are as good as files exactly for undisputed names**.
-/

import LuaAmbient.Proofs.Emission.Owners
import LuaAmbient.Proofs.Except

set_option relaxedAutoImplicit false
set_option autoImplicit false

namespace LuaAmbient.Emission

/-! ### One file -/

theorem importMap_congr {i j : Exporters} {foreign : List String}
    (h : ∀ n ∈ foreign, i.owner? n = j.owner? n) : importMap i foreign = importMap j foreign := by
  have ho : foreign.filterMap i.owner? = foreign.filterMap j.owner? := List.filterMap_congr h
  rw [importMap, importMap, ho]
  refine List.map_congr_left ?_
  intro owner _
  rw [List.filter_congr fun n hn => by rw [h n hn]]

theorem missingNames_congr {i j : Exporters} {foreign : List String}
    (h : ∀ n ∈ foreign, i.owner? n = j.owner? n) :
    missingNames i foreign = missingNames j foreign :=
  List.filter_congr fun n hn => by rw [h n hn]

/-- Of the index of exporters, a declaration file depends only on the owners of the names that its
source refers to. -/
theorem complete_congr (configured : List (String × String)) {i j : Exporters} (draft : Draft)
    (h : ∀ n ∈ draft.foreign, i.owner? n = j.owner? n) :
    complete configured i draft = complete configured j draft := by
  rw [complete, complete, importMap_congr h, missingNames_congr h]

theorem complete_eq_ok_iff {configured : List (String × String)} {index : Exporters} {draft : Draft}
    {file : DeclarationFile} :
    complete configured index draft = .ok file ↔
      ∃ head, importText draft.path (importMap index draft.foreign) = .ok head ∧
        file = {
          path := draft.path
          text := head ++ banner ++ draft.body ++
            stubText configured (missingNames index draft.foreign)
          exports := draft.exported
          imports := draft.foreign
          missing := missingNames index draft.foreign
          importMap := importMap index draft.foreign } := by
  rw [complete]
  cases hh : importText draft.path (importMap index draft.foreign) with
  | error fault => simp [bind, Except.bind]
  | ok head => simp [bind, Except.bind, pure, Except.pure, eq_comm]

/-- The names below an owner in the map of imports are the names that it owns. -/
theorem mem_importMap {index : Exporters} {foreign names : List String} {owner name : String}
    (h : (owner, names) ∈ importMap index foreign) :
    name ∈ names ↔ name ∈ foreign ∧ index.owner? name = some owner := by
  obtain ⟨o, _, ho⟩ := List.mem_map.1 h
  obtain ⟨rfl, rfl⟩ := Prod.mk.inj ho
  simp

theorem exists_mem_importMap {index : Exporters} {foreign : List String} {owner name : String}
    (hn : name ∈ foreign) (ho : index.owner? name = some owner) :
    ∃ names, (owner, names) ∈ importMap index foreign ∧ name ∈ names := by
  refine ⟨foreign.filter fun n => index.owner? n == some owner, ?_, by simp [hn, ho]⟩
  exact List.mem_map.2 ⟨owner, by simpa using ⟨name, hn, ho⟩, rfl⟩

/-- A declaration file tells the owners of the names that its source refers to. -/
theorem owner?_eq_of_complete_eq {configured : List (String × String)} {i j : Exporters}
    {draft : Draft} {file : DeclarationFile} (hi : complete configured i draft = .ok file)
    (hj : complete configured j draft = .ok file) :
    ∀ n ∈ draft.foreign, i.owner? n = j.owner? n := by
  intro n hn
  obtain ⟨_, _, rfl⟩ := complete_eq_ok_iff.1 hi
  obtain ⟨_, _, hf⟩ := complete_eq_ok_iff.1 hj
  have hmap : importMap i draft.foreign = importMap j draft.foreign :=
    congrArg DeclarationFile.importMap hf
  refine Option.ext fun owner => ⟨fun ho => ?_, fun ho => ?_⟩
  · obtain ⟨names, hm, hnm⟩ := exists_mem_importMap hn ho
    exact ((mem_importMap (hmap ▸ hm)).1 hnm).2
  · obtain ⟨names, hm, hnm⟩ := exists_mem_importMap hn ho
    exact ((mem_importMap (hmap.symm ▸ hm)).1 hnm).2

/-! ### Several files -/

theorem exists_importLine_eq_ok {path owner : String} {names : List String}
    (h : SourcePath.specifier owner ≠ "") : ∃ line, importLine path owner names = .ok line := by
  have he : (SourcePath.specifier owner).isEmpty = false := by
    simpa [String.isEmpty_iff] using h
  rw [importLine, SourcePath.importPath]
  simp only [he]
  exact ⟨_, rfl⟩

/-- A declaration file can be made if all files that it imports from can be named. -/
theorem exists_complete_eq_ok {configured : List (String × String)} {index : Exporters}
    {draft : Draft} (h : ∀ n ∈ draft.foreign, ∀ owner, index.owner? n = some owner →
      SourcePath.specifier owner ≠ "") :
    ∃ file, complete configured index draft = .ok file := by
  have hl : ∃ lines, ((importMap index draft.foreign).mapM fun e =>
      importLine draft.path e.1 e.2) = .ok lines := by
    refine exists_mapM_eq_ok fun e he => exists_importLine_eq_ok ?_
    obtain ⟨owner, ho, rfl⟩ := List.mem_map.1 he
    obtain ⟨n, hn, hno⟩ := List.mem_filterMap.1 (mem_sortNames.1 ho)
    exact h n hn owner hno
  obtain ⟨lines, hlines⟩ := hl
  have ht : importText draft.path (importMap index draft.foreign) =
      .ok (if lines.isEmpty then "" else Text.joinWith "\n" lines ++ "\n\n") := by
    rw [importText, hlines]
    rfl
  exact ⟨_, complete_eq_ok_iff.2 ⟨_, ht, rfl⟩⟩

theorem sortFiles_perm (files : List SourceDeclarations) : (sortFiles files).Perm files :=
  sortBy_perm _ _

theorem sortFiles_pairwise (files : List SourceDeclarations) :
    (sortFiles files).Pairwise fun a b => a.path ≤ b.path :=
  pairwise_sortBy_key SourceDeclarations.path files

theorem draftAll_eq {files : List SourceDeclarations} (hn : (files.map (·.path)).Nodup) :
    draftAll files = (sortFiles files).map Draft.ofFile := by
  have hk : (Keyed.keys ((sortFiles files).map fun f => (f.path, Draft.ofFile f))).Nodup := by
    have : ((sortFiles files).map (·.path)).Nodup := ((sortFiles_perm files).map _).nodup_iff.2 hn
    simpa [Keyed.keys, Function.comp_def] using this
  rw [draftAll, Keyed.ofList_eq_self hk]
  simp [Function.comp_def]

theorem mem_draftAll {files : List SourceDeclarations} (hn : (files.map (·.path)).Nodup)
    {d : Draft} : d ∈ draftAll files ↔ ∃ f ∈ files, Draft.ofFile f = d := by
  rw [draftAll_eq hn, List.mem_map]
  simp only [(sortFiles_perm files).mem_iff]

theorem draftAll_increasing {files : List SourceDeclarations} (hn : (files.map (·.path)).Nodup) :
    ((draftAll files).map (·.path)).Pairwise (· < ·) := by
  have hm : (draftAll files).map (·.path) = (sortFiles files).map (·.path) := by
    rw [draftAll_eq hn, List.map_map]
    rfl
  rw [hm]
  exact increasing_of_nodup (List.pairwise_map.2 (sortFiles_pairwise files))
    (((sortFiles_perm files).map _).nodup_iff.2 hn)

/-- The files that are produced belong to the drafts one by one. -/
theorem produce_eq_ok_iff {configured : List (String × String)} {files : List SourceDeclarations}
    {graph : List (String × List String)} {out : List DeclarationFile} :
    (produce configured files graph).1 = .ok out ↔
      List.Forall₂ (fun d f => complete configured (Exporters.build (draftAll files) graph) d = .ok f)
        (draftAll files) out :=
  mapM_eq_ok_iff

theorem complete_path {configured : List (String × String)} {index : Exporters} {draft : Draft}
    {file : DeclarationFile} (h : complete configured index draft = .ok file) :
    file.path = draft.path := by
  obtain ⟨_, _, rfl⟩ := complete_eq_ok_iff.1 h
  rfl

theorem path_mem_of_mem_draftAll {files : List SourceDeclarations} {d : Draft}
    (h : d ∈ draftAll files) : d.path ∈ files.map (·.path) := by
  obtain ⟨q, hq, rfl⟩ := List.mem_map.1 h
  obtain ⟨f, hf, rfl⟩ := List.mem_map.1 (Keyed.mem_of_mem_ofList hq)
  exact List.mem_map.2 ⟨f, (sortFiles_perm files).mem_iff.1 hf, rfl⟩

theorem path_mem_of_produce {configured : List (String × String)}
    {files : List SourceDeclarations} {graph : List (String × List String)}
    {out : List DeclarationFile} (h : (produce configured files graph).1 = .ok out) :
    ∀ f ∈ out, f.path ∈ files.map (·.path) :=
  forall_of_mapM_eq_ok h fun _ hd _ hf => complete_path hf ▸ path_mem_of_mem_draftAll hd

theorem map_path_produce {configured : List (String × String)} {files : List SourceDeclarations}
    {graph : List (String × List String)} {out : List DeclarationFile}
    (h : (produce configured files graph).1 = .ok out) :
    out.map (·.path) = (draftAll files).map (·.path) := by
  have hf := produce_eq_ok_iff.1 h
  generalize Exporters.build (draftAll files) graph = index at hf
  generalize draftAll files = drafts at hf ⊢
  clear h
  induction hf with
  | nil => rfl
  | cons hd _ ih => rw [List.map_cons, List.map_cons, complete_path hd, ih]

/-- Every file that is produced belongs to one of the sources. -/
theorem exists_source_of_produce {configured : List (String × String)}
    {files : List SourceDeclarations} {graph : List (String × List String)}
    {out : List DeclarationFile} (hn : (files.map (·.path)).Nodup)
    (h : (produce configured files graph).1 = .ok out) :
    ∀ f ∈ out, ∃ file ∈ files, file.path = f.path ∧
      complete configured (Exporters.build (draftAll files) graph) (Draft.ofFile file) = .ok f :=
  forall_of_mapM_eq_ok h fun d hd f hf => by
    obtain ⟨file, hfile, rfl⟩ := (mem_draftAll hn).1 hd
    exact ⟨file, hfile, (complete_path hf).symm, hf⟩

/-- The declaration file of a path. -/
def fileOf? (files : List DeclarationFile) (path : String) : Option DeclarationFile :=
  files.find? fun f => f.path == path

theorem fileOf?_of_forall₂ {configured : List (String × String)} {index : Exporters}
    {drafts : List Draft} {out : List DeclarationFile}
    (h : List.Forall₂ (fun d f => complete configured index d = .ok f) drafts out)
    (hp : (drafts.map (·.path)).Pairwise (· < ·)) {d : Draft} (hd : d ∈ drafts) :
    ∃ file, fileOf? out d.path = some file ∧ complete configured index d = .ok file := by
  induction h with
  | nil => simp at hd
  | @cons e f drafts out hef _ ih =>
      rw [List.map_cons, List.pairwise_cons] at hp
      rcases List.mem_cons.1 hd with rfl | hd
      · exact ⟨f, by simp [fileOf?, complete_path hef], hef⟩
      · obtain ⟨file, hfile, hc⟩ := ih hp.2 hd
        have hne : f.path ≠ d.path := by
          rw [complete_path hef]
          exact ne_of_lt (hp.1 _ (List.mem_map_of_mem hd))
        exact ⟨file, by simpa [fileOf?, hne] using hfile, hc⟩

/-- Every source that is given has its declaration file among those that are produced. -/
theorem fileOf?_produce {configured : List (String × String)} {files : List SourceDeclarations}
    {graph : List (String × List String)} {out : List DeclarationFile}
    (hn : (files.map (·.path)).Nodup) (h : (produce configured files graph).1 = .ok out)
    {f : SourceDeclarations} (hf : f ∈ files) :
    ∃ file, fileOf? out f.path = some file ∧
      complete configured (Exporters.build (draftAll files) graph) (Draft.ofFile f) = .ok file :=
  fileOf?_of_forall₂ (produce_eq_ok_iff.1 h) (draftAll_increasing hn)
    ((mem_draftAll hn).2 ⟨f, hf, rfl⟩)

theorem produce_eq_ok_of_forall {configured : List (String × String)}
    {files : List SourceDeclarations} {graph : List (String × List String)}
    (hn : (files.map (·.path)).Nodup)
    (h : ∀ f ∈ files, ∃ file,
      complete configured (Exporters.build (draftAll files) graph) (Draft.ofFile f) = .ok file) :
    ∃ out, (produce configured files graph).1 = .ok out := by
  have hd : ∀ d ∈ draftAll files, ∃ file,
      complete configured (Exporters.build (draftAll files) graph) d = .ok file := by
    intro d hd
    obtain ⟨f, hf, rfl⟩ := (mem_draftAll hn).1 hd
    exact h f hf
  exact exists_mapM_eq_ok hd

/-! ### Files and records -/

theorem processedExporters_draftAll {files : List SourceDeclarations}
    (hn : (files.map (·.path)).Nodup) {name path : String} :
    path ∈ Exporters.processedExporters (draftAll files) name ↔
      ∃ f ∈ files, f.path = path ∧ name ∈ f.exportNames := by
  constructor
  · rintro ⟨d, hd, hp, hx⟩
    obtain ⟨f, hf, rfl⟩ := (mem_draftAll hn).1 hd
    exact ⟨f, hf, hp, hx⟩
  · rintro ⟨f, hf, hp, hx⟩
    exact ⟨Draft.ofFile f, (mem_draftAll hn).2 ⟨f, hf, rfl⟩, hp, hx⟩

theorem owner?_mem_paths {files : List SourceDeclarations} (hn : (files.map (·.path)).Nodup)
    {graph : List (String × List String)} {name owner : String}
    (h : (Exporters.build (draftAll files) graph).owner? name = some owner) :
    owner ∈ files.map (·.path) ∨ owner ∈ Keyed.keys graph := by
  rcases Exporters.owner?_eq_some_iff.1 h with h | ⟨-, h⟩
  · obtain ⟨f, hf, hp, -⟩ := (processedExporters_draftAll hn).1 h.1
    exact .inl (List.mem_map.2 ⟨f, hf, hp⟩)
  · obtain ⟨names, hm, -⟩ := h.1
    exact .inr (Keyed.mem_keys_of_mem hm)

/-- Declaration files can be made if the path of every source and of every record can be named. -/
theorem exists_produce_eq_ok (configured : List (String × String))
    {files : List SourceDeclarations} (graph : List (String × List String))
    (hn : (files.map (·.path)).Nodup)
    (h : ∀ path ∈ files.map (·.path) ++ Keyed.keys graph, SourcePath.specifier path ≠ "") :
    ∃ out, (produce configured files graph).1 = .ok out :=
  produce_eq_ok_of_forall hn fun _ _ => exists_complete_eq_ok fun _ _ owner ho =>
    h owner (List.mem_append.2 (owner?_mem_paths hn ho))

/-- Whether no skipped file stands behind the exporters of a name among the files of the run: if
there are such exporters, every skipped exporter has a smaller path than one of them. -/
def Undisputed (processed skipped : List SourceDeclarations) (name : String) : Prop :=
  ∀ s ∈ skipped, name ∈ s.exportNames → (∃ f ∈ processed, name ∈ f.exportNames) →
    ∃ f ∈ processed, name ∈ f.exportNames ∧ s.path < f.path

/-- What the records of a run hold that has read some of the files and skipped the others: of every
skipped file its exports, and of the other files anything. -/
structure RecordsOf (processed skipped : List SourceDeclarations)
    (graph : List (String × List String)) : Prop where
  keys_nodup : (Keyed.keys graph).Nodup
  paths : ∀ e ∈ graph, e.1 ∈ (processed ++ skipped).map (·.path)
  exports : ∀ s ∈ skipped, ∃ names, (s.path, names) ∈ graph ∧ ∀ n, n ∈ names ↔ n ∈ s.exportNames

section Split

variable {processed skipped : List SourceDeclarations} {graph : List (String × List String)}
  (hn : ((processed ++ skipped).map (·.path)).Nodup) (hg : RecordsOf processed skipped graph)

include hn

theorem nodup_processed : (processed.map (·.path)).Nodup := by
  rw [List.map_append] at hn
  exact (List.nodup_append.1 hn).1

theorem path_ne_of_split {f s : SourceDeclarations} (hf : f ∈ processed) (hs : s ∈ skipped) :
    f.path ≠ s.path := by
  rw [List.map_append] at hn
  exact (List.nodup_append.1 hn).2.2 _ (List.mem_map_of_mem hf) _ (List.mem_map_of_mem hs)

include hg

/-- The recorded exporters of a name are the skipped files that export it. -/
theorem cachedExporters_split {name path : String} :
    path ∈ Exporters.cachedExporters (draftAll processed) graph name ↔
      ∃ s ∈ skipped, s.path = path ∧ name ∈ s.exportNames := by
  constructor
  · rintro ⟨names, hm, hx, hd⟩
    obtain ⟨s, hs, rfl⟩ := List.mem_map.1 (hg.paths _ hm)
    rcases List.mem_append.1 hs with hs | hs
    · exact absurd rfl (hd _ ((mem_draftAll (nodup_processed hn)).2 ⟨s, hs, rfl⟩))
    · obtain ⟨names', hm', hiff⟩ := hg.exports s hs
      have hnames : names = names' := by
        have h := (Keyed.get?_eq_some_iff hg.keys_nodup).2 hm
        rw [(Keyed.get?_eq_some_iff hg.keys_nodup).2 hm'] at h
        exact (Option.some.inj h).symm
      exact ⟨s, hs, rfl, (hiff name).1 (hnames ▸ hx)⟩
  · rintro ⟨s, hs, rfl, hx⟩
    obtain ⟨names, hm, hiff⟩ := hg.exports s hs
    refine ⟨names, hm, (hiff name).2 hx, fun d hd => ?_⟩
    obtain ⟨f, hf, rfl⟩ := (mem_draftAll (nodup_processed hn)).1 hd
    exact path_ne_of_split hn hf hs

theorem processedExporters_split (name : String) :
    Exporters.processedExporters (draftAll (processed ++ skipped)) name =
      Exporters.processedExporters (draftAll processed) name ∪
        Exporters.cachedExporters (draftAll processed) graph name := by
  ext path
  rw [Set.mem_union, processedExporters_draftAll hn, cachedExporters_split hn hg,
    processedExporters_draftAll (nodup_processed hn)]
  simp only [List.mem_append, or_and_right, exists_or]

/-- A name is undisputed if the greatest path of all that export it is one of a file of the run, given
that there are such files. -/
theorem undisputed_iff {name : String} :
    Undisputed processed skipped name ↔
      ∀ path ∈ Exporters.cachedExporters (draftAll processed) graph name,
        (Exporters.processedExporters (draftAll processed) name).Nonempty →
          ∃ other ∈ Exporters.processedExporters (draftAll processed) name, path < other := by
  have hA := @processedExporters_draftAll processed (nodup_processed hn) name
  have hB := @cachedExporters_split processed skipped graph hn hg name
  constructor
  · rintro hu path hpath ⟨p, hp⟩
    obtain ⟨s, hs, rfl, hx⟩ := hB.1 hpath
    obtain ⟨f, hf, -, hfx⟩ := hA.1 hp
    obtain ⟨g, hgm, hgx, hlt⟩ := hu s hs hx ⟨f, hf, hfx⟩
    exact ⟨g.path, hA.2 ⟨g, hgm, rfl, hgx⟩, hlt⟩
  · rintro hu s hs hx ⟨f, hf, hfx⟩
    obtain ⟨path, hpath, hlt⟩ := hu s.path (hB.2 ⟨s, hs, rfl, hx⟩) ⟨f.path, hA.2 ⟨f, hf, rfl, hfx⟩⟩
    obtain ⟨g, hgm, rfl, hgx⟩ := hA.1 hpath
    exact ⟨g, hgm, hgx, hlt⟩

/-- The owner of a name is the same, whether the skipped files are there or only their records,
exactly if the name is undisputed. -/
theorem owner?_split_eq_iff (name : String) :
    (Exporters.build (draftAll processed) graph).owner? name =
        (Exporters.build (draftAll (processed ++ skipped)) []).owner? name ↔
      Undisputed processed skipped name := by
  have hdisjoint : ∀ path ∈ Exporters.cachedExporters (draftAll processed) graph name,
      path ∉ Exporters.processedExporters (draftAll processed) name := by
    intro path hB hA
    obtain ⟨s, hs, rfl, -⟩ := (cachedExporters_split hn hg).1 hB
    obtain ⟨f, hf, hp, -⟩ := (processedExporters_draftAll (nodup_processed hn)).1 hA
    exact path_ne_of_split hn hf hs hp
  rw [undisputed_iff hn hg,
    ← Exporters.isGreatest_overlay_iff Exporters.exists_isGreatest_processedExporters hdisjoint,
    ← processedExporters_split hn hg]
  -- both owners are greatest elements: of the exporters one group after the other, and of all of them
  constructor
  · intro heq path
    rw [← Exporters.owner?_eq_some_iff, ← Exporters.owner?_build_nil, heq]
  · intro hiff
    refine Option.ext ?_
    intro path
    rw [Exporters.owner?_eq_some_iff, Exporters.owner?_build_nil]
    exact hiff path

end Split

/-! ### Sources with one name -/

/-- A source that exports the name `Item`. -/
def itemProvider (path : String) : SourceDeclarations :=
  ⟨path, [.class_ { (default : ClassDecl) with name := "Item" }], []⟩

/-- A source that refers to the name `Item`. -/
def itemConsumer (path : String) : SourceDeclarations :=
  ⟨path, [], ["Item"]⟩

theorem exportNames_itemProvider (path : String) : (itemProvider path).exportNames = ["Item"] :=
  sortNames_eq_self (List.pairwise_singleton _ _)

theorem exportNames_itemConsumer (path : String) : (itemConsumer path).exportNames = [] :=
  sortNames_eq_self List.Pairwise.nil

theorem foreign_itemConsumer (path : String) :
    (Draft.ofFile (itemConsumer path)).foreign = ["Item"] := by
  have h : (["Item"].filter fun n => !([] : List String).contains n && !TypeScript.isInternal n) =
      ["Item"] := by decide +kernel
  change sortNames (["Item"].filter fun n =>
    !(itemConsumer path).exportNames.contains n && !TypeScript.isInternal n) = ["Item"]
  rw [exportNames_itemConsumer, h]
  exact sortNames_eq_self (List.pairwise_singleton _ _)

theorem recordsOf_itemProvider {processed : List SourceDeclarations} {path : String} :
    RecordsOf processed [itemProvider path] [(path, ["Item"])] where
  keys_nodup := by simp
  paths := by
    rintro e he
    obtain rfl := List.mem_singleton.1 he
    simp [itemProvider]
  exports := by
    rintro s hs
    obtain rfl := List.mem_singleton.1 hs
    exact ⟨["Item"], by simp [itemProvider], fun n => by rw [exportNames_itemProvider]⟩

/-! ### The split -/

/-- **Records are as good as files exactly for undisputed names.**  Files with distinct paths are
split into those that a run reads and those that it skips and knows from records.  If the emission of
all files succeeds and the read files refer to undisputed names only, the emission of the read ones
against the records succeeds too; and whenever both succeed, both hold a declaration file for every
read source, and the two are equal exactly if all names that the source refers to are undisputed. -/
theorem produce_split (configured : List (String × String))
    {processed skipped : List SourceDeclarations} {graph : List (String × List String)}
    (hn : ((processed ++ skipped).map (·.path)).Nodup) (hg : RecordsOf processed skipped graph)
    {all : List DeclarationFile} (hall : (produce configured (processed ++ skipped) []).1 = .ok all) :
    ((∀ f ∈ processed, ∀ n ∈ (Draft.ofFile f).foreign, Undisputed processed skipped n) →
      ∃ part, (produce configured processed graph).1 = .ok part) ∧
    ∀ part, (produce configured processed graph).1 = .ok part → ∀ f ∈ processed,
      (fileOf? all f.path).isSome ∧ (fileOf? part f.path).isSome ∧
        (fileOf? part f.path = fileOf? all f.path ↔
          ∀ n ∈ (Draft.ofFile f).foreign, Undisputed processed skipped n) := by
  constructor
  · intro hu
    refine produce_eq_ok_of_forall (nodup_processed hn) ?_
    intro f hf
    obtain ⟨file, -, hc⟩ := fileOf?_produce hn hall (List.mem_append_left _ hf)
    refine ⟨file, ?_⟩
    rw [← hc]
    exact complete_congr _ _ fun n hx => (owner?_split_eq_iff hn hg n).2 (hu f hf n hx)
  · intro part hpart f hf
    obtain ⟨a, ha, hac⟩ := fileOf?_produce hn hall (List.mem_append_left _ hf)
    obtain ⟨b, hb, hbc⟩ := fileOf?_produce (nodup_processed hn) hpart hf
    refine ⟨by simp [ha], by simp [hb], ?_⟩
    rw [ha, hb, Option.some.injEq]
    constructor
    · rintro rfl n hx
      exact (owner?_split_eq_iff hn hg n).1 (owner?_eq_of_complete_eq hbc hac n hx)
    · intro hu
      have hc := complete_congr configured (Draft.ofFile f)
        fun n hx => (owner?_split_eq_iff hn hg n).2 (hu n hx)
      rw [hbc, hac] at hc
      exact Except.ok.inj hc

/-- A file that uses the name of a skipped one is emitted as if both were read. -/
theorem produce_split_of_skipped_provider :
    ∃ all part, (produce [] ([itemConsumer "c.lua"] ++ [itemProvider "b.lua"]) []).1 = .ok all ∧
      (produce [] [itemConsumer "c.lua"] [("b.lua", ["Item"])]).1 = .ok part ∧
      fileOf? part "c.lua" = fileOf? all "c.lua" := by
  have hn : (([itemConsumer "c.lua"] ++ [itemProvider "b.lua"]).map (·.path)).Nodup := by decide
  obtain ⟨all, hall⟩ := exists_produce_eq_ok [] [] hn (by decide +kernel)
  have hu : ∀ f ∈ [itemConsumer "c.lua"], ∀ n ∈ (Draft.ofFile f).foreign,
      Undisputed [itemConsumer "c.lua"] [itemProvider "b.lua"] n := by
    rintro f - n - s - - ⟨g, hg, hx⟩
    obtain rfl := List.mem_singleton.1 hg
    simp [exportNames_itemConsumer] at hx
  obtain ⟨hok, hiff⟩ := produce_split [] hn recordsOf_itemProvider hall
  obtain ⟨part, hpart⟩ := hok hu
  have hc := List.mem_singleton_self (itemConsumer "c.lua")
  exact ⟨all, part, hall, hpart, (hiff part hpart _ hc).2.2.2 (hu _ hc)⟩

/-- Where a read file and a skipped one of a greater path export a name, a third file imports it
from the one of them or from the other. -/
theorem produce_split_ne_of_disputed :
    RecordsOf [itemProvider "a.lua", itemConsumer "c.lua"] [itemProvider "b.lua"]
        [("b.lua", ["Item"])] ∧
      ∃ all part,
        (produce [] ([itemProvider "a.lua", itemConsumer "c.lua"] ++ [itemProvider "b.lua"]) []).1 =
            .ok all ∧
          (produce [] [itemProvider "a.lua", itemConsumer "c.lua"] [("b.lua", ["Item"])]).1 =
            .ok part ∧
          fileOf? part "c.lua" ≠ fileOf? all "c.lua" := by
  have hg := @recordsOf_itemProvider [itemProvider "a.lua", itemConsumer "c.lua"] "b.lua"
  have hn : (([itemProvider "a.lua", itemConsumer "c.lua"] ++ [itemProvider "b.lua"]).map
      (·.path)).Nodup := by decide
  obtain ⟨all, hall⟩ := exists_produce_eq_ok [] [] hn (by decide +kernel)
  obtain ⟨part, hpart⟩ := exists_produce_eq_ok [] [("b.lua", ["Item"])]
    (nodup_processed hn) (by decide +kernel)
  refine ⟨hg, all, part, hall, hpart, fun heq => ?_⟩
  have hc : itemConsumer "c.lua" ∈ [itemProvider "a.lua", itemConsumer "c.lua"] := by simp
  obtain ⟨a, ha, hac⟩ := fileOf?_produce hn hall (List.mem_append_left _ hc)
  obtain ⟨b, hb, hbc⟩ := fileOf?_produce (nodup_processed hn) hpart hc
  obtain rfl : b = a := Option.some.inj (hb.symm.trans (heq.trans ha))
  have ho := owner?_eq_of_complete_eq hbc hac "Item" (by simp [foreign_itemConsumer])
  obtain ⟨f, hf, hx, hlt⟩ := (owner?_split_eq_iff hn hg "Item").1 ho (itemProvider "b.lua")
    (by simp) (by simp [exportNames_itemProvider])
    ⟨itemProvider "a.lua", by simp, by simp [exportNames_itemProvider]⟩
  simp only [List.mem_cons, List.not_mem_nil, or_false] at hf
  rcases hf with rfl | rfl
  · exact absurd hlt (by decide)
  · simp [exportNames_itemConsumer] at hx

end LuaAmbient.Emission
