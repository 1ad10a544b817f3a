/-
What a run from scratch leaves for given sources.

The texts of the sources determine everything: the declarations of each source, the owner of every
exported name, and so every file of the output directory.  Here this is said without a run; that
runs leave these files is shown elsewhere.

Main definitions:

* `LuaAmbient.Generation.textsOf` — the sources of a run with their texts;
* `LuaAmbient.Generation.filesOf`, `LuaAmbient.Generation.exportsAt` — the declarations of all
  sources, and the names that a path exports;
* `LuaAmbient.Generation.indexOf` — who exports which name;
* `LuaAmbient.Generation.Renders` — the declaration files of all sources can be completed;
* `LuaAmbient.Generation.target?` — **the text of an output file**, the cache apart.

Main results:

* `LuaAmbient.Generation.owner?_indexOf_congr` — the owner of a name is the same for two trees in
  which the same paths export it;
* `LuaAmbient.Generation.target?_declaration` — the text of a declaration file.
-/

import LuaAmbient.Proofs.Declaration.UsedNames
import LuaAmbient.Proofs.Emission.Resolution
import LuaAmbient.Proofs.Generation.Batch
import LuaAmbient.Generation.Run

set_option relaxedAutoImplicit false
set_option autoImplicit false

namespace LuaAmbient.Generation

/-! ### Texts -/

/-- The sources of a run with their texts, sorted by path. -/
def textsOf (sources : List (String × Option String)) : List (String × String) :=
  Keyed.sorted (Keyed.ofList (readable sources))

theorem textsOf_increasing (sources : List (String × Option String)) :
    (Keyed.keys (textsOf sources)).Pairwise (· < ·) :=
  Keyed.sorted_increasing (Keyed.nodup_keys_ofList _)

theorem mem_keys_textsOf {sources : List (String × Option String)} {path : String}
    (h : path ∈ Keyed.keys (textsOf sources)) : path ∈ sources.map (·.1) := by
  have hk := (Keyed.keys_sorted_perm _).mem_iff.1 h
  rw [Keyed.mem_keys_ofList] at hk
  obtain ⟨q, hq, rfl⟩ := List.mem_map.1 hk
  obtain ⟨s, hs, hsq⟩ := List.mem_filterMap.1 hq
  obtain ⟨text, _, rfl⟩ := Option.map_eq_some_iff.1 hsq
  exact List.mem_map_of_mem hs

/-! ### Declarations -/

/-- The declarations of all sources that have them. -/
def filesOf (reader : SourceReader) (texts : List (String × String)) : List SourceDeclarations :=
  (Keyed.keys texts).filterMap fun p => (sourceOf reader texts p).toOption

/-- The names that the source at a path exports; none if there is no such source. -/
def exportsAt (reader : SourceReader) (texts : List (String × String)) (path : String) :
    List String :=
  if path ∈ Keyed.keys texts then
    ((sourceOf reader texts path).toOption.map (·.exportNames)).getD []
  else []

/-- Who exports which name. -/
def indexOf (reader : SourceReader) (texts : List (String × String)) : Emission.Exporters :=
  Emission.Exporters.build (Emission.draftAll (filesOf reader texts)) []

variable {reader : SourceReader} {texts : List (String × String)}

theorem sourceOf_path {path : String} {file : SourceDeclarations}
    (h : sourceOf reader texts path = .ok file) : file.path = path :=
  (SourceDeclarations.exists_ofChunk_of_ofSource h).elim fun _ hchunk =>
    SourceDeclarations.path_ofChunk hchunk

theorem mem_filesOf {file : SourceDeclarations} :
    file ∈ filesOf reader texts ↔
      file.path ∈ Keyed.keys texts ∧ sourceOf reader texts file.path = .ok file := by
  have hopt : ∀ p, (sourceOf reader texts p).toOption = some file ↔
      sourceOf reader texts p = .ok file := fun p => by
    cases sourceOf reader texts p <;> simp [Except.toOption]
  rw [filesOf, List.mem_filterMap]
  constructor
  · rintro ⟨p, hp, h⟩
    rw [hopt] at h
    obtain rfl := sourceOf_path h
    exact ⟨hp, h⟩
  · rintro ⟨hp, h⟩
    exact ⟨file.path, hp, (hopt _).2 h⟩

theorem filesOf_increasing (hi : (Keyed.keys texts).Pairwise (· < ·)) :
    ((filesOf reader texts).map (·.path)).Pairwise (· < ·) := by
  have hs : ((filesOf reader texts).map (·.path)).Sublist (Keyed.keys texts) := by
    rw [filesOf]
    generalize Keyed.keys texts = paths
    induction paths with
    | nil => simp
    | cons p paths ih =>
        rw [List.filterMap_cons]
        cases hp : sourceOf reader texts p with
        | error problem => exact ih.cons p
        | ok file =>
            rw [Except.toOption, List.map_cons, sourceOf_path hp]
            exact ih.cons_cons p
  exact hi.sublist hs

theorem nodup_paths_filesOf (hi : (Keyed.keys texts).Pairwise (· < ·)) :
    ((filesOf reader texts).map (·.path)).Nodup :=
  nodup_of_increasing (filesOf_increasing hi)

theorem mem_exportsAt {path name : String} :
    name ∈ exportsAt reader texts path ↔
      ∃ file ∈ filesOf reader texts, file.path = path ∧ name ∈ file.exportNames := by
  rw [exportsAt]
  split
  · next hp =>
    constructor
    · intro h
      cases hf : sourceOf reader texts path with
      | error problem => simp [hf, Except.toOption] at h
      | ok file =>
          have hpath := sourceOf_path hf
          simp only [hf, Except.toOption, Option.map_some, Option.getD_some] at h
          exact ⟨file, mem_filesOf.2 ⟨hpath ▸ hp, hpath ▸ hf⟩, hpath, h⟩
    · rintro ⟨file, hfile, rfl, hx⟩
      simpa [(mem_filesOf.1 hfile).2, Except.toOption] using hx
  · next hp =>
    simp only [List.not_mem_nil, false_iff]
    rintro ⟨file, hfile, rfl, -⟩
    exact hp (mem_filesOf.1 hfile).1

theorem exportsAt_of_sourceOf {path : String} {file : SourceDeclarations}
    (hp : path ∈ Keyed.keys texts) (h : sourceOf reader texts path = .ok file) :
    exportsAt reader texts path = file.exportNames := by
  simp [exportsAt, hp, h, Except.toOption]

theorem exportsAt_of_not_mem {path : String} (h : path ∉ Keyed.keys texts) :
    exportsAt reader texts path = [] :=
  if_neg h

theorem mem_keys_of_mem_exportsAt {path name : String} (h : name ∈ exportsAt reader texts path) :
    path ∈ Keyed.keys texts := by
  by_contra hp
  simp [exportsAt_of_not_mem hp] at h

/-! ### Owners -/

/-- The owner of a name is the greatest path that exports it. -/
theorem owner?_indexOf (hi : (Keyed.keys texts).Pairwise (· < ·)) {name path : String} :
    (indexOf reader texts).owner? name = some path ↔
      IsGreatest {p | name ∈ exportsAt reader texts p} path := by
  rw [indexOf, Emission.Exporters.owner?_build_nil]
  have he : Emission.Exporters.processedExporters (Emission.draftAll (filesOf reader texts)) name =
      {p | name ∈ exportsAt reader texts p} := by
    ext p
    rw [Emission.processedExporters_draftAll (nodup_paths_filesOf hi), Set.mem_ofPred_eq,
      mem_exportsAt]
  rw [he]

/-- The owner of a name is the same for two trees in which the same paths export it. -/
theorem owner?_indexOf_congr {texts' : List (String × String)}
    (hi : (Keyed.keys texts).Pairwise (· < ·)) (hi' : (Keyed.keys texts').Pairwise (· < ·))
    {name : String}
    (h : ∀ p, name ∈ exportsAt reader texts p ↔ name ∈ exportsAt reader texts' p) :
    (indexOf reader texts).owner? name = (indexOf reader texts').owner? name := by
  refine Option.ext ?_
  intro path
  rw [owner?_indexOf hi, owner?_indexOf hi']
  simp only [h]

/-- No name is exported by two sources. -/
def UniqueExporters (reader : SourceReader) (texts : List (String × String)) : Prop :=
  ∀ name p q, name ∈ exportsAt reader texts p → name ∈ exportsAt reader texts q → p = q

theorem uniqueExporters_iff : UniqueExporters reader texts ↔
    ∀ p ∈ Keyed.keys texts, ∀ q ∈ Keyed.keys texts, ∀ name ∈ exportsAt reader texts p,
      name ∈ exportsAt reader texts q → p = q :=
  ⟨fun h p _ q _ name hp hq => h name p q hp hq, fun h name p q hp hq =>
    h p (mem_keys_of_mem_exportsAt hp) q (mem_keys_of_mem_exportsAt hq) name hp hq⟩

instance (reader : SourceReader) (texts : List (String × String)) :
    Decidable (UniqueExporters reader texts) :=
  decidable_of_iff _ uniqueExporters_iff.symm

/-! ### Output files -/

/-- The text of the index of all given sources. -/
def indexOfPaths (paths : List String) : String :=
  Emission.concat (paths.map indexLine)

/-- The text of the file of exported names. -/
def symbolsOf (reader : SourceReader) (texts : List (String × String)) : String :=
  symbolsText ⟨currentVersion, (Keyed.keys texts).map fun p =>
    (p, { (default : CachedSource) with exports := exportsAt reader texts p })⟩

/-- The declaration file of a source among all sources. -/
def rendered (setup : Setup) (texts : List (String × String)) (file : SourceDeclarations) :
    Except SourcePath.Fault Emission.DeclarationFile :=
  Emission.complete setup.settings.stubs (indexOf setup.reader texts) (Emission.Draft.ofFile file)

/-- Every source has declarations, and every declaration file can be completed. -/
def Renders (setup : Setup) (texts : List (String × String)) : Prop :=
  ∀ p ∈ Keyed.keys texts, ∃ file f,
    sourceOf setup.reader texts p = .ok file ∧ rendered setup texts file = .ok f

/-- The text of an output file, the cache apart, if there is a file of that name. -/
def target? (setup : Setup) (texts : List (String × String)) (name : String) : Option String :=
  if name = indexName then some (indexOfPaths (Keyed.keys texts))
  else if name = symbolsName then
    if setup.symbolIndex then some (symbolsOf setup.reader texts) else none
  else
    ((filesOf setup.reader texts).find? fun f => SourcePath.declaration f.path == name).bind
      fun f => (rendered setup texts f).toOption.map (·.text)

/-! ### Names of declaration files -/

theorem declaration_ne_of_ending {path name : String}
    (h : Text.endsWith name.toList SourcePath.declarationEnding.toList = false) :
    SourcePath.declaration path ≠ name := by
  rintro rfl
  have hs : Text.endsWith (SourcePath.declaration path).toList
      SourcePath.declarationEnding.toList = true := by
    rw [Text.endsWith, List.isSuffixOf_iff_suffix, SourcePath.declaration, String.toList_append]
    exact List.suffix_append _ _
  exact absurd (h.symm.trans hs) (by simp)

theorem declaration_ne_cacheName (path : String) : SourcePath.declaration path ≠ cacheName :=
  declaration_ne_of_ending (by decide)

theorem declaration_ne_symbolsName (path : String) : SourcePath.declaration path ≠ symbolsName :=
  declaration_ne_of_ending (by decide)

/-- Distinct sources have distinct declaration files. -/
def DistinctOutputs (texts : List (String × String)) : Prop :=
  ∀ p ∈ Keyed.keys texts, ∀ q ∈ Keyed.keys texts,
    SourcePath.declaration p = SourcePath.declaration q → p = q

instance (texts : List (String × String)) : Decidable (DistinctOutputs texts) :=
  inferInstanceAs (Decidable (∀ p ∈ Keyed.keys texts, ∀ q ∈ Keyed.keys texts, _ → _))

/-- The text of a declaration file. -/
theorem target?_declaration {setup : Setup}
    (hd : DistinctOutputs texts) {file : SourceDeclarations}
    (hf : file ∈ filesOf setup.reader texts)
    (hx : SourcePath.declaration file.path ≠ indexName) :
    target? setup texts (SourcePath.declaration file.path) =
      (rendered setup texts file).toOption.map (·.text) := by
  have hfind : ((filesOf setup.reader texts).find? fun f =>
      SourcePath.declaration f.path == SourcePath.declaration file.path) = some file := by
    obtain ⟨g, hg⟩ : ∃ g, ((filesOf setup.reader texts).find? fun f =>
        SourcePath.declaration f.path == SourcePath.declaration file.path) = some g := by
      rw [← Option.isSome_iff_exists, List.find?_isSome]
      exact ⟨file, hf, beq_self_eq_true _⟩
    have hgm := mem_filesOf.1 (List.mem_of_find?_eq_some hg)
    have hgp : g.path = file.path := hd _ hgm.1 _ (mem_filesOf.1 hf).1
      (by simpa using List.find?_some hg)
    have hgf : g = file := Except.ok.inj
      (hgm.2.symm.trans ((congrArg _ hgp).trans (mem_filesOf.1 hf).2))
    rw [hg, hgf]
  simp only [target?, if_neg hx, if_neg (declaration_ne_symbolsName _), hfind, Option.bind_some]

/-- There is no file but those of the sources. -/
theorem target?_eq_none {setup : Setup} {name : String}
    (hi : name ≠ indexName) (hs : setup.symbolIndex = true → name ≠ symbolsName)
    (hp : ∀ p ∈ Keyed.keys texts, SourcePath.declaration p ≠ name) :
    target? setup texts name = none := by
  have hfind : ((filesOf setup.reader texts).find? fun f =>
      SourcePath.declaration f.path == name) = none := by
    rw [List.find?_eq_none]
    intro f hf
    simpa using hp f.path (mem_filesOf.1 hf).1
  simp only [target?, if_neg hi, hfind]
  split
  · next he =>
    split
    · next hb => exact absurd he (hs hb)
    · rfl
  · rfl

end LuaAmbient.Generation
