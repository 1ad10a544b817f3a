/-
What a declaration file imports.

A declaration file refers to names of other files.  Each of these names is either imported from one
file or stubbed, and which of the two it is, and from where it is imported, is a question about the
sources of the run and the records of earlier runs alone.  `Resolves` says it all at once, without
the index that the emission goes through.

Main definitions:

* `LuaAmbient.Emission.exportersAmong`, `LuaAmbient.Emission.recordedExporters` — who exports a name,
  among the sources and among the records;
* `LuaAmbient.Emission.Owns` — the path that a name is imported from;
* `LuaAmbient.Emission.IsImportLine`, `LuaAmbient.Emission.importHead` — the import lines of a file;
* `LuaAmbient.Emission.Resolves` — **a declaration file resolves the names of its source**.

Main results:

* `LuaAmbient.Emission.owner?_eq_some_iff_owns` — the index of exporters knows the owners;
* `LuaAmbient.Emission.missing_append_imports_perm` — **every name is resolved exactly once**;
* `LuaAmbient.Emission.resolves_of_complete` — a completed file resolves the names of its source;
* `LuaAmbient.Emission.Resolves.lines_lead` — every import line leads to the owner of its names;
* `LuaAmbient.Emission.produce_resolves` — **all files of an emission resolve their names**.
-/

import LuaAmbient.Proofs.Emission.Resolution
import LuaAmbient.Proofs.SourcePath.RelativeImport

set_option relaxedAutoImplicit false
set_option autoImplicit false

namespace LuaAmbient.Emission

open LuaAmbient.Text

/-! ### Owners -/

/-- The sources that export a name. -/
def exportersAmong (files : List SourceDeclarations) (name : String) : Set String :=
  {path | ∃ f ∈ files, f.path = path ∧ name ∈ f.exportNames}

/-- The recorded files that list a name and are not among the sources. -/
def recordedExporters (files : List SourceDeclarations) (graph : List (String × List String))
    (name : String) : Set String :=
  {path | (∃ names, (path, names) ∈ graph ∧ name ∈ names) ∧ path ∉ files.map (·.path)}

/-- The path that a name is imported from: the greatest one among the sources that export it, or, if
there is none, the greatest one among the records that list it. -/
def Owns (files : List SourceDeclarations) (graph : List (String × List String))
    (name path : String) : Prop :=
  IsGreatest (exportersAmong files name) path ∨
    exportersAmong files name = ∅ ∧ IsGreatest (recordedExporters files graph name) path

section Owners

variable {files : List SourceDeclarations} {graph : List (String × List String)}
  {name path : String}

/-- A source never takes a name from itself that it does not export. -/
theorem Owns.mem_exportNames {file : SourceDeclarations} (ho : Owns files graph name file.path)
    (hf : file ∈ files) (hn : (files.map (·.path)).Nodup) : name ∈ file.exportNames := by
  rcases ho with ho | ⟨-, ho⟩
  · obtain ⟨f, hfiles, hp, hx⟩ := ho.1
    obtain rfl : f = file := List.inj_on_of_nodup_map hn hfiles hf hp
    exact hx
  · exact absurd (List.mem_map_of_mem hf) ho.1.2

variable (hn : (files.map (·.path)).Nodup)
include hn

theorem processedExporters_eq (name : String) :
    Exporters.processedExporters (draftAll files) name = exportersAmong files name :=
  Set.ext fun _ => processedExporters_draftAll hn

theorem cachedExporters_eq (graph : List (String × List String)) (name : String) :
    Exporters.cachedExporters (draftAll files) graph name = recordedExporters files graph name := by
  -- the drafts have the paths of the sources
  have hd : ∀ path, (∀ d ∈ draftAll files, d.path ≠ path) ↔ path ∉ files.map (·.path) := by
    intro path
    simp only [mem_draftAll hn, forall_exists_index, and_imp, forall_apply_eq_imp_iff₂, List.mem_map,
      not_exists, not_and]
    rfl
  ext path
  constructor
  · rintro ⟨names, hm, hx, hp⟩
    exact ⟨⟨names, hm, hx⟩, (hd path).1 hp⟩
  · rintro ⟨⟨names, hm, hx⟩, hp⟩
    exact ⟨names, hm, hx, (hd path).2 hp⟩

/-- The index of exporters knows the owners. -/
theorem owner?_eq_some_iff_owns :
    (Exporters.build (draftAll files) graph).owner? name = some path ↔ Owns files graph name path := by
  rw [Exporters.owner?_eq_some_iff, processedExporters_eq hn, cachedExporters_eq hn, Owns]

theorem owner?_eq_none_iff_unowned :
    (Exporters.build (draftAll files) graph).owner? name = none ↔
      exportersAmong files name = ∅ ∧ recordedExporters files graph name = ∅ := by
  rw [Exporters.owner?_eq_none_iff, processedExporters_eq hn, cachedExporters_eq hn]

end Owners

/-! ### The names that a file refers to -/

theorem mem_foreign_ofFile {file : SourceDeclarations} {name : String} :
    name ∈ (Draft.ofFile file).foreign ↔
      name ∈ file.usedNames ∧ name ∉ file.exportNames ∧ TypeScript.isInternal name = false := by
  simp [Draft.ofFile]

/-! ### The division of the names -/

section Division

variable (index : Exporters) (foreign : List String)

@[simp] theorem keys_importMap :
    Keyed.keys (importMap index foreign) = sortNames (foreign.filterMap index.owner?) := by
  simp [importMap, Keyed.keys, Function.comp_def]

theorem mem_keys_importMap {index : Exporters} {foreign : List String} {owner : String} :
    owner ∈ Keyed.keys (importMap index foreign) ↔
      ∃ name ∈ foreign, index.owner? name = some owner := by
  simp

theorem mem_missingNames {index : Exporters} {foreign : List String} {name : String} :
    name ∈ missingNames index foreign ↔ name ∈ foreign ∧ index.owner? name = none := by
  simp [missingNames]

/-- Below every owner stand names, in the order of all of them. -/
theorem names_of_mem_importMap {index : Exporters} {foreign : List String}
    {e : String × List String} (he : e ∈ importMap index foreign) :
    e.2 ≠ [] ∧ e.2.Sublist foreign := by
  have hk : e.1 ∈ Keyed.keys (importMap index foreign) := Keyed.mem_keys_of_mem he
  obtain ⟨name, hname, ho⟩ := mem_keys_importMap.1 hk
  refine ⟨List.ne_nil_of_mem ((mem_importMap he).2 ⟨hname, ho⟩), ?_⟩
  obtain ⟨owner, -, rfl⟩ := List.mem_map.1 he
  exact List.filter_sublist

/-- The names below the owners are those that have one. -/
theorem mem_flatMap_importMap {index : Exporters} {foreign : List String} {name : String} :
    name ∈ (importMap index foreign).flatMap (·.2) ↔
      name ∈ foreign ∧ ∃ owner, index.owner? name = some owner := by
  rw [List.mem_flatMap]
  constructor
  · rintro ⟨e, he, hname⟩
    obtain ⟨hforeign, ho⟩ := (mem_importMap he).1 hname
    exact ⟨hforeign, e.1, ho⟩
  · rintro ⟨hforeign, owner, ho⟩
    obtain ⟨names, he, hname⟩ := exists_mem_importMap hforeign ho
    exact ⟨(owner, names), he, hname⟩

/-- No name stands below two owners. -/
theorem nodup_flatMap_importMap (hf : foreign.Nodup) :
    ((importMap index foreign).flatMap (·.2)).Nodup := by
  rw [List.nodup_flatMap]
  refine ⟨fun e he => hf.sublist (names_of_mem_importMap he).2, ?_⟩
  have hk : (importMap index foreign).Pairwise fun a b => a.1 ≠ b.1 := by
    have h := nodup_of_increasing (sortNames_pairwise (foreign.filterMap index.owner?))
    rw [← keys_importMap] at h
    exact List.pairwise_map.1 h
  -- two owners of one name are one owner
  refine hk.imp_of_mem fun {a b} ha hb hne name hna hnb => hne ?_
  have hoa := ((mem_importMap ha).1 hna).2
  have hob := ((mem_importMap hb).1 hnb).2
  exact Option.some.inj (hoa.symm.trans hob)

/-- **Every name is resolved exactly once**: it is missing, or it stands below one owner. -/
theorem missing_append_imports_perm (hf : foreign.Nodup) :
    (missingNames index foreign ++ (importMap index foreign).flatMap (·.2)).Perm foreign := by
  have hn : (missingNames index foreign ++ (importMap index foreign).flatMap (·.2)).Nodup := by
    refine List.nodup_append.2 ⟨hf.filter _, nodup_flatMap_importMap index foreign hf, ?_⟩
    rintro name hm _ hi rfl
    obtain ⟨-, owner, ho⟩ := mem_flatMap_importMap.1 hi
    simp [(mem_missingNames.1 hm).2] at ho
  refine (List.perm_ext_iff_of_nodup hn hf).2 fun name => ?_
  rw [List.mem_append, mem_missingNames, mem_flatMap_importMap, ← and_or_left, and_iff_left_iff_imp]
  intro _
  cases ho : index.owner? name with
  | none => exact .inl rfl
  | some owner => exact .inr ⟨owner, rfl⟩

end Division

/-! ### The import lines -/

/-- The line that imports the names of an entry into the file of a path. -/
def IsImportLine (path : String) (entry : String × List String) (line : String) : Prop :=
  ∃ place, SourcePath.importPath path entry.1 = .ok place ∧
    line = "import type \x7b " ++ joinWith ", " entry.2 ++ " \x7d from \"" ++ place ++ "\";"

/-- Between files with relative paths, the place in an import line leads from the directory of the
importing file to the other one. -/
theorem IsImportLine.exists_place {path line : String} {entry : String × List String}
    (h : IsImportLine path entry line) (hpath : SourcePath.IsRelative path)
    (hentry : SourcePath.IsRelative entry.1) :
    ∃ place,
      line = "import type \x7b " ++ joinWith ", " entry.2 ++ " \x7d from \"" ++ place ++ "\";" ∧
      joinWith "/" (SourcePath.resolve (SourcePath.directory path ++ splitString '/' place)) =
        SourcePath.specifier entry.1 := by
  obtain ⟨place, hplace, hline⟩ := h
  have hway := Except.ok.inj (hplace.symm.trans (SourcePath.importPath_eq hpath hentry))
  refine ⟨place, hline, ?_⟩
  rw [hway]
  exact SourcePath.resolve_wayText_importWay hpath hentry

/-- What stands in front of the banner: the import lines, one below the other, and an empty line. -/
def importHead (lines : List String) : String :=
  if lines.isEmpty then "" else joinWith "\n" lines ++ "\n\n"

theorem importLine_eq_ok_iff {path line : String} {entry : String × List String} :
    importLine path entry.1 entry.2 = .ok line ↔ IsImportLine path entry line := by
  constructor
  · intro h
    obtain ⟨place, hplace, hline⟩ := bind_eq_ok h
    exact ⟨place, hplace, (Except.ok.inj hline).symm⟩
  · rintro ⟨place, hplace, rfl⟩
    rw [importLine, hplace]
    rfl

theorem importText_eq_ok_iff {path head : String} {imports : List (String × List String)} :
    importText path imports = .ok head ↔
      ∃ lines, List.Forall₂ (IsImportLine path) imports lines ∧ head = importHead lines := by
  have hl : ∀ lines, imports.mapM (fun e => importLine path e.1 e.2) = .ok lines ↔
      List.Forall₂ (IsImportLine path) imports lines := by
    intro lines
    simp only [mapM_eq_ok_iff, importLine_eq_ok_iff]
  constructor
  · intro h
    obtain ⟨lines, hlines, hhead⟩ := bind_eq_ok h
    exact ⟨lines, (hl lines).1 hlines, (Except.ok.inj hhead).symm⟩
  · rintro ⟨lines, hlines, rfl⟩
    rw [importText, (hl lines).2 hlines]
    rfl

/-! ### Resolution -/

/-- A declaration file resolves the names that its source refers to, among the sources of a run and
the records of earlier ones: the names are known, each of them stands below its owner or among the
missing ones, and the file begins with one line for every owner. -/
structure Resolves (configured : List (String × String)) (files : List SourceDeclarations)
    (graph : List (String × List String)) (source : SourceDeclarations) (out : DeclarationFile) :
    Prop where
  exports : out.exports = source.exportNames
  imports_increasing : out.imports.Pairwise (· < ·)
  mem_imports (name : String) : name ∈ out.imports ↔
    name ∈ source.usedNames ∧ name ∉ out.exports ∧ TypeScript.isInternal name = false
  /-- The imports are divided into the missing names and the names below the owners. -/
  divided : (out.missing ++ out.importMap.flatMap (·.2)).Perm out.imports
  mem_names : ∀ e ∈ out.importMap, ∀ name,
    name ∈ e.2 ↔ name ∈ out.imports ∧ Owns files graph name e.1
  mem_missing (name : String) : name ∈ out.missing ↔ name ∈ out.imports ∧
    exportersAmong files name = ∅ ∧ recordedExporters files graph name = ∅
  missing_increasing : out.missing.Pairwise (· < ·)
  owners_increasing : (Keyed.keys out.importMap).Pairwise (· < ·)
  not_mem_owners : out.path ∉ Keyed.keys out.importMap
  names_increasing : ∀ e ∈ out.importMap, e.2 ≠ [] ∧ e.2.Pairwise (· < ·)
  text : ∃ lines, List.Forall₂ (IsImportLine out.path) out.importMap lines ∧
    out.text = importHead lines ++ banner ++ body source ++ stubText configured out.missing

theorem resolves_of_complete {configured : List (String × String)}
    {files : List SourceDeclarations} {graph : List (String × List String)}
    {source : SourceDeclarations} {out : DeclarationFile} (hn : (files.map (·.path)).Nodup)
    (hs : source ∈ files)
    (h : complete configured (Exporters.build (draftAll files) graph) (Draft.ofFile source) =
      .ok out) :
    Resolves configured files graph source out := by
  obtain ⟨head, hhead, rfl⟩ := complete_eq_ok_iff.1 h
  have hinc : (Draft.ofFile source).foreign.Pairwise (· < ·) := sortNames_pairwise _
  exact {
    exports := rfl
    imports_increasing := hinc
    mem_imports := fun _ => mem_foreign_ofFile
    divided := missing_append_imports_perm _ _ (nodup_of_increasing hinc)
    mem_names := fun e he name => by rw [mem_importMap he, owner?_eq_some_iff_owns hn]
    mem_missing := fun name => by rw [mem_missingNames, owner?_eq_none_iff_unowned hn]
    missing_increasing := hinc.filter _
    owners_increasing := by
      rw [keys_importMap]
      exact sortNames_pairwise _
    not_mem_owners := by
      -- a name that the file takes from itself would be one that it exports
      intro hk
      obtain ⟨name, hname, ho⟩ := mem_keys_importMap.1 hk
      have hx := ((owner?_eq_some_iff_owns hn).1 ho).mem_exportNames hs hn
      exact (mem_foreign_ofFile.1 hname).2.1 hx
    names_increasing := fun e he =>
      ⟨(names_of_mem_importMap he).1, hinc.sublist (names_of_mem_importMap he).2⟩
    text := by
      obtain ⟨lines, hlines, rfl⟩ := importText_eq_ok_iff.1 hhead
      exact ⟨lines, hlines, rfl⟩ }

/-- A path that something is imported from is that of a source or of a record. -/
theorem Resolves.owner_mem {configured : List (String × String)} {files : List SourceDeclarations}
    {graph : List (String × List String)} {source : SourceDeclarations} {out : DeclarationFile}
    (h : Resolves configured files graph source out) {owner : String}
    (ho : owner ∈ Keyed.keys out.importMap) :
    owner ∈ files.map (·.path) ∨ owner ∈ Keyed.keys graph := by
  obtain ⟨e, he, rfl⟩ := List.mem_map.1 ho
  obtain ⟨name, hname⟩ := List.exists_mem_of_ne_nil e.2 (h.names_increasing e he).1
  rcases ((h.mem_names e he name).1 hname).2 with howns | ⟨-, howns⟩
  · obtain ⟨f, hf, hp, -⟩ := howns.1
    exact .inl (List.mem_map.2 ⟨f, hf, hp⟩)
  · obtain ⟨⟨names, hm, -⟩, -⟩ := howns.1
    exact .inr (List.mem_map.2 ⟨_, hm, rfl⟩)

/-- **Every import line leads to the file that owns its names**, if the paths of the sources and of the
records are relative. -/
theorem Resolves.lines_lead {configured : List (String × String)} {files : List SourceDeclarations}
    {graph : List (String × List String)} {source : SourceDeclarations} {out : DeclarationFile}
    (h : Resolves configured files graph source out) (hpath : SourcePath.IsRelative out.path)
    (hrelative : ∀ path ∈ files.map (·.path) ++ Keyed.keys graph, SourcePath.IsRelative path) :
    ∃ lines, out.text = importHead lines ++ banner ++ body source ++
        stubText configured out.missing ∧
      List.Forall₂ (fun e line => ∃ place,
        line = "import type \x7b " ++ joinWith ", " e.2 ++ " \x7d from \"" ++ place ++ "\";" ∧
        joinWith "/" (SourcePath.resolve (SourcePath.directory out.path ++ splitString '/' place)) =
          SourcePath.specifier e.1) out.importMap lines := by
  obtain ⟨lines, hlines, htext⟩ := h.text
  refine ⟨lines, htext, ?_⟩
  have howners : ∀ e ∈ out.importMap, SourcePath.IsRelative e.1 := fun e he =>
    hrelative e.1 (List.mem_append.2 (h.owner_mem (Keyed.mem_keys_of_mem he)))
  have hboth := (List.forall₂_and_left _ _).2 ⟨howners, hlines⟩
  exact hboth.imp fun e line hline => hline.2.exists_place hpath hline.1

/-- **All files of an emission resolve their names.**  Sources with distinct paths have one
declaration file each, in the order of the paths, and every declaration file resolves the names that
its source refers to. -/
theorem produce_resolves {configured : List (String × String)} {files : List SourceDeclarations}
    {graph : List (String × List String)} {emitted : List DeclarationFile}
    (hn : (files.map (·.path)).Nodup) (h : (produce configured files graph).1 = .ok emitted) :
    emitted.map (·.path) = orderNames (files.map (·.path)) ∧
      ∀ out ∈ emitted, ∃ source ∈ files, source.path = out.path ∧
        Resolves configured files graph source out := by
  constructor
  · have hp : (emitted.map (·.path)).Perm (files.map (·.path)) := by
      rw [map_path_produce h, draftAll_eq hn, List.map_map]
      exact (sortFiles_perm files).map _
    have hinc : (emitted.map (·.path)).Pairwise (· < ·) := by
      rw [map_path_produce h]
      exact draftAll_increasing hn
    rw [← orderNames_congr hp, orderNames_eq_self (hinc.imp le_of_lt)]
  · intro out hout
    obtain ⟨source, hs, hp, hc⟩ := exists_source_of_produce hn h out hout
    exact ⟨source, hs, hp, resolves_of_complete hn hs hc⟩

/-- A source that refers to names of three kinds, to one of them twice, and to a name that needs no
import. -/
def needyConsumer : SourceDeclarations :=
  ⟨"c.lua", [], ["Old", "Item", "Gone", "Item", "string"]⟩

/-- Records of a file that is no source and of one that is, with other names than that source has. -/
def staleRecords : List (String × List String) :=
  [("b.lua", ["Item", "Old"]), ("a.lua", ["Gone"])]

/-- A source takes `Item` from another source, though a record of a greater path lists it too, and
`Old` from that record.  `Gone` is missing: the record that lists it is one of a source. -/
theorem produce_resolves_of_staleRecords :
    ∃ emitted, (produce [] [needyConsumer, itemProvider "a.lua"] staleRecords).1 = .ok emitted ∧
      emitted.map (fun out => (out.path, out.importMap, out.missing)) =
        [("a.lua", [], []), ("c.lua", [("a.lua", ["Item"]), ("b.lua", ["Old"])], ["Gone"])] ∧
      ∀ out ∈ emitted, ∃ source ∈ [needyConsumer, itemProvider "a.lua"], source.path = out.path ∧
        Resolves [] [needyConsumer, itemProvider "a.lua"] staleRecords source out := by
  obtain ⟨emitted, h, he⟩ := exists_ok_of_toOption_map
    (e := (produce [] [needyConsumer, itemProvider "a.lua"] staleRecords).1)
    (g := fun l => l.map fun out => (out.path, out.importMap, out.missing))
    (b := [("a.lua", [], []), ("c.lua", [("a.lua", ["Item"]), ("b.lua", ["Old"])], ["Gone"])])
    (by decide +kernel)
  exact ⟨emitted, h, he, (produce_resolves (by decide) h).2⟩

end LuaAmbient.Emission
