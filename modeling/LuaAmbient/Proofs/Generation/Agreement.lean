/-
**A run leaves what belongs to its sources.**

The files that a run writes are resolved against the files that it reads and the records of those that
it skips; if no name is exported twice, this is as good as to resolve them against all files.  A file
that it skips refers to no name that has moved, so that what belongs there has not changed.  Whatever
a run does not touch is therefore right afterwards if it was right before.

Main results:

* `LuaAmbient.Generation.rendered_emitted` — an emitted file is the one that belongs to all sources;
* `LuaAmbient.Generation.rendered_skipped` — what belongs to a skipped source has not changed;
* `LuaAmbient.Generation.read?_of_touched` — **what a run has touched is right**;
* `LuaAmbient.Generation.read?_of_not_touched`, `LuaAmbient.Generation.target?_of_not_touched` — what it
  has not touched is as it was, and so is what belongs there.
-/

import LuaAmbient.Proofs.Generation.Effect

set_option relaxedAutoImplicit false
set_option autoImplicit false

namespace LuaAmbient.Generation

open OutputStore LawfulOutputStore Emission

variable {σ : Type} [OutputStore σ] {digest : String → String} {schedule : Schedule}
  {request : Request} {sources : List (String × Option String)} {out : σ}
  {before : List (String × String)} {cache : RunCache} {log : List Log.Entry} {o : Outcome σ}
  {emitted : List DeclarationFile} {w : Writing σ}
  (hd : Function.Injective digest) (hs : Complete schedule)
  (hc : CacheOf digest request.reader before cache)
  (hx : StorableExports request.reader before)

/-! ### Owners -/

section Owners

variable (hf : (read schedule request
  (survey digest request (cache, log) sources out)).failed = [])

include hd hs hc hf

/-- The declarations of the skipped sources. -/
def skippedFiles (reader : SourceReader) (texts : List (String × String)) (skipped : List String) :
    List SourceDeclarations :=
  (filesOf reader texts).filter fun f => skipped.contains f.path

omit [OutputStore σ] hd hs hc hf in
theorem mem_skippedFiles {reader : SourceReader} {texts : List (String × String)}
    {skipped : List String} {file : SourceDeclarations} :
    file ∈ skippedFiles reader texts skipped ↔
      file ∈ filesOf reader texts ∧ file.path ∈ skipped := by
  simp [skippedFiles]

theorem mem_parsedFiles {file : SourceDeclarations} :
    file ∈ (read schedule request
        (survey digest request (cache, log) sources out)).parsed.map (·.2) ↔
      file ∈ filesOf request.reader (textsOf sources) ∧ file.path ∉
        (read schedule request (survey digest request (cache, log) sources out)).skipped := by
  rw [mem_filesOf]
  constructor
  · intro h
    obtain ⟨q, hq, rfl⟩ := List.mem_map.1 h
    obtain ⟨hp, hns, hsource⟩ := (mem_parsed_iff hd hs hc hf).1 hq
    have hpath := sourceOf_path hsource
    exact ⟨⟨hpath.symm ▸ hp, hpath.symm ▸ hsource⟩, hpath.symm ▸ hns⟩
  · rintro ⟨⟨hp, hsource⟩, hns⟩
    exact List.mem_map.2 ⟨(file.path, file),
      (mem_parsed_iff hd hs hc hf).2 ⟨hp, hns, hsource⟩, rfl⟩

theorem nodup_split :
    (((read schedule request (survey digest request (cache, log) sources out)).parsed.map (·.2) ++
      skippedFiles request.reader (textsOf sources) (read schedule request
        (survey digest request (cache, log) sources out)).skipped).map (·.path)).Nodup := by
  rw [List.map_append, List.nodup_append]
  refine ⟨nodup_path_parsed hd hs hc hf, ?_, ?_⟩
  · exact (nodup_paths_filesOf (textsOf_increasing sources)).sublist (List.filter_sublist.map _)
  · intro p hpm q hqm hpq
    obtain ⟨f, hfm, rfl⟩ := List.mem_map.1 hpm
    obtain ⟨g, hg, rfl⟩ := List.mem_map.1 hqm
    exact ((mem_parsedFiles hd hs hc hf).1 hfm).2 (hpq ▸ (mem_skippedFiles.1 hg).2)

include hx in
/-- The records of a run hold the exports of the skipped sources. -/
theorem recordsOf_survey :
    RecordsOf ((read schedule request
        (survey digest request (cache, log) sources out)).parsed.map (·.2))
      (skippedFiles request.reader (textsOf sources) (read schedule request
        (survey digest request (cache, log) sources out)).skipped)
      (survey digest request (cache, log) sources out).cache.graph where
  keys_nodup := by
    rw [CacheOf.keys_graph]
    change (Keyed.keys (cache.keepOnly _).entries).Nodup
    rw [RunCache.keys_keepOnly]
    exact hc.nodup.filter _
  paths := by
    intro e he
    have hk : e.1 ∈ Keyed.keys (cache.keepOnly (Keyed.keys (textsOf sources))).entries := by
      have hg := Keyed.mem_keys_of_mem he
      rw [CacheOf.keys_graph] at hg
      exact hg
    rw [RunCache.keys_keepOnly, List.mem_filter, List.contains_iff_mem] at hk
    obtain ⟨file, hfile⟩ := exists_sourceOf hd hs hc hf hk.2
    have hpath := sourceOf_path hfile
    have hm : file ∈ filesOf request.reader (textsOf sources) :=
      mem_filesOf.2 ⟨hpath.symm ▸ hk.2, hpath.symm ▸ hfile⟩
    refine List.mem_map.2 ⟨file, List.mem_append.2 ?_, hpath⟩
    by_cases hsk : file.path ∈ (read schedule request
        (survey digest request (cache, log) sources out)).skipped
    · exact .inr (mem_skippedFiles.2 ⟨hm, hsk⟩)
    · exact .inl ((mem_parsedFiles hd hs hc hf).2 ⟨hm, hsk⟩)
  exports := by
    intro file hfile
    obtain ⟨hm, hsk⟩ := mem_skippedFiles.1 hfile
    obtain ⟨hp, hb, hsame⟩ := skipped_cached hd hc hf hsk
    have hsource := (mem_filesOf.1 hm).2
    obtain ⟨text, e, -, he, hr⟩ := hc.recordOf hb ((sourceOf_congr hsame).trans hsource)
    refine ⟨e.exports, ?_, fun n => ?_⟩
    · refine Keyed.mem_of_get?_eq_some ?_
      rw [CacheOf.get?_graph]
      change (RunCache.entry? (cache.keepOnly (Keyed.keys (textsOf sources))) file.path).map _ = _
      rw [RunCache.entry?_keepOnly, if_pos hp, he]
      rfl
    · have hxf : ∀ n ∈ file.exportNames, Storable n := by
        rw [← exportsAt_of_sourceOf hb ((sourceOf_congr hsame).trans hsource)]
        exact hx file.path
      rw [hr.exports hxf]

include hx in
/-- The owners that a run finds are those among all sources. -/
theorem owner?_survey (hu : UniqueExporters request.reader (textsOf sources)) (name : String) :
    (Exporters.build (draftAll ((read schedule request
        (survey digest request (cache, log) sources out)).parsed.map (·.2)))
      (survey digest request (cache, log) sources out).cache.graph).owner? name =
      (indexOf request.reader (textsOf sources)).owner? name := by
  have hn := nodup_split hd hs hc hf
  have hg := recordsOf_survey hd hs hc hx hf
  have hexports : ∀ file ∈ filesOf request.reader (textsOf sources), name ∈ file.exportNames →
      name ∈ exportsAt request.reader (textsOf sources) file.path :=
    fun file hfm hname => mem_exportsAt.2 ⟨file, hfm, rfl, hname⟩
  rw [(owner?_split_eq_iff hn hg name).2 ?_]
  · -- both sides take the greatest path among the same exporters
    refine Option.ext ?_
    intro path
    rw [indexOf, Exporters.owner?_build_nil, Exporters.owner?_build_nil]
    refine Eq.to_iff (congrArg (IsGreatest · path) (Set.ext fun q => ?_))
    rw [processedExporters_draftAll hn,
      processedExporters_draftAll (nodup_paths_filesOf (textsOf_increasing sources))]
    refine exists_congr fun file => and_congr_left ?_
    intro _
    rw [List.mem_append, mem_parsedFiles hd hs hc hf, mem_skippedFiles, ← and_or_left]
    exact and_iff_left (Decidable.em _).symm
  · rintro g hgm hgx ⟨f, hfm, hfx⟩
    have heq := hu name g.path f.path (hexports g (mem_skippedFiles.1 hgm).1 hgx)
      (hexports f ((mem_parsedFiles hd hs hc hf).1 hfm).1 hfx)
    exact absurd heq.symm (path_ne_of_split hn hfm hgm)

end Owners

/-! ### Written files -/

variable (hsv : Saved digest request (survey digest request (cache, log) sources out)
  (read schedule request (survey digest request (cache, log) sources out)) o emitted w)

include hd hs hc hsv

include hx in
/-- An emitted file is the one that belongs to all sources. -/
theorem rendered_emitted (hu : UniqueExporters request.reader (textsOf sources))
    {f : DeclarationFile} (hf : f ∈ emitted) :
    ∃ file ∈ filesOf request.reader (textsOf sources), file.path = f.path ∧
      rendered request.toSetup (textsOf sources) file = .ok f := by
  obtain ⟨file, hsource, hcomp⟩ := exists_source_of_emitted hd hs hc hsv hf
  have hpath := sourceOf_path hsource
  have hp := ((mem_path_emitted hd hs hc hsv).1 (List.mem_map_of_mem hf)).1
  refine ⟨file, mem_filesOf.2 ⟨hpath.symm ▸ hp, hpath.symm ▸ hsource⟩, hpath, ?_⟩
  rw [rendered, ← hcomp]
  exact complete_congr _ _ fun n _ => (owner?_survey hd hs hc hx hsv.failed hu n).symm

/-! ### Skipped files -/

include hx in
/-- What belongs to a skipped source has not changed. -/
theorem rendered_skipped (hbi : (Keyed.keys before).Pairwise (· < ·)) {file : SourceDeclarations}
    (hfile : file ∈ filesOf request.reader (textsOf sources))
    (hsk : file.path ∈ (read schedule request
      (survey digest request (cache, log) sources out)).skipped) :
    file ∈ filesOf request.reader before ∧
      rendered request.toSetup before file = rendered request.toSetup (textsOf sources) file := by
  obtain ⟨-, hb, hsame⟩ := skipped_cached hd hc hsv.failed hsk
  have hsource := (mem_filesOf.1 hfile).2
  have hno := ((mem_skipped_iff hd hs hc hsv.failed hx hsource).1 hsk).2
  refine ⟨mem_filesOf.2 ⟨hb, (sourceOf_congr hsame).trans hsource⟩, ?_⟩
  -- none of the names that it refers to has moved, so that each has the owner that it had
  refine complete_congr _ _ fun n hn => owner?_indexOf_congr hbi (textsOf_increasing sources) ?_
  intro p
  by_contra hp
  exact hno n hn ⟨p, hp⟩

include hx in
/-- All declaration files can be completed if those of the last run could be. -/
theorem renders_saved (hbi : (Keyed.keys before).Pairwise (· < ·))
    (hu : UniqueExporters request.reader (textsOf sources))
    (hren : Renders request.toSetup before) : Renders request.toSetup (textsOf sources) := by
  intro p hpt
  by_cases hsk : p ∈ (read schedule request
      (survey digest request (cache, log) sources out)).skipped
  · obtain ⟨file, hfile⟩ := exists_sourceOf hd hs hc hsv.failed hpt
    obtain rfl := sourceOf_path hfile
    obtain ⟨hm, hr⟩ := rendered_skipped hd hs hc hx hsv hbi (mem_filesOf.2 ⟨hpt, hfile⟩) hsk
    obtain ⟨file', f, hfile', hf⟩ := hren file.path (mem_filesOf.1 hm).1
    obtain rfl : file' = file := Except.ok.inj (hfile'.symm.trans (mem_filesOf.1 hm).2)
    exact ⟨file', f, hfile, hr ▸ hf⟩
  · obtain ⟨f, hf, rfl⟩ := List.mem_map.1 ((mem_path_emitted hd hs hc hsv).2 ⟨hpt, hsk⟩)
    obtain ⟨file, hm, hpath, hr⟩ := rendered_emitted hd hs hc hx hsv hu hf
    exact ⟨file, f, hpath ▸ (mem_filesOf.1 hm).2, hr⟩

/-! ### All files -/

variable [LawfulOutputStore σ] (ho : Sound out)
  (hp : ∀ p, p ∈ Keyed.keys (textsOf sources) ∨ p ∈ Keyed.keys before →
    Proper σ (SourcePath.declaration p))
  (hdist : DistinctOutputs (textsOf sources))

omit [LawfulOutputStore σ] in
theorem touched_of_emitted {f : DeclarationFile} (hf : f ∈ emitted) :
    Touched request (report (survey digest request (cache, log) sources out)
      (read schedule request (survey digest request (cache, log) sources out)) emitted)
      (SourcePath.declaration f.path) :=
  .inr (.inr ⟨f.path, .inl ((mem_written_iff hd hs hc hsv).2
    ((mem_path_emitted hd hs hc hsv).1 (List.mem_map_of_mem hf))), rfl⟩)

include ho hp hdist

/-- What a run has not touched is as it was. -/
theorem read?_of_not_touched {name : String} (hn : Proper σ name) (hcn : name ≠ cacheName)
    (ht : ¬ Touched request (report (survey digest request (cache, log) sources out)
      (read schedule request (survey digest request (cache, log) sources out)) emitted) name) :
    read? o.output name = read? out name := by
  have hi : name ≠ indexName := fun h => ht (.inl h)
  have hsym : ¬ (request.symbolIndex = true ∧ name = symbolsName) := fun h => ht (.inr (.inl h))
  have hem : ¬ emittedNames emitted name := by
    rintro ⟨f, hf, rfl⟩
    exact ht (touched_of_emitted hd hs hc hsv hf)
  have hrem : ¬ ∃ p ∈ (survey digest request (cache, log) sources out).removed,
      name = SourcePath.declaration p := by
    rintro ⟨p, hr, rfl⟩
    exact ht (.inr (.inr ⟨p, .inr hr, rfl⟩))
  rw [read?_output hd hs hc hsv ho hp hdist hn, if_neg hcn, if_neg hsym, if_neg hi,
    read?_written hd hs hc hsv ho hp hn hem, read?_survey hc ho hp hn, if_neg hrem]

omit hs hdist in
/-- A skipped source has its declaration file when the survey is done, so that no source that has
gone had a file of that name. -/
theorem not_removed_of_skipped {p : String}
    (hsk : p ∈ (read schedule request (survey digest request (cache, log) sources out)).skipped) :
    ¬ ∃ q ∈ (survey digest request (cache, log) sources out).removed,
      SourcePath.declaration p = SourcePath.declaration q := by
  intro hq
  have hpt := (skipped_cached hd hc hsv.failed hsk).1
  rw [skipped_eq hsv.failed] at hsk
  have hout := ((mem_unchanged hd hc).1 (mem_dropNames.1 hsk).1).2.2.2
  rw [hasOutput, read?_survey hc ho hp (hp p (.inl hpt)), if_pos hq] at hout
  simp at hout

include hx

/-- What a run has touched is right. -/
theorem read?_of_touched (hu : UniqueExporters request.reader (textsOf sources))
    (hxt : StorableExports request.reader (textsOf sources)) {name : String} (hn : Proper σ name)
    (hcn : name ≠ cacheName)
    (ht : Touched request (report (survey digest request (cache, log) sources out)
      (read schedule request (survey digest request (cache, log) sources out)) emitted) name) :
    read? o.output name =
      (target? request.toSetup (textsOf sources) name).map .text := by
  rw [read?_output hd hs hc hsv ho hp hdist hn, if_neg hcn]
  by_cases hi : name = indexName
  · have hsym : ¬ (request.symbolIndex = true ∧ name = symbolsName) := by
      rintro ⟨-, rfl⟩
      exact absurd hi (by decide)
    rw [if_neg hsym, if_pos hi, target?, if_pos hi]
    rfl
  · by_cases hsym : request.symbolIndex = true ∧ name = symbolsName
    · rw [if_pos hsym, target?, if_neg hi, if_pos hsym.2, if_pos hsym.1,
        (cacheOf_saved hd hs hc hsv).symbolsText_eq (textsOf_increasing sources) hxt]
      rfl
    · rw [if_neg hsym, if_neg hi]
      by_cases hem : emittedNames emitted name
      · obtain ⟨f, hf, rfl⟩ := hem
        obtain ⟨file, hfile, hpath, hr⟩ := rendered_emitted hd hs hc hx hsv hu hf
        rw [read?_emitted hd hs hc hsv ho hp hdist hf, ← hpath,
          target?_declaration hdist hfile (hpath.symm ▸ hi), hr]
        rfl
      · -- the file belongs to a source that has gone, and to no other
        obtain ⟨p, hpr, rfl⟩ : ∃ p ∈ (survey digest request (cache, log) sources out).removed,
            name = SourcePath.declaration p := by
          rcases ht with h | h | ⟨p, hpw | hpr, rfl⟩
          · exact absurd h hi
          · exact absurd h hsym
          · obtain ⟨f, hf, rfl⟩ := List.mem_map.1 ((mem_path_emitted hd hs hc hsv).2
              ((mem_written_iff hd hs hc hsv).1 hpw))
            exact absurd ⟨f, hf, rfl⟩ hem
          · exact ⟨p, hpr, rfl⟩
        rw [read?_written hd hs hc hsv ho hp hn hem, read?_survey hc ho hp hn,
          if_pos ⟨p, hpr, rfl⟩, target?_eq_none hi (fun hb he => hsym ⟨hb, he⟩) ?_]
        · rfl
        · intro q hq heq
          by_cases hsk : q ∈ (read schedule request
              (survey digest request (cache, log) sources out)).skipped
          · exact not_removed_of_skipped hd hc hsv ho hp hsk ⟨p, hpr, heq⟩
          · obtain ⟨f, hf, rfl⟩ := List.mem_map.1 ((mem_path_emitted hd hs hc hsv).2 ⟨hq, hsk⟩)
            exact hem ⟨f, hf, heq.symm⟩

omit ho hp [LawfulOutputStore σ] in
/-- What belongs to a file that a run has not touched has not changed. -/
theorem target?_of_not_touched (hbi : (Keyed.keys before).Pairwise (· < ·))
    (hbd : DistinctOutputs before) {name : String}
    (ht : ¬ Touched request (report (survey digest request (cache, log) sources out)
      (read schedule request (survey digest request (cache, log) sources out)) emitted) name) :
    target? request.toSetup before name =
      target? request.toSetup (textsOf sources) name := by
  have hi : name ≠ indexName := fun h => ht (.inl h)
  have hsym : request.symbolIndex = true → name ≠ symbolsName :=
    fun hb h => ht (.inr (.inl ⟨hb, h⟩))
  by_cases hsource : ∃ p ∈ Keyed.keys (textsOf sources), SourcePath.declaration p = name
  · -- the file of a source that was skipped
    obtain ⟨p, hpt, rfl⟩ := hsource
    obtain ⟨file, hfile⟩ := exists_sourceOf hd hs hc hsv.failed hpt
    obtain rfl := sourceOf_path hfile
    have hm := mem_filesOf.2 ⟨hpt, hfile⟩
    have hsk : file.path ∈ (read schedule request
        (survey digest request (cache, log) sources out)).skipped := by
      by_contra hns
      exact ht (.inr (.inr ⟨file.path, .inl ((mem_written_iff hd hs hc hsv).2 ⟨hpt, hns⟩), rfl⟩))
    obtain ⟨hmb, hr⟩ := rendered_skipped hd hs hc hx hsv hbi hm hsk
    rw [target?_declaration hbd hmb hi, target?_declaration hdist hm hi, hr]
  · -- no file, now or before: that of a source that has gone would have been touched
    have hno : ∀ p ∈ Keyed.keys (textsOf sources), SourcePath.declaration p ≠ name :=
      fun p hpt h => hsource ⟨p, hpt, h⟩
    rw [target?_eq_none hi hsym hno, target?_eq_none hi hsym]
    rintro p hpb rfl
    have hpt : p ∉ Keyed.keys (textsOf sources) := fun h => hno p h rfl
    have hr : p ∈ (survey digest request (cache, log) sources out).removed :=
      (mem_removed hc).2 ⟨hpb, hpt⟩
    exact ht (.inr (.inr ⟨p, .inr hr, rfl⟩))

end LuaAmbient.Generation
