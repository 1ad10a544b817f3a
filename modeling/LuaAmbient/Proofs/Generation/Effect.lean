/-
**What a run leaves that has come to its end.**

Main definitions:

* `LuaAmbient.Generation.Touched` — the names of the files that such a run has written or removed.

Main results:

* `LuaAmbient.Generation.mem_written_iff` — the written sources are those that were not skipped;
* `LuaAmbient.Generation.cacheOf_saved` — the new cache is one of the sources of the run;
* `LuaAmbient.Generation.sound_output`, `LuaAmbient.Generation.read?_output` — **the directory after
  the run**.
-/

import LuaAmbient.Proofs.Generation.Skipping

set_option relaxedAutoImplicit false
set_option autoImplicit false

namespace LuaAmbient.Generation

open OutputStore LawfulOutputStore Emission

variable {σ : Type} [OutputStore σ]

/-! ### Declaration files -/

section Files

variable {digest : String → String} {texts : List (String × String)}

/-- The written files hold their texts. -/
theorem read?_writeFiles [LawfulOutputStore σ] {files : List DeclarationFile} {w w' : Writing σ}
    (h : writeFiles digest texts files w = .ok w') (hs : Sound w.output)
    (hp : ∀ f ∈ files, Proper σ (SourcePath.declaration f.path))
    (hn : (files.map fun f => SourcePath.declaration f.path).Nodup) :
    ∀ f ∈ files, read? w'.output (SourcePath.declaration f.path) = some (.text f.text) := by
  induction files generalizing w with
  | nil => simp
  | cons file rest ih =>
      have hfile := hp file List.mem_cons_self
      have hrest : ∀ f ∈ rest, Proper σ (SourcePath.declaration f.path) :=
        fun f hf => hp f (List.mem_cons_of_mem _ hf)
      rw [List.map_cons, List.nodup_cons] at hn
      by_cases hc : canWrite w.output (SourcePath.declaration file.path) = true
      · rw [writeFiles, if_pos hc] at h
        have hs' : Sound (writeFile digest texts w file).output := sound_write hs hfile hc
        intro f hf
        rcases List.mem_cons.1 hf with rfl | hf
        · -- the files behind it have other names
          have hother : ¬ emittedNames rest (SourcePath.declaration f.path) := by
            rintro ⟨g, hg, he⟩
            exact hn.1 (List.mem_map.2 ⟨g, hg, he.symm⟩)
          rw [(writeFiles_steps (.inl h)).read?_eq (by rintro n ⟨g, hg, rfl⟩; exact hrest g hg) hs'
            hfile hother]
          exact (read?_write hs hfile hc hfile).trans (if_pos rfl)
        · exact ih h hs' hrest hn.2 f hf
      · simp [writeFiles, hc] at h

/-- What the cache of a run records of a written file. -/
def recordFile (digest : String → String) (texts : List (String × String)) (version : String)
    (f : DeclarationFile) : CachedSource :=
  RunCache.makeEntry digest version f.path ((Keyed.get? texts f.path).getD "") f.exports f.imports
    f.missing

theorem cache_writeFiles {files : List DeclarationFile} {w w' : Writing σ}
    (h : writeFiles digest texts files w = .ok w') :
    w'.cache = files.foldl (fun c f => c.record digest f.path
      ((Keyed.get? texts f.path).getD "") f.exports f.imports f.missing) w.cache := by
  induction files generalizing w with
  | nil => simp_all [writeFiles]
  | cons file rest ih =>
      by_cases hc : canWrite w.output (SourcePath.declaration file.path) = true
      · rw [writeFiles, if_pos hc] at h
        exact ih h
      · simp [writeFiles, hc] at h

theorem entries_foldl_record (files : List DeclarationFile) (cache : RunCache) :
    files.foldl (fun c f => c.record digest f.path ((Keyed.get? texts f.path).getD "") f.exports
        f.imports f.missing) cache =
      ⟨cache.version, (files.map fun f => (f.path, recordFile digest texts cache.version f)).foldl
        (fun l p => Keyed.put l p.1 p.2) cache.entries⟩ := by
  induction files generalizing cache with
  | nil => rfl
  | cons file rest ih =>
      rw [List.foldl_cons, ih, List.map_cons, List.foldl_cons]
      rfl

end Files

/-! ### The sources that are read -/

section Read

variable {digest : String → String} {schedule : Schedule} {request : Request}
  {sources : List (String × Option String)} {out : σ} {before : List (String × String)}
  {cache : RunCache} {log : List Log.Entry}
  (hd : Function.Injective digest) (hs : Complete schedule)
  (hc : CacheOf digest request.reader before cache)
  (hf : (read schedule request (survey digest request (cache, log) sources out)).failed = [])

include hd hs hc hf

theorem map_path_parsed :
    ((read schedule request (survey digest request (cache, log) sources out)).parsed.map (·.2)).map
        (·.path) =
      Keyed.keys (read schedule request (survey digest request (cache, log) sources out)).parsed := by
  rw [List.map_map]
  refine List.map_congr_left ?_
  intro q hq
  exact sourceOf_path ((mem_parsed_iff hd hs hc hf).1 hq).2.2

theorem nodup_path_parsed :
    (((read schedule request (survey digest request (cache, log) sources out)).parsed.map (·.2)).map
      (·.path)).Nodup := by
  rw [map_path_parsed hd hs hc hf]
  exact nodup_keys_parsed hs hf

omit hs in
theorem skipped_cached {p : String}
    (hp : p ∈ (read schedule request (survey digest request (cache, log) sources out)).skipped) :
    p ∈ Keyed.keys (textsOf sources) ∧ p ∈ Keyed.keys before ∧
      Keyed.get? before p = Keyed.get? (textsOf sources) p := by
  rw [skipped_eq hf] at hp
  obtain ⟨hp, -, hsame, -⟩ := (mem_unchanged hd hc).1 (mem_dropNames.1 hp).1
  exact ⟨hp, (Keyed.mem_keys_congr hsame).2 hp, hsame⟩

end Read

/-! ### The sources that are written -/

section Saved

variable {digest : String → String} {schedule : Schedule} {request : Request}
  {sources : List (String × Option String)} {out : σ} {before : List (String × String)}
  {cache : RunCache} {log : List Log.Entry} {o : Outcome σ} {emitted : List DeclarationFile}
  {w : Writing σ}
  (hd : Function.Injective digest) (hs : Complete schedule)
  (hc : CacheOf digest request.reader before cache)
  (hsv : Saved digest request (survey digest request (cache, log) sources out)
    (read schedule request (survey digest request (cache, log) sources out)) o emitted w)

include hd hs hc hsv

/-- The paths of the emitted files are those of the sources that were not skipped. -/
theorem mem_path_emitted {p : String} :
    p ∈ emitted.map (·.path) ↔ p ∈ Keyed.keys (textsOf sources) ∧
      p ∉ (read schedule request (survey digest request (cache, log) sources out)).skipped := by
  have hn := nodup_path_parsed hd hs hc hsv.failed
  have hperm : ∀ q, q ∈ (draftAll ((read schedule request (survey digest request (cache, log)
      sources out)).parsed.map (·.2))).map (·.path) ↔
      q ∈ Keyed.keys (read schedule request (survey digest request (cache, log) sources
        out)).parsed := by
    intro q
    rw [← map_path_parsed hd hs hc hsv.failed]
    constructor
    · intro hq
      obtain ⟨d, hdm, rfl⟩ := List.mem_map.1 hq
      exact path_mem_of_mem_draftAll hdm
    · intro hq
      obtain ⟨f, hf, rfl⟩ := List.mem_map.1 hq
      exact List.mem_map.2 ⟨Draft.ofFile f, (mem_draftAll hn).2 ⟨f, hf, rfl⟩, rfl⟩
  rw [map_path_produce hsv.emission, hperm]
  constructor
  · intro hk
    obtain ⟨q, hq, rfl⟩ := List.mem_map.1 hk
    obtain ⟨hp, hns, -⟩ := (mem_parsed_iff hd hs hc hsv.failed).1 hq
    exact ⟨hp, hns⟩
  · rintro ⟨hp, hns⟩
    obtain ⟨file, hfile⟩ := exists_sourceOf hd hs hc hsv.failed hp
    exact List.mem_map.2 ⟨(p, file), (mem_parsed_iff hd hs hc hsv.failed).2 ⟨hp, hns, hfile⟩, rfl⟩

theorem emitted_increasing : (emitted.map (·.path)).Pairwise (· < ·) := by
  rw [map_path_produce hsv.emission]
  exact draftAll_increasing (nodup_path_parsed hd hs hc hsv.failed)

/-- Every emitted file is that of a source. -/
theorem exists_source_of_emitted {f : DeclarationFile} (hf : f ∈ emitted) :
    ∃ file, sourceOf request.reader (textsOf sources) f.path = .ok file ∧
      complete request.settings.stubs (Exporters.build
        (draftAll ((read schedule request (survey digest request (cache, log) sources
          out)).parsed.map (·.2)))
        (survey digest request (cache, log) sources out).cache.graph) (Draft.ofFile file) = .ok f := by
  obtain ⟨file, hfile, hpath, hcomp⟩ :=
    exists_source_of_produce (nodup_path_parsed hd hs hc hsv.failed) hsv.emission f hf
  obtain ⟨q, hq, rfl⟩ := List.mem_map.1 hfile
  have hsource := ((mem_parsed_iff hd hs hc hsv.failed).1 hq).2.2
  rw [(read_of_failed_eq_nil hsv.failed).2.2.2.2.2] at hcomp
  refine ⟨q.2, ?_, hcomp⟩
  rw [← hpath, sourceOf_path hsource, hsource]

/-- The written sources are those that were not skipped. -/
theorem mem_written_iff {p : String} :
    p ∈ (report (survey digest request (cache, log) sources out)
        (read schedule request (survey digest request (cache, log) sources out)) emitted).written ↔
      p ∈ Keyed.keys (textsOf sources) ∧
        p ∉ (read schedule request (survey digest request (cache, log) sources out)).skipped := by
  change p ∈ orderNames (emitted.map (·.path)) ↔ _
  rw [mem_orderNames, mem_path_emitted hd hs hc hsv]

/-! ### The new cache -/

omit hd hs in
theorem cache_saved :
    w.cache = ⟨currentVersion, (emitted.map fun f => (f.path,
      recordFile digest (textsOf sources) currentVersion f)).foldl
        (fun l p => Keyed.put l p.1 p.2)
        (cache.keepOnly (Keyed.keys (textsOf sources))).entries⟩ := by
  have hw := cache_writeFiles hsv.files
  rw [entries_foldl_record, (read_of_failed_eq_nil hsv.failed).2.2.2.2.2] at hw
  rw [hw, ← hc.version]
  rfl

/-- An emitted file records its source. -/
theorem recordOf_emitted {f : DeclarationFile} (hf : f ∈ emitted) {text : String}
    (ht : Keyed.get? (textsOf sources) f.path = some text) :
    ∃ file, sourceOf request.reader (textsOf sources) f.path = .ok file ∧
      RecordOf digest file text (recordFile digest (textsOf sources) currentVersion f) := by
  obtain ⟨file, hfile, hcomp⟩ := exists_source_of_emitted hd hs hc hsv hf
  refine ⟨file, hfile, ?_⟩
  obtain ⟨head, -, hfeq⟩ := complete_eq_ok_iff.1 hcomp
  have hmissing : ∀ n ∈ f.missing, n ∈ (Draft.ofFile file).foreign := by
    rw [hfeq]
    exact fun n hn => (List.mem_filter.1 hn).1
  have hrec := recordOf_makeEntry digest file text hmissing
  have heq : recordFile digest (textsOf sources) currentVersion f =
      RunCache.makeEntry digest currentVersion file.path text file.exportNames
        (Draft.ofFile file).foreign f.missing := by
    rw [recordFile, ht, sourceOf_path hfile, Option.getD_some, hfeq]
    rfl
  rw [heq]
  exact hrec

/-- The new cache is one of the sources of the run. -/
theorem cacheOf_saved : CacheOf digest request.reader (textsOf sources) w.cache := by
  have hkept : (Keyed.keys (cache.keepOnly (Keyed.keys (textsOf sources))).entries).Nodup := by
    rw [RunCache.keys_keepOnly]
    exact hc.nodup.filter _
  have hkeys : Keyed.keys (emitted.map fun f =>
      (f.path, recordFile digest (textsOf sources) currentVersion f)) = emitted.map (·.path) := by
    simp [Keyed.keys, Function.comp_def]
  have hemitted := nodup_of_increasing (emitted_increasing hd hs hc hsv)
  rw [cache_saved hc hsv]
  refine ⟨rfl, Keyed.nodup_keys_foldl_put _ _ hkept, fun p => ?_, fun p text ht => ?_⟩
  · rw [Keyed.mem_keys_foldl_put, RunCache.keys_keepOnly, hkeys, List.mem_filter, hc.mem_keys,
      mem_path_emitted hd hs hc hsv]
    constructor
    · rintro (⟨-, hp⟩ | ⟨hp, -⟩)
      · simpa using hp
      · exact hp
    · intro hp
      by_cases hsk : p ∈ (read schedule request
          (survey digest request (cache, log) sources out)).skipped
      · exact .inl ⟨(skipped_cached hd hc hsv.failed hsk).2.1, by simpa using hp⟩
      · exact .inr ⟨hp, hsk⟩
  · have hp : p ∈ Keyed.keys (textsOf sources) := Keyed.isSome_get?_iff.1 (by simp [ht])
    rw [RunCache.entry?, Keyed.get?_foldl_put (hkeys.symm ▸ hemitted)]
    by_cases he : p ∈ emitted.map (·.path)
    · -- the entry has just been made
      obtain ⟨f, hf, rfl⟩ := List.mem_map.1 he
      obtain ⟨file, hfile, hrec⟩ := recordOf_emitted hd hs hc hsv hf ht
      have hm : (f.path, recordFile digest (textsOf sources) currentVersion f) ∈
          emitted.map fun f => (f.path, recordFile digest (textsOf sources) currentVersion f) :=
        List.mem_map_of_mem hf
      rw [(Keyed.get?_eq_some_iff (hkeys.symm ▸ hemitted)).2 hm]
      exact ⟨file, _, hfile, rfl, hrec⟩
    · -- the entry is that of the last run, which has read the same text
      have hsk : p ∈ (read schedule request
          (survey digest request (cache, log) sources out)).skipped :=
        by_contra fun hns => he ((mem_path_emitted hd hs hc hsv).2 ⟨hp, hns⟩)
      obtain ⟨-, -, hsame⟩ := skipped_cached hd hc hsv.failed hsk
      obtain ⟨file, e, hfile, hentry, hrec⟩ := hc.entry p text (hsame.trans ht)
      refine ⟨file, e, (sourceOf_congr hsame) ▸ hfile, ?_, hrec⟩
      rw [Keyed.get?_eq_none_iff.2 (hkeys.symm ▸ he), Option.none_or]
      have hk := RunCache.entry?_keepOnly cache (Keyed.keys (textsOf sources)) p
      rw [if_pos hp, hentry] at hk
      exact hk

/-! ### The files -/

/-- The names of the files that a run has written or removed. -/
def Touched (request : Request) (result : Result) (name : String) : Prop :=
  name = indexName ∨ (request.symbolIndex = true ∧ name = symbolsName) ∨
    ∃ p, (p ∈ result.written ∨ p ∈ result.removed) ∧ name = SourcePath.declaration p

variable [LawfulOutputStore σ] (ho : Sound out)
  (hp : ∀ p, p ∈ Keyed.keys (textsOf sources) ∨ p ∈ Keyed.keys before →
    Proper σ (SourcePath.declaration p))

include ho hp

omit hd hs hsv in
theorem sound_survey : Sound (survey digest request (cache, log) sources out).output := by
  refine (removeOutputs_steps "Removed " (survey digest request (cache, log) sources out).removed
    out).sound ?_ ho
  rintro n ⟨p, hr, rfl⟩
  exact hp p (.inr ((mem_removed hc).1 hr).1)

omit hd hs hsv in
theorem read?_survey {name : String} (hn : Proper σ name) :
    read? (survey digest request (cache, log) sources out).output name =
      if ∃ p ∈ (survey digest request (cache, log) sources out).removed,
        name = SourcePath.declaration p then none else read? out name :=
  read?_removeOutputs (fun p hr => hp p (.inr ((mem_removed hc).1 hr).1)) ho hn

omit ho in
theorem proper_emitted {f : DeclarationFile} (hf : f ∈ emitted) :
    Proper σ (SourcePath.declaration f.path) :=
  hp f.path (.inl ((mem_path_emitted hd hs hc hsv).1 (List.mem_map_of_mem hf)).1)

theorem sound_written : Sound w.output :=
  (writeFiles_steps (.inl hsv.files)).sound
    (by rintro n ⟨f, hf, rfl⟩; exact proper_emitted hd hs hc hsv hp hf) (sound_survey hc ho hp)

theorem sound_symbolized :
    Sound (symbolized request (Keyed.keys (textsOf sources)) w.cache w.output) := by
  refine (symbolized_steps hsv.index hsv.symbols).sound ?_ (sound_written hd hs hc hsv ho hp)
  rintro n (rfl | rfl)
  · exact proper_index
  · exact proper_symbols

theorem sound_output : Sound o.output := by
  rw [hsv.output]
  exact sound_replace (sound_symbolized hd hs hc hsv ho hp) proper_cache hsv.cache

theorem read?_output_cache : read? o.output cacheName = some (.text w.cache.render) := by
  rw [hsv.output]
  exact (read?_replace (sound_symbolized hd hs hc hsv ho hp) proper_cache hsv.cache
    proper_cache).trans (if_pos rfl)

variable (hdist : DistinctOutputs (textsOf sources))

omit ho hp in
include hdist in
omit [LawfulOutputStore σ] in
theorem nodup_emittedNames : (emitted.map fun f => SourcePath.declaration f.path).Nodup := by
  have hmap : (emitted.map fun f => SourcePath.declaration f.path) =
      (emitted.map (·.path)).map SourcePath.declaration := by
    rw [List.map_map]
    rfl
  rw [hmap]
  refine List.Nodup.map_on ?_ (nodup_of_increasing (emitted_increasing hd hs hc hsv))
  intro p hpm q hqm heq
  exact hdist p ((mem_path_emitted hd hs hc hsv).1 hpm).1 q
    ((mem_path_emitted hd hs hc hsv).1 hqm).1 heq

theorem read?_written {name : String} (hn : Proper σ name) (hne : ¬ emittedNames emitted name) :
    read? w.output name = read? (survey digest request (cache, log) sources out).output name :=
  (writeFiles_steps (.inl hsv.files)).read?_eq
    (by rintro n ⟨f, hf, rfl⟩; exact proper_emitted hd hs hc hsv hp hf) (sound_survey hc ho hp)
    hn hne

include hdist

theorem read?_emitted {f : DeclarationFile} (hf : f ∈ emitted) :
    read? w.output (SourcePath.declaration f.path) = some (.text f.text) :=
  read?_writeFiles hsv.files (sound_survey hc ho hp)
    (fun _ hg => proper_emitted hd hs hc hsv hp hg) (nodup_emittedNames hd hs hc hsv hdist) f hf

omit ho hp [LawfulOutputStore σ] in
theorem not_emittedNames_of_skipped {p : String}
    (hsk : p ∈ (read schedule request (survey digest request (cache, log) sources out)).skipped) :
    ¬ emittedNames emitted (SourcePath.declaration p) := by
  rintro ⟨f, hf, heq⟩
  have hfp := (mem_path_emitted hd hs hc hsv).1 (List.mem_map_of_mem hf)
  obtain rfl := hdist p (skipped_cached hd hc hsv.failed hsk).1 f.path hfp.1 heq
  exact hfp.2 hsk

/-- Every source has its declaration file when the index is written. -/
theorem hasOutput_written {p : String} (hpt : p ∈ Keyed.keys (textsOf sources)) :
    hasOutput w.output p = true := by
  rw [hasOutput]
  by_cases hsk : p ∈ (read schedule request
      (survey digest request (cache, log) sources out)).skipped
  · rw [read?_written hd hs hc hsv ho hp (hp p (.inl hpt))
      (not_emittedNames_of_skipped hd hs hc hsv hdist hsk)]
    rw [skipped_eq hsv.failed] at hsk
    exact ((mem_unchanged hd hc).1 (mem_dropNames.1 hsk).1).2.2.2
  · obtain ⟨f, hf, rfl⟩ := List.mem_map.1 ((mem_path_emitted hd hs hc hsv).2 ⟨hpt, hsk⟩)
    rw [read?_emitted hd hs hc hsv ho hp hdist hf]
    rfl

theorem indexText_written :
    indexText w.output (Keyed.keys (textsOf sources)) =
      indexOfPaths (Keyed.keys (textsOf sources)) := by
  have hall : (Keyed.keys (textsOf sources)).filter (hasOutput w.output) =
      Keyed.keys (textsOf sources) :=
    List.filter_eq_self.2 fun p hpt => hasOutput_written hd hs hc hsv ho hp hdist hpt
  rw [indexText, hall, indexOfPaths]

/-- The files after the run. -/
theorem read?_output {name : String} (hn : Proper σ name) :
    read? o.output name =
      if name = cacheName then some (.text w.cache.render)
      else if request.symbolIndex = true ∧ name = symbolsName then
        some (.text (symbolsText w.cache))
      else if name = indexName then some (.text (indexOfPaths (Keyed.keys (textsOf sources))))
      else read? w.output name := by
  -- the index is written first, then the file of exported names, and the cache at last
  have hsw := sound_written hd hs hc hsv ho hp
  have hsi : Sound (indexed (Keyed.keys (textsOf sources)) w.output) :=
    sound_write hsw (proper_index) hsv.index
  have hri : read? (indexed (Keyed.keys (textsOf sources)) w.output) name =
      if name = indexName then some (.text (indexOfPaths (Keyed.keys (textsOf sources))))
      else read? w.output name := by
    rw [indexed, read?_write hsw proper_index hsv.index hn,
      indexText_written hd hs hc hsv ho hp hdist]
  have hrs : read? (symbolized request (Keyed.keys (textsOf sources)) w.cache w.output) name =
        if request.symbolIndex = true ∧ name = symbolsName then
          some (.text (symbolsText w.cache))
        else read? (indexed (Keyed.keys (textsOf sources)) w.output) name := by
    rw [symbolized]
    cases hb : request.symbolIndex with
    | false => simp
    | true =>
        simp only [if_true, true_and]
        exact read?_replace hsi proper_symbols (hsv.symbols hb) hn
  have hout : o.output = replace (symbolized request (Keyed.keys (textsOf sources)) w.cache w.output)
      cacheName w.cache.render := hsv.output
  rw [hout, read?_replace (sound_symbolized hd hs hc hsv ho hp) proper_cache hsv.cache hn]
  refine if_congr Iff.rfl rfl ?_
  rw [← hri]
  exact hrs

end Saved

end LuaAmbient.Generation
