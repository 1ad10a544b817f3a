/-
**Which files the next run writes.**

After a run that has succeeded, the next one writes the declaration files of exactly those sources
that are new, that have a new text, or that import a name that has moved.  If no source has changed,
nothing changes.

Main definitions:

* `LuaAmbient.Generation.Settled` — a directory that a run on given sources has left;
* `LuaAmbient.Generation.recordedImports` — the names that a source imports, as the cache has them.

Main results:

* `LuaAmbient.Generation.Settled.of_succeeds` — a run that succeeds leaves such a directory;
* `LuaAmbient.Generation.Settled.mem_written_iff`, `LuaAmbient.Generation.Settled.mem_skipped_iff` —
  **the sources that the next run writes**, and those that it skips;
* `LuaAmbient.Generation.Settled.output_eq` — **a run on the same sources changes nothing**.
-/

import LuaAmbient.Proofs.Generation.History

set_option relaxedAutoImplicit false
set_option autoImplicit false

namespace LuaAmbient.Generation

open OutputStore LawfulOutputStore Emission

variable {σ : Type} [OutputStore σ]

/-- The names that a source imports, as the cache in a directory has them. -/
def recordedImports (out : σ) (path : String) : List String :=
  let loaded := RunCache.load currentVersion (shown out cacheName) (OutputStore.read? out cacheName)
  ((RunCache.entry? loaded.1 path).map (·.imports)).getD []

variable [LawfulOutputStore σ]

/-- A directory that a run on given sources has left. -/
structure Settled (digest : String → String) (setup : Setup)
    (texts : List (String × String)) (out : σ) : Prop
    extends Remembers digest setup.reader texts out where
  stored : (OutputStore.read? out cacheName).isSome
  outputs : ∀ p ∈ Keyed.keys texts, hasOutput out p = true
  index : OutputStore.read? out indexName = some (.text (indexOfPaths (Keyed.keys texts)))
  symbols : setup.symbolIndex = true → OutputStore.read? out symbolsName =
    some (.text (symbolsOf setup.reader texts))

theorem Settled.unaltered {digest : String → String} {setup : Setup}
    {texts : List (String × String)} {out out' : σ}
    (h : Settled digest setup texts out) (hu : Unaltered out out') :
    Settled digest setup texts out' where
  toRemembers := h.toRemembers.unaltered hu
  stored := (hu.read? _ proper_cache).symm ▸ h.stored
  outputs p hp := by
    rw [hasOutput, hu.read? _ (h.proper p hp)]
    exact h.outputs p hp
  index := (hu.read? _ proper_index).trans h.index
  symbols hb := (hu.read? _ proper_symbols).trans (h.symbols hb)

section Run

variable {digest : String → String} {schedule : Schedule} {request : Request}
  {sources : List (String × Option String)} {out : σ} {texts : List (String × String)}
  (hd : Function.Injective digest) (hs : Complete schedule)
  (hp : ∀ p ∈ sources.map (·.1), Proper σ (SourcePath.declaration p)) {result : Result}
  (hr : Succeeds (generate digest schedule request sources out) result)

include hd hs hp hr

/-- A run that succeeds leaves the files of its sources. -/
theorem Settled.of_succeeds (h : Remembers digest request.reader texts out)
    (hdist : DistinctOutputs (textsOf sources))
    (hx : StorableExports request.reader (textsOf sources)) :
    Settled digest request.toSetup (textsOf sources)
      (generate digest schedule request sources out).output := by
  obtain ⟨cache, log, emitted, w, -, hc, hsv, -⟩ := exists_saved hs h hp hr
  have hpaths := fun p => proper_paths (p := p) h hp
  refine ⟨h.of_succeeds hd hs hp hr, ?_, fun p hpt => ?_, ?_, fun hb => ?_⟩
  · rw [read?_output_cache hd hs hc hsv h.sound hpaths]
    rfl
  · have hw := hasOutput_written hd hs hc hsv h.sound hpaths hdist hpt
    rw [hasOutput] at hw ⊢
    rw [read?_output hd hs hc hsv h.sound hpaths hdist (hpaths p (.inl hpt)),
      if_neg (declaration_ne_cacheName p), if_neg fun hn => declaration_ne_symbolsName p hn.2]
    split
    · rfl
    · exact hw
  · rw [read?_output hd hs hc hsv h.sound hpaths hdist proper_index, if_neg (by decide),
      if_neg fun hn => absurd hn.2 (by decide), if_pos rfl]
  · rw [read?_output hd hs hc hsv h.sound hpaths hdist proper_symbols, if_neg (by decide),
      if_pos ⟨hb, rfl⟩,
      (cacheOf_saved hd hs hc hsv).symbolsText_eq (textsOf_increasing sources) hx]

omit hd hs hp hr in
/-- The cache has the names that the declarations of a source refer to. -/
theorem Remembers.recordedImports_eq {reader : SourceReader} (h : Remembers digest reader texts out)
    {p : String} {file : SourceDeclarations} (hpt : p ∈ Keyed.keys texts)
    (hf : sourceOf reader texts p = .ok file) :
    recordedImports out p = (Draft.ofFile file).foreign := by
  rw [recordedImports]
  rcases h.cache with ⟨rfl, -⟩ | ⟨cache, hc, hread⟩
  · simp at hpt
  · obtain ⟨text, e, -, he, hrec⟩ := hc.loaded.recordOf hpt hf
    rw [hread, hc.load_render, he, Option.map_some, Option.getD_some, hrec.imports]

variable (h : Settled digest request.toSetup texts out)
  (hforce : request.force = false)
  (hdist : ∀ p q, p ∈ Keyed.keys texts ∨ p ∈ Keyed.keys (textsOf sources) →
    q ∈ Keyed.keys texts ∨ q ∈ Keyed.keys (textsOf sources) →
    SourcePath.declaration p = SourcePath.declaration q → p = q)
  (hx : StorableExports request.reader texts)

include h

/-- The skipped sources are those that are not written. -/
theorem Settled.mem_skipped_iff {p : String} :
    p ∈ result.skipped ↔ p ∈ Keyed.keys (textsOf sources) ∧ p ∉ result.written := by
  obtain ⟨cache, log, emitted, w, -, hc, hsv, rfl⟩ := exists_saved hs h.toRemembers hp hr
  rw [Generation.mem_written_iff hd hs hc hsv]
  constructor
  · intro hsk
    exact ⟨(skipped_cached hd hc hsv.failed hsk).1, fun hw => hw.2 hsk⟩
  · rintro ⟨hpt, hnw⟩
    exact by_contra fun hns => hnw ⟨hpt, hns⟩

include hforce hdist hx in
/-- **The next run writes the declaration files of exactly those sources that are new or have a new
text, or that import a name that has moved.** -/
theorem Settled.mem_written_iff {p : String} :
    p ∈ result.written ↔ p ∈ Keyed.keys (textsOf sources) ∧
      (Keyed.get? texts p ≠ Keyed.get? (textsOf sources) p ∨
        ∃ n ∈ recordedImports out p, Moved request.reader texts (textsOf sources) n) := by
  obtain ⟨cache, log, emitted, w, -, hc, hsv, rfl⟩ := exists_saved hs h.toRemembers hp hr
  have hpaths := fun p => proper_paths (p := p) h.toRemembers hp
  rw [comparedTexts_of_not_force hforce] at hc hpaths
  rw [Generation.mem_written_iff hd hs hc hsv]
  refine and_congr_right ?_
  intro hpt
  obtain ⟨file, hfile⟩ := exists_sourceOf hd hs hc hsv.failed hpt
  rw [Generation.mem_skipped_iff hd hs hc hsv.failed hx hfile, mem_unchanged hd hc]
  by_cases hsame : Keyed.get? texts p = Keyed.get? (textsOf sources) p
  · have hpb : p ∈ Keyed.keys texts := (Keyed.mem_keys_congr hsame).2 hpt
    -- the declaration file of the source is still there: none of those that have gone had the same
    have hout : hasOutput (survey digest request (cache, log) sources out).output p = true := by
      rw [hasOutput, read?_survey hc h.sound hpaths (hpaths p (.inl hpt)), if_neg]
      · exact h.outputs p hpb
      · rintro ⟨q, hq, heq⟩
        obtain ⟨hqb, hqt⟩ := (mem_removed hc).1 hq
        exact hqt (hdist p q (.inl hpb) (.inl hqb) heq ▸ hpt)
    rw [h.recordedImports_eq hpb ((sourceOf_congr hsame).trans hfile)]
    simp [hpt, hforce, hsame, hout]
  · simp [hsame]

/-! ### The same sources -/

include hforce hdist hx in
theorem Settled.written_eq_nil (hsame : textsOf sources = texts) : result.written = [] := by
  rw [List.eq_nil_iff_forall_not_mem]
  intro p hw
  rw [h.mem_written_iff hd hs hp hr hforce hdist hx, hsame] at hw
  rcases hw.2 with hne | ⟨n, -, q, hmoved⟩
  · exact hne rfl
  · exact hmoved Iff.rfl

omit hd hs hp hr h [LawfulOutputStore σ] in
/-- If the sources are those of the cache, none has gone and nothing is removed. -/
theorem output_survey_of_same {cache : RunCache} {log : List Log.Entry}
    (hc : CacheOf digest request.reader texts cache) (hsame : textsOf sources = texts) :
    (survey digest request (cache, log) sources out).output = out := by
  have hremoved : (survey digest request (cache, log) sources out).removed = [] := by
    rw [List.eq_nil_iff_forall_not_mem]
    intro p hpr
    obtain ⟨hpb, hpt⟩ := (mem_removed hc).1 hpr
    exact hpt (hsame.symm ▸ hpb)
  change (removeOutputs "Removed " (survey digest request (cache, log) sources out).removed out).1 =
    out
  rw [hremoved, removeOutputs_nil]

omit hd hs hp hr h [LawfulOutputStore σ] in
include hx in
/-- A run that writes no declaration files saves the cache that it has loaded. -/
theorem render_saved_of_same {old : RunCache} {log : List Log.Entry}
    (hold : CacheOf digest request.reader texts old)
    (hc : CacheOf digest request.reader texts old.reloaded) {o : Outcome σ} {w : Writing σ}
    (hsv : Saved digest request (survey digest request (old.reloaded, log) sources out)
      (read schedule request (survey digest request (old.reloaded, log) sources out)) o [] w)
    (hsame : textsOf sources = texts) : w.cache.render = old.render := by
  have hall : (old.reloaded.keepOnly (Keyed.keys (textsOf sources))).entries =
      old.reloaded.entries := by
    refine List.filter_eq_self.2 ?_
    intro e he
    rw [List.contains_iff_mem, hsame, ← hc.mem_keys]
    exact Keyed.mem_keys_of_mem he
  rw [cache_saved hc hsv, List.map_nil, List.foldl_nil, hall, hold.reloaded_eq hx, ← hold.version]
  exact (RunCache.render_congr hold.nodup (Keyed.sorted_perm old.entries).symm).symm

include hforce hdist hx in
/-- **A run on the same sources changes nothing.** -/
theorem Settled.output_eq (hsame : textsOf sources = texts) :
    result.written = [] ∧ (generate digest schedule request sources out).output = out := by
  have hnone := h.written_eq_nil hd hs hp hr hforce hdist hx hsame
  refine ⟨hnone, ?_⟩
  obtain ⟨cache, log, emitted, w, hload, hc, hsv, rfl⟩ := exists_saved hs h.toRemembers hp hr
  have hpaths := fun p => proper_paths (p := p) h.toRemembers hp
  rw [comparedTexts_of_not_force hforce] at hc hpaths
  have hd' : DistinctOutputs (textsOf sources) := fun p hpm q hqm => hdist p q (.inr hpm) (.inr hqm)
  obtain rfl : emitted = [] := List.map_eq_nil_iff.1 (orderNames_eq_nil.1 hnone)
  have hw : w.output = out := by
    have hfiles := Except.ok.inj hsv.files
    rw [← hfiles]
    exact output_survey_of_same hc hsame
  -- the index, the file of exported names and the cache are replaced by what they hold already
  have hindexed : indexed (Keyed.keys (textsOf sources)) w.output = out := by
    rw [indexed, indexText_written hd hs hc hsv h.sound hpaths hd', hw, hsame]
    exact write_self h.sound proper_index h.index
  have hsymbolized : symbolized request (Keyed.keys (textsOf sources)) w.cache w.output = out := by
    rw [symbolized, hindexed]
    split
    · next hb =>
      rw [(cacheOf_saved hd hs hc hsv).symbolsText_eq (textsOf_increasing sources) (hsame ▸ hx), hsame]
      exact replace_self h.sound proper_symbols (h.symbols hb)
    · rfl
  have hcache : OutputStore.read? out cacheName = some (.text w.cache.render) := by
    rcases h.cache with ⟨-, hnone⟩ | ⟨old, hold, hread⟩
    · simpa [hnone] using h.stored
    · obtain rfl : cache = old.reloaded := by
        rw [loadCache, hforce, hread] at hload
        exact (congrArg Prod.fst hload).symm.trans (hold.load_render _)
      rw [hread, render_saved_of_same hx hold hc hsv hsame]
  have hout : (generate digest schedule request sources out).output =
      replace (symbolized request (Keyed.keys (textsOf sources)) w.cache w.output) cacheName
        w.cache.render := hsv.output
  rw [hout, hsymbolized]
  exact replace_self h.sound proper_cache hcache

end Run

end LuaAmbient.Generation
