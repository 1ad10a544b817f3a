/-
What the cache knows about the sources of the last run.

Main definitions:

* `LuaAmbient.Generation.RecordOf` — an entry tells the digests of a source, the names that it refers
  to, and, if they can be stored, the names that it exports;
* `LuaAmbient.Generation.CacheOf` — a cache holds such an entry for every source and no other.

Main results:

* `LuaAmbient.Generation.RecordOf.restored` — an entry is as good after it has been read back;
* `LuaAmbient.Generation.CacheOf.loaded` — **the next run finds a cache of the same sources**;
* `LuaAmbient.Generation.CacheOf.isCurrent_iff` — a source is current exactly if its text is still the
  same;
* `LuaAmbient.Generation.CacheOf.symbolsText_eq` — the file of exported names.
-/

import LuaAmbient.Proofs.Generation.Store
import LuaAmbient.Proofs.Generation.Target

set_option relaxedAutoImplicit false
set_option autoImplicit false

namespace LuaAmbient.Generation

open Emission

/-! ### Entries -/

theorem foreign_increasing (file : SourceDeclarations) :
    (Draft.ofFile file).foreign.Pairwise (· < ·) :=
  sortNames_pairwise _

theorem exportNames_increasing (file : SourceDeclarations) :
    file.exportNames.Pairwise (· < ·) :=
  sortNames_pairwise _

theorem storable_foreign {reader : SourceReader} {texts : List (String × String)} {path : String}
    {file : SourceDeclarations} (h : sourceOf reader texts path = .ok file) :
    ∀ n ∈ (Draft.ofFile file).foreign, Storable n := by
  intro n hn
  have hu := (List.mem_filter.1 (mem_sortNames.1 hn)).1
  obtain ⟨log, hchunk⟩ := SourceDeclarations.exists_ofChunk_of_ofSource h
  exact TypeScript.storable_of_mayBeForeign (SourceDeclarations.usedNames_ofChunk hchunk n hu)

/-- An entry that tells the digests of a source, the names that it refers to, and, if they can be
stored, the names that it exports. -/
structure RecordOf (digest : String → String) (file : SourceDeclarations) (text : String)
    (e : CachedSource) : Prop where
  contentHash : e.contentHash = digest text
  pathHash : e.pathHash = RunCache.pathHash digest currentVersion file.path
  sourceHash : e.sourceHash = RunCache.sourceHash digest currentVersion file.path text
  imports : e.imports = (Draft.ofFile file).foreign
  missing_increasing : e.missing.Pairwise (· < ·)
  missing_subset : ∀ n ∈ e.missing, n ∈ (Draft.ofFile file).foreign
  exports : (∀ n ∈ file.exportNames, Storable n) → e.exports = file.exportNames

/-- The entry that is made of a source. -/
theorem recordOf_makeEntry (digest : String → String) (file : SourceDeclarations) (text : String)
    {missing : List String} (hm : ∀ n ∈ missing, n ∈ (Draft.ofFile file).foreign) :
    RecordOf digest file text
      (RunCache.makeEntry digest currentVersion file.path text file.exportNames
        (Draft.ofFile file).foreign missing) where
  contentHash := rfl
  pathHash := rfl
  sourceHash := rfl
  imports := sortNames_eq_self (foreign_increasing file)
  missing_increasing := sortNames_pairwise _
  missing_subset n hn := hm n (mem_sortNames.1 hn)
  exports _ := sortNames_eq_self (exportNames_increasing file)

section Restored

variable {digest : String → String} {file : SourceDeclarations} {text : String} {e : CachedSource}
  (hf : ∀ n ∈ (Draft.ofFile file).foreign, Storable n) (h : RecordOf digest file text e)

include hf h

theorem restored_imports : e.restored.imports = e.imports :=
  CachedSource.namesOfText_namesText (h.imports ▸ foreign_increasing file) (h.imports ▸ hf)

theorem restored_missing : e.restored.missing = e.missing :=
  CachedSource.namesOfText_namesText h.missing_increasing fun n hn => hf n (h.missing_subset n hn)

/-- An entry of which all names can be stored is read back as it is. -/
theorem restored_eq_self (hx : ∀ n ∈ file.exportNames, Storable n) : e.restored = e := by
  have hi := restored_imports hf h
  have hm := restored_missing hf h
  have he : e.restored.exports = e.exports := by
    rw [h.exports hx]
    exact (congrArg _ (congrArg _ (h.exports hx))).trans
      (CachedSource.namesOfText_namesText (exportNames_increasing file) hx)
  cases e
  simp_all [CachedSource.restored]

/-- An entry is as good after it has been read back. -/
theorem RecordOf.restored : RecordOf digest file text e.restored where
  contentHash := h.contentHash
  pathHash := h.pathHash
  sourceHash := h.sourceHash
  imports := (restored_imports hf h).trans h.imports
  missing_increasing := restored_missing hf h ▸ h.missing_increasing
  missing_subset := restored_missing hf h ▸ h.missing_subset
  exports hx := by rw [restored_eq_self hf h hx, h.exports hx]

end Restored

/-! ### Caches -/

/-- A cache that holds an entry for every source and no other. -/
structure CacheOf (digest : String → String) (reader : SourceReader)
    (texts : List (String × String)) (cache : RunCache) : Prop where
  version : cache.version = currentVersion
  nodup : (Keyed.keys cache.entries).Nodup
  mem_keys : ∀ p, p ∈ Keyed.keys cache.entries ↔ p ∈ Keyed.keys texts
  entry : ∀ p text, Keyed.get? texts p = some text → ∃ file e,
    sourceOf reader texts p = .ok file ∧ cache.entry? p = some e ∧ RecordOf digest file text e

theorem cacheOf_empty (digest : String → String) (reader : SourceReader) :
    CacheOf digest reader [] (RunCache.empty currentVersion) where
  version := rfl
  nodup := by simp [RunCache.empty]
  mem_keys p := by simp [RunCache.empty]
  entry p text h := by simp at h

namespace CacheOf

variable {digest : String → String} {reader : SourceReader} {texts : List (String × String)}
  {cache : RunCache}

theorem parses (h : CacheOf digest reader texts cache) {p : String} (hp : p ∈ Keyed.keys texts) :
    ∃ file, sourceOf reader texts p = .ok file := by
  obtain ⟨text, ht⟩ := Option.isSome_iff_exists.1 (Keyed.isSome_get?_iff.2 hp)
  obtain ⟨file, _, hf, _⟩ := h.entry p text ht
  exact ⟨file, hf⟩

/-- The next run finds a cache of the same sources. -/
theorem loaded (h : CacheOf digest reader texts cache) : CacheOf digest reader texts cache.reloaded where
  version := h.version
  nodup := cache.keys_reloaded_perm.nodup_iff.2 h.nodup
  mem_keys p := (cache.keys_reloaded_perm.mem_iff).trans (h.mem_keys p)
  entry p text ht := by
    obtain ⟨file, e, hf, he, hr⟩ := h.entry p text ht
    refine ⟨file, e.restored, hf, ?_, hr.restored (storable_foreign hf)⟩
    rw [RunCache.entry?_reloaded h.nodup, he]
    rfl

theorem load_render (h : CacheOf digest reader texts cache) (place : String) :
    (RunCache.load currentVersion place (some (.text cache.render))).1 = cache.reloaded := by
  rw [RunCache.load, RunCache.parse?_render h.nodup]
  simp [RunCache.reloaded, h.version]

/-- If all names can be stored, the entries are read back as they are. -/
theorem reloaded_eq (h : CacheOf digest reader texts cache)
    (hx : ∀ p, ∀ n ∈ exportsAt reader texts p, Storable n) :
    cache.reloaded = ⟨cache.version, Keyed.sorted cache.entries⟩ := by
  have hself : ∀ q ∈ Keyed.sorted cache.entries, (q.1, q.2.restored) = q := by
    rintro ⟨p, e⟩ hq
    have hm : (p, e) ∈ cache.entries := Keyed.mem_sorted.1 hq
    have hp := (h.mem_keys p).1 (Keyed.mem_keys_of_mem hm)
    obtain ⟨text, ht⟩ := Option.isSome_iff_exists.1 (Keyed.isSome_get?_iff.2 hp)
    obtain ⟨file, e', hf, he, hr⟩ := h.entry p text ht
    obtain rfl : e' = e :=
      Option.some.inj (he.symm.trans ((Keyed.get?_eq_some_iff h.nodup).2 hm))
    exact Prod.ext rfl (restored_eq_self (storable_foreign hf) hr
      (exportsAt_of_sourceOf hp hf ▸ hx p))
  rw [RunCache.reloaded, List.map_congr_left hself, List.map_id']

theorem entry?_eq_none (h : CacheOf digest reader texts cache) {p : String}
    (hp : p ∉ Keyed.keys texts) : cache.entry? p = none :=
  Keyed.get?_eq_none_iff.2 fun hk => hp ((h.mem_keys p).1 hk)

/-- What the cache knows of a source with declarations. -/
theorem recordOf (h : CacheOf digest reader texts cache) {p : String} {file : SourceDeclarations}
    (hp : p ∈ Keyed.keys texts) (hf : sourceOf reader texts p = .ok file) :
    ∃ text e, Keyed.get? texts p = some text ∧ cache.entry? p = some e ∧
      RecordOf digest file text e := by
  obtain ⟨text, ht⟩ := Option.isSome_iff_exists.1 (Keyed.isSome_get?_iff.2 hp)
  obtain ⟨file', e, hf', he, hr⟩ := h.entry p text ht
  obtain rfl : file' = file := Except.ok.inj (hf'.symm.trans hf)
  exact ⟨text, e, ht, he, hr⟩

/-- A source is current exactly if its text is still the same. -/
theorem isCurrent_iff (h : CacheOf digest reader texts cache) (hd : Function.Injective digest)
    {p text : String} : cache.isCurrent digest p text = true ↔ Keyed.get? texts p = some text := by
  rw [RunCache.isCurrent]
  cases ht : Keyed.get? texts p with
  | none =>
      rw [h.entry?_eq_none (Keyed.get?_eq_none_iff.1 ht)]
      simp
  | some old =>
      obtain ⟨file, e, hf, he, hr⟩ := h.entry p old ht
      have hs : e.sourceHash = RunCache.sourceHash digest cache.version p old := by
        rw [hr.sourceHash, h.version, sourceOf_path hf]
      simp only [he, hs, beq_iff_eq, Option.some.injEq]
      exact ⟨fun heq => RunCache.sourceHash_injective hd heq, fun heq => by rw [heq]⟩

/-- The exports that the cache knows. -/
theorem exports_eq (h : CacheOf digest reader texts cache) {p : String}
    (hx : ∀ n ∈ exportsAt reader texts p, Storable n) :
    ((cache.entry? p).map (·.exports)).getD [] = exportsAt reader texts p := by
  by_cases hp : p ∈ Keyed.keys texts
  · obtain ⟨file, hf⟩ := h.parses hp
    obtain ⟨text, e, _, he, hr⟩ := h.recordOf hp hf
    rw [exportsAt_of_sourceOf hp hf] at hx ⊢
    simp [he, hr.exports hx]
  · simp [h.entry?_eq_none hp, exportsAt, hp]

theorem get?_graph (cache : RunCache) (p : String) :
    Keyed.get? cache.graph p = (cache.entry? p).map (·.exports) :=
  Keyed.get?_map cache.entries (·.exports) p

theorem keys_graph (cache : RunCache) : Keyed.keys cache.graph = Keyed.keys cache.entries :=
  Keyed.keys_map cache.entries (·.exports)

/-- The exports of the cached files, sorted by path. -/
theorem sorted_graph (h : CacheOf digest reader texts cache)
    (hi : (Keyed.keys texts).Pairwise (· < ·))
    (hx : ∀ p, ∀ n ∈ exportsAt reader texts p, Storable n) :
    Keyed.sorted cache.graph = (Keyed.keys texts).map fun p => (p, exportsAt reader texts p) := by
  have hn : (Keyed.keys cache.graph).Nodup := by
    rw [keys_graph]
    exact h.nodup
  have hk : Keyed.keys ((Keyed.keys texts).map fun p => (p, exportsAt reader texts p)) =
      Keyed.keys texts := by
    simp [Keyed.keys, Function.comp_def]
  refine Keyed.eq_of_increasing (Keyed.sorted_increasing hn) (hk.symm ▸ hi) ?_
  intro p
  rw [Keyed.get?_sorted hn, get?_graph]
  by_cases hp : p ∈ Keyed.keys texts
  · have hm : (p, exportsAt reader texts p) ∈
        (Keyed.keys texts).map fun p => (p, exportsAt reader texts p) :=
      List.mem_map_of_mem hp
    rw [(Keyed.get?_eq_some_iff (hk.symm ▸ nodup_of_increasing hi)).2 hm]
    obtain ⟨file, hf⟩ := h.parses hp
    obtain ⟨text, e, _, he, hr⟩ := h.recordOf hp hf
    rw [exportsAt_of_sourceOf hp hf, he, Option.map_some,
      hr.exports (exportsAt_of_sourceOf hp hf ▸ hx p)]
  · rw [h.entry?_eq_none hp, Option.map_none, eq_comm, Keyed.get?_eq_none_iff, hk]
    exact hp

/-- The file of exported names. -/
theorem symbolsText_eq (h : CacheOf digest reader texts cache)
    (hi : (Keyed.keys texts).Pairwise (· < ·))
    (hx : ∀ p, ∀ n ∈ exportsAt reader texts p, Storable n) :
    symbolsText cache = symbolsOf reader texts := by
  have hb : Exporters.build [] cache.graph =
      Exporters.build [] ((Keyed.keys texts).map fun p => (p, exportsAt reader texts p)) := by
    have hk : (Keyed.keys ((Keyed.keys texts).map fun p => (p, exportsAt reader texts p))).Pairwise
        (· < ·) := by
      simpa [Keyed.keys, Function.comp_def] using hi
    simp only [Exporters.build, List.any_nil, Bool.not_false, List.filter_true,
      h.sorted_graph hi hx, Keyed.sorted_eq_self hk]
  rw [symbolsText, hb, symbolsOf, symbolsText]
  simp [RunCache.graph, Function.comp_def]

end CacheOf

end LuaAmbient.Generation
