/-
**Which sources a run reads.**

A run that finds a cache of the sources of an earlier one skips a source exactly if its text is still
the same, its declaration file is there, and none of the names that it refers to has moved: no path
has begun or ceased to export one of them.

Main definitions:

* `LuaAmbient.Generation.Moved` — a name that some path has begun or ceased to export.

Main results:

* `LuaAmbient.Generation.mem_skipped_iff` — **the sources that are skipped**;
* `LuaAmbient.Generation.mem_parsed_iff` — the other sources are read.
-/

import LuaAmbient.Proofs.Generation.Writing

set_option relaxedAutoImplicit false
set_option autoImplicit false

namespace LuaAmbient.Generation

open OutputStore LawfulOutputStore Emission

/-- A name that some path has begun or ceased to export. -/
def Moved (reader : SourceReader) (before after : List (String × String)) (name : String) : Prop :=
  ∃ p, ¬ (name ∈ exportsAt reader before p ↔ name ∈ exportsAt reader after p)

/-- The names that sources export can be stored. -/
def StorableExports (reader : SourceReader) (texts : List (String × String)) : Prop :=
  ∀ p, ∀ n ∈ exportsAt reader texts p, Storable n

theorem storableExports_iff {reader : SourceReader} {texts : List (String × String)} :
    StorableExports reader texts ↔
      ∀ p ∈ Keyed.keys texts, ∀ n ∈ exportsAt reader texts p, Storable n :=
  ⟨fun h p _ => h p, fun h p n hn => h p (mem_keys_of_mem_exportsAt hn) n hn⟩

instance (reader : SourceReader) (texts : List (String × String)) :
    Decidable (StorableExports reader texts) :=
  decidable_of_iff _ storableExports_iff.symm

theorem sourceOf_congr {reader : SourceReader} {texts texts' : List (String × String)}
    {path : String} (h : Keyed.get? texts path = Keyed.get? texts' path) :
    sourceOf reader texts path = sourceOf reader texts' path := by
  rw [sourceOf, sourceOf, h]

theorem exportsAt_congr {reader : SourceReader} {texts texts' : List (String × String)}
    {path : String} (h : Keyed.get? texts path = Keyed.get? texts' path) :
    exportsAt reader texts path = exportsAt reader texts' path := by
  simp only [exportsAt, Keyed.mem_keys_congr h, sourceOf_congr h]

variable {σ : Type} [OutputStore σ]

/-! ### The survey -/

section Survey

variable {digest : String → String} {request : Request} {sources : List (String × Option String)}
  {out : σ} {before : List (String × String)} {cache : RunCache} {log : List Log.Entry}

theorem mem_removed (hc : CacheOf digest request.reader before cache) {p : String} :
    p ∈ (survey digest request (cache, log) sources out).removed ↔
      p ∈ Keyed.keys before ∧ p ∉ Keyed.keys (textsOf sources) := by
  change p ∈ cache.outdated (Keyed.keys (textsOf sources)) ↔ _
  rw [RunCache.outdated, mem_orderNames, mem_dropNames, hc.mem_keys]

theorem isUpToDate_iff (hd : Function.Injective digest)
    (hc : CacheOf digest request.reader before cache)
    {left : σ} {p text : String} (ht : Keyed.get? (textsOf sources) p = some text) :
    isUpToDate digest request (cache.keepOnly (Keyed.keys (textsOf sources))) left (p, text) = true ↔
      request.force = false ∧ Keyed.get? before p = Keyed.get? (textsOf sources) p ∧
        hasOutput left p = true := by
  have hp : p ∈ Keyed.keys (textsOf sources) := Keyed.isSome_get?_iff.1 (by simp [ht])
  have hcur : (cache.keepOnly (Keyed.keys (textsOf sources))).isCurrent digest p text =
      cache.isCurrent digest p text := by
    simp only [RunCache.isCurrent, RunCache.entry?_keepOnly, if_pos hp]
    rfl
  rw [isUpToDate, hcur, Bool.and_eq_true, Bool.and_eq_true, hc.isCurrent_iff hd, ht, and_assoc]
  simp

theorem nodup_keys_textsOf (sources : List (String × Option String)) :
    (Keyed.keys (textsOf sources)).Nodup :=
  nodup_of_increasing (textsOf_increasing sources)

/-- A condition on the pairs of a list is one on their keys. -/
theorem mem_keys_filter {β : Type} {l : List (String × β)} (hn : (Keyed.keys l).Nodup)
    {c : String × β → Bool} {p : String} :
    p ∈ Keyed.keys (l.filter c) ↔ ∃ v, Keyed.get? l p = some v ∧ c (p, v) = true := by
  simp only [Keyed.get?_eq_some_iff hn, Keyed.keys, List.mem_map, List.mem_filter]
  constructor
  · rintro ⟨⟨q, v⟩, ⟨hm, hcv⟩, rfl⟩
    exact ⟨v, hm, hcv⟩
  · rintro ⟨v, hm, hcv⟩
    exact ⟨(p, v), ⟨hm, hcv⟩, rfl⟩

theorem mem_unchanged (hd : Function.Injective digest)
    (hc : CacheOf digest request.reader before cache) {p : String} :
    p ∈ (survey digest request (cache, log) sources out).unchanged ↔
      p ∈ Keyed.keys (textsOf sources) ∧ request.force = false ∧
        Keyed.get? before p = Keyed.get? (textsOf sources) p ∧
        hasOutput (survey digest request (cache, log) sources out).output p = true := by
  change p ∈ Keyed.keys ((textsOf sources).filter _) ↔ _
  rw [mem_keys_filter (nodup_keys_textsOf sources), ← Keyed.isSome_get?_iff,
    Option.isSome_iff_exists]
  constructor
  · rintro ⟨text, ht, hu⟩
    exact ⟨⟨text, ht⟩, (isUpToDate_iff hd hc ht).1 hu⟩
  · rintro ⟨⟨text, ht⟩, hu⟩
    exact ⟨text, ht, (isUpToDate_iff hd hc ht).2 hu⟩

theorem mem_changed {p : String} :
    p ∈ (survey digest request (cache, log) sources out).changed ↔
      p ∈ Keyed.keys (textsOf sources) ∧
        p ∉ (survey digest request (cache, log) sources out).unchanged := by
  change p ∈ Keyed.keys ((textsOf sources).filter _) ↔
    _ ∧ p ∉ Keyed.keys ((textsOf sources).filter _)
  rw [mem_keys_filter (nodup_keys_textsOf sources), mem_keys_filter (nodup_keys_textsOf sources),
    ← Keyed.isSome_get?_iff, Option.isSome_iff_exists]
  constructor
  · rintro ⟨text, ht, hu⟩
    refine ⟨⟨text, ht⟩, ?_⟩
    rintro ⟨text', ht', hu'⟩
    rw [ht, Option.some.injEq] at ht'
    subst ht'
    simp [hu'] at hu
  · rintro ⟨⟨text, ht⟩, hu⟩
    refine ⟨text, ht, ?_⟩
    simp only [Bool.not_eq_true']
    exact Bool.eq_false_iff.2 fun h => hu ⟨text, ht, h⟩

theorem nodup_changed : (survey digest request (cache, log) sources out).changed.Nodup :=
  (nodup_keys_textsOf sources).sublist (List.filter_sublist.map _)

theorem nodup_unchanged : (survey digest request (cache, log) sources out).unchanged.Nodup :=
  (nodup_keys_textsOf sources).sublist (List.filter_sublist.map _)

theorem mem_removedExports
    (hc : CacheOf digest request.reader before cache)
    (hx : StorableExports request.reader before) {n : String} :
    n ∈ (survey digest request (cache, log) sources out).removedExports ↔
      ∃ p, p ∉ Keyed.keys (textsOf sources) ∧
        n ∈ exportsAt request.reader before p := by
  change n ∈ (cache.entries.filter _).flatMap _ ↔ _
  simp only [List.mem_flatMap, List.mem_filter, Prod.exists]
  constructor
  · rintro ⟨p, e, ⟨hm, hp⟩, hn⟩
    refine ⟨p, by simpa [textsOf] using hp, ?_⟩
    rw [← hc.exports_eq (hx p), RunCache.entry?, (Keyed.get?_eq_some_iff hc.nodup).2 hm]
    exact hn
  · rintro ⟨p, hp, hn⟩
    rw [← hc.exports_eq (hx p)] at hn
    cases he : cache.entry? p with
    | none => simp [he] at hn
    | some e =>
        rw [he] at hn
        exact ⟨p, e, ⟨Keyed.mem_of_get?_eq_some he, by simpa [textsOf] using hp⟩, hn⟩

end Survey

/-! ### Reading -/

theorem mem_exportDifference {before after : List String} {n : String} :
    n ∈ exportDifference before after ↔ ¬ (n ∈ before ↔ n ∈ after) := by
  rw [exportDifference, List.mem_append, mem_dropNames, mem_dropNames]
  tauto

theorem mem_changedExports {cache : RunCache} {parsed : List (String × SourceDeclarations)}
    {n : String} :
    n ∈ changedExports cache parsed ↔ ∃ q ∈ parsed,
      ¬ (n ∈ ((cache.entry? q.1).map (·.exports)).getD [] ↔ n ∈ q.2.exportNames) := by
  simp only [changedExports, List.mem_flatMap, mem_exportDifference]

/-- Nothing is dropped from a cache if nothing failed. -/
theorem keepOnly_dropNames_nil (cache : RunCache) :
    cache.keepOnly (dropNames (Keyed.keys cache.entries) []) = cache := by
  have h : (cache.entries.filter fun e =>
      (dropNames (Keyed.keys cache.entries) []).contains e.1) = cache.entries := by
    refine List.filter_eq_self.2 ?_
    intro e he
    simpa using Keyed.mem_keys_of_mem he
  rw [RunCache.keepOnly, h]

theorem cachedExports_nil (cache : RunCache) :
    (cachedExports cache fun p => ([] : List String).contains p) = [] := by
  simp [cachedExports]

section Read

variable {digest : String → String} {schedule : Schedule} {request : Request}
  {sources : List (String × Option String)} {out : σ} {before : List (String × String)}
  {cache : RunCache} {log : List Log.Entry}

/-- The names whose exporters may have changed, in a run in which no source fails. -/
def movedNames (schedule : Schedule) (request : Request) (s : Survey σ) : List String :=
  changedExports s.cache (readBatch schedule request.reader s.texts s.changed).parsed ++
    s.removedExports

/-- The unchanged sources that are read, in a run in which no source fails. -/
def dependents (schedule : Schedule) (request : Request) (s : Survey σ) : List String :=
  s.unchanged.filter (usesAny s.cache (movedNames schedule request s))

omit [OutputStore σ] in
/-- What a run reads in which no source fails. -/
theorem read_of_failed_eq_nil {s : Survey σ} (h : (read schedule request s).failed = []) :
    s.unreadable = [] ∧
      (readBatch schedule request.reader s.texts s.changed).failed = [] ∧
      (readBatch schedule request.reader s.texts (dependents schedule request s)).failed = [] ∧
      (read schedule request s).parsed =
        (readBatch schedule request.reader s.texts s.changed).parsed ++
          (readBatch schedule request.reader s.texts (dependents schedule request s)).parsed ∧
      (read schedule request s).skipped = dropNames s.unchanged (dependents schedule request s) ∧
      (read schedule request s).cache = s.cache := by
  have hfirst : (readBatch schedule request.reader s.texts s.changed).failed = [] := by
    rw [read] at h
    exact (List.append_eq_nil_iff.1 (List.append_eq_nil_iff.1 h).1).2
  have hread : read schedule request s =
      { parsed := (readBatch schedule request.reader s.texts s.changed).parsed ++
          (readBatch schedule request.reader s.texts (dependents schedule request s)).parsed
        failed := s.unreadable ++ [] ++
          (readBatch schedule request.reader s.texts (dependents schedule request s)).failed
        skipped := dropNames s.unchanged (dependents schedule request s)
        cache := s.cache
        log := (readBatch schedule request.reader s.texts s.changed).log ++
          dependentsMessage (dependents schedule request s) ++
          (readBatch schedule request.reader s.texts (dependents schedule request s)).log } := by
    -- no source of the first batch has failed, so that no entry leaves the cache because of it
    simp only [read, hfirst, keepOnly_dropNames_nil, cachedExports_nil, List.append_nil]
    rfl
  rw [hread] at h ⊢
  simp only [List.append_nil, List.append_eq_nil_iff] at h
  exact ⟨h.1, hfirst, h.2, rfl, rfl, rfl⟩

variable (hd : Function.Injective digest) (hs : Complete schedule)
  (hc : CacheOf digest request.reader before cache)
  (hf : (read schedule request (survey digest request (cache, log) sources out)).failed = [])

include hd hs hc hf

/-- If no source fails, all have declarations. -/
theorem exists_sourceOf {p : String} (hp : p ∈ Keyed.keys (textsOf sources)) :
    ∃ file, sourceOf request.reader (textsOf sources) p = .ok file := by
  by_cases hu : p ∈ (survey digest request (cache, log) sources out).unchanged
  · -- the last run has read the same text
    obtain ⟨-, -, hsame, -⟩ := (mem_unchanged hd hc).1 hu
    obtain ⟨file, hfile⟩ := hc.parses ((Keyed.mem_keys_congr hsame).2 hp)
    exact ⟨file, by rw [← sourceOf_congr hsame, hfile]⟩
  · exact (failed_readBatch_eq_nil hs).1 (read_of_failed_eq_nil hf).2.1 p (mem_changed.2 ⟨hp, hu⟩)

/-- The names whose exporters may have changed are those that have moved. -/
theorem mem_movedNames (hx : StorableExports request.reader before) {n : String} :
    n ∈ movedNames schedule request (survey digest request (cache, log) sources out) ↔
      Moved request.reader before (textsOf sources) n := by
  have hentry : ∀ p ∈ Keyed.keys (textsOf sources),
      (((survey digest request (cache, log) sources out).cache.entry? p).map (·.exports)).getD [] =
        exportsAt request.reader before p := by
    intro p hp
    rw [← hc.exports_eq (hx p)]
    change ((RunCache.entry? (cache.keepOnly (Keyed.keys (textsOf sources))) p).map _).getD [] = _
    rw [RunCache.entry?_keepOnly, if_pos hp]
  rw [movedNames, List.mem_append, mem_removedExports hc hx, mem_changedExports]
  simp only [mem_parsed_readBatch hs]
  constructor
  · rintro (⟨q, ⟨hq, hok⟩, hn⟩ | ⟨p, hp, hn⟩)
    · have hp := (mem_changed.1 hq).1
      rw [hentry _ hp, ← exportsAt_of_sourceOf hp hok] at hn
      exact ⟨q.1, hn⟩
    · refine ⟨p, fun hiff => ?_⟩
      have hn' := hiff.1 hn
      rw [exportsAt_of_not_mem hp] at hn'
      exact absurd hn' List.not_mem_nil
  · rintro ⟨p, hn⟩
    by_cases hp : p ∈ Keyed.keys (textsOf sources)
    · -- an unchanged source exports what it has exported before
      obtain ⟨file, hfile⟩ := exists_sourceOf hd hs hc hf hp
      have hch : p ∈ (survey digest request (cache, log) sources out).changed := by
        refine mem_changed.2 ⟨hp, fun hu => hn ?_⟩
        rw [exportsAt_congr ((mem_unchanged hd hc).1 hu).2.2.1]
      refine .inl ⟨(p, file), ⟨hch, hfile⟩, ?_⟩
      rwa [hentry p hp, ← exportsAt_of_sourceOf hp hfile]
    · refine .inr ⟨p, hp, ?_⟩
      by_contra hb
      exact hn (by simp [hb, exportsAt_of_not_mem hp])

/-- The unchanged sources that are read are those that refer to a name that has moved. -/
theorem mem_dependents (hx : StorableExports request.reader before) {p : String}
    {file : SourceDeclarations}
    (hfile : sourceOf request.reader (textsOf sources) p = .ok file) :
    p ∈ dependents schedule request (survey digest request (cache, log) sources out) ↔
      p ∈ (survey digest request (cache, log) sources out).unchanged ∧
        ∃ n ∈ (Draft.ofFile file).foreign, Moved request.reader before (textsOf sources) n := by
  rw [dependents, List.mem_filter]
  refine and_congr_right ?_
  intro hu
  obtain ⟨hp, -, hsame, -⟩ := (mem_unchanged hd hc).1 hu
  have hb : p ∈ Keyed.keys before := (Keyed.mem_keys_congr hsame).2 hp
  obtain ⟨text, e, -, he, hr⟩ := hc.recordOf hb ((sourceOf_congr hsame).trans hfile)
  have hkept : (survey digest request (cache, log) sources out).cache.entry? p = some e := by
    change RunCache.entry? (cache.keepOnly (Keyed.keys (textsOf sources))) p = some e
    rw [RunCache.entry?_keepOnly, if_pos hp, he]
  simp only [usesAny, hkept, List.any_eq_true, Bool.or_eq_true, List.contains_iff_mem,
    mem_movedNames hd hs hc hf hx, hr.imports]
  constructor
  · rintro ⟨n, hn, hi | hm⟩
    · exact ⟨n, hi, hn⟩
    · exact ⟨n, hr.missing_subset n hm, hn⟩
  · rintro ⟨n, hi, hn⟩
    exact ⟨n, hn, .inl hi⟩

omit hd hs hc in
theorem skipped_eq :
    (read schedule request (survey digest request (cache, log) sources out)).skipped =
      dropNames (survey digest request (cache, log) sources out).unchanged
        (dependents schedule request (survey digest request (cache, log) sources out)) :=
  (read_of_failed_eq_nil hf).2.2.2.2.1

/-- **The skipped sources are those with the text of the last run and a declaration file that refer
to no name that has moved.** -/
theorem mem_skipped_iff (hx : StorableExports request.reader before) {p : String}
    {file : SourceDeclarations}
    (hfile : sourceOf request.reader (textsOf sources) p = .ok file) :
    p ∈ (read schedule request (survey digest request (cache, log) sources out)).skipped ↔
      p ∈ (survey digest request (cache, log) sources out).unchanged ∧
        ∀ n ∈ (Draft.ofFile file).foreign, ¬ Moved request.reader before (textsOf sources) n := by
  rw [skipped_eq hf, mem_dropNames, mem_dependents hd hs hc hf hx hfile]
  constructor
  · rintro ⟨hu, hno⟩
    exact ⟨hu, fun n hn hm => hno ⟨hu, n, hn, hm⟩⟩
  · rintro ⟨hu, hno⟩
    exact ⟨hu, fun ⟨_, n, hn, hm⟩ => hno n hn hm⟩

/-- The other sources are read. -/
theorem mem_parsed_iff {q : String × SourceDeclarations} :
    q ∈ (read schedule request (survey digest request (cache, log) sources out)).parsed ↔
      q.1 ∈ Keyed.keys (textsOf sources) ∧
        q.1 ∉ (read schedule request (survey digest request (cache, log) sources out)).skipped ∧
        sourceOf request.reader (textsOf sources) q.1 = .ok q.2 := by
  have hsub : ∀ p ∈ dependents schedule request
      (survey digest request (cache, log) sources out),
      p ∈ (survey digest request (cache, log) sources out).unchanged :=
    fun p hp => (List.mem_filter.1 hp).1
  rw [skipped_eq hf, (read_of_failed_eq_nil hf).2.2.2.1, List.mem_append, mem_parsed_readBatch hs,
    mem_parsed_readBatch hs, mem_changed, mem_dropNames]
  change (_ ∧ sourceOf request.reader (textsOf sources) q.1 = _) ∨
    (_ ∧ sourceOf request.reader (textsOf sources) q.1 = _) ↔ _
  rw [← or_and_right, ← and_assoc]
  refine and_congr_left ?_
  intro _
  constructor
  · rintro (⟨hp, hu⟩ | hdep)
    · exact ⟨hp, fun h => hu h.1⟩
    · exact ⟨((mem_unchanged hd hc).1 (hsub _ hdep)).1, fun h => h.2 hdep⟩
  · rintro ⟨hp, hns⟩
    by_cases hu : q.1 ∈ (survey digest request (cache, log) sources out).unchanged
    · exact .inr (by_contra fun hdep => hns ⟨hu, hdep⟩)
    · exact .inl ⟨hp, hu⟩

omit hd hc in
theorem nodup_keys_parsed :
    (Keyed.keys (read schedule request
      (survey digest request (cache, log) sources out)).parsed).Nodup := by
  rw [(read_of_failed_eq_nil hf).2.2.2.1, Keyed.keys_append, List.nodup_append]
  refine ⟨nodup_keys_parsed_readBatch hs nodup_changed,
    nodup_keys_parsed_readBatch hs (nodup_unchanged.filter _), ?_⟩
  intro p hp q hq hpq
  obtain ⟨a, ha, rfl⟩ := List.mem_map.1 hp
  obtain ⟨b, hb, rfl⟩ := List.mem_map.1 hq
  have hch := (mem_changed.1 ((mem_parsed_readBatch hs).1 ha).1).2
  have hun := (List.mem_filter.1 ((mem_parsed_readBatch hs).1 hb).1).1
  exact hch (hpq ▸ hun)

end Read

end LuaAmbient.Generation
