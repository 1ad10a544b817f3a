/-
**Every source of a run is accounted for.**

Whatever a run finds in its output directory, it divides its sources into those that have failed,
those that it has read and those that it skips.  If it comes to its end, the sources that were read
are written, the declaration files of the failed ones are removed, and the index lists all others.
Nothing is asked of the cache that is found: it may have been made up.

Main definitions:

* `LuaAmbient.Generation.Division` — the sources of a run, divided;
* `LuaAmbient.Generation.Ended` — a run that has come to its end, with or without failed sources;
* `LuaAmbient.Generation.Accounts` — **what a run reports and leaves for all its sources**.

Main results:

* `LuaAmbient.Generation.division_read` — a run divides its sources;
* `LuaAmbient.Generation.exists_ended` — what a run has done that returns a result;
* `LuaAmbient.Generation.accounts_of_finish` — **a run that returns accounts for its sources**.
-/

import LuaAmbient.Proofs.Generation.Effect

set_option relaxedAutoImplicit false
set_option autoImplicit false

namespace LuaAmbient.Generation

open OutputStore LawfulOutputStore Emission

variable {σ : Type} [OutputStore σ]

/-! ### Sources with and without a text -/

section Sources

variable {sources : List (String × Option String)}

theorem mem_keys_textsOf_iff {p : String} :
    p ∈ Keyed.keys (textsOf sources) ↔ ∃ text, (p, some text) ∈ sources := by
  rw [textsOf, (Keyed.keys_sorted_perm _).mem_iff, Keyed.mem_keys_ofList, Keyed.keys, readable]
  simp

theorem mem_unreadable_iff {p : String} : p ∈ unreadable sources ↔ (p, none) ∈ sources := by
  simp [unreadable]

/-- A source has a text or cannot be read. -/
theorem mem_paths_iff {p : String} :
    p ∈ sources.map (·.1) ↔ p ∈ Keyed.keys (textsOf sources) ∨ p ∈ unreadable sources := by
  rw [mem_keys_textsOf_iff, mem_unreadable_iff]
  constructor
  · intro h
    obtain ⟨⟨q, text | text⟩, hs, rfl⟩ := List.mem_map.1 h
    · exact .inr hs
    · exact .inl ⟨text, hs⟩
  · rintro (⟨text, h⟩ | h)
    · exact List.mem_map_of_mem h
    · exact List.mem_map_of_mem h

/-- No source with a text is one that cannot be read. -/
theorem not_mem_unreadable (hn : (sources.map (·.1)).Nodup) {p : String}
    (h : p ∈ Keyed.keys (textsOf sources)) : p ∉ unreadable sources := by
  rw [mem_unreadable_iff]
  intro hnone
  obtain ⟨text, hsome⟩ := mem_keys_textsOf_iff.1 h
  have heq := List.inj_on_of_nodup_map hn hnone hsome rfl
  simp at heq

end Sources

/-! ### The sources, divided -/

/-- How a run divides its sources: those that it skips, those that it has read, and those that have
failed. -/
structure Division (sources : List (String × Option String)) (s : Survey σ) (r : Reading) :
    Prop where
  cover : ∀ p, p ∈ sources.map (·.1) ↔ p ∈ r.skipped ∨ p ∈ Keyed.keys r.parsed ∨ p ∈ r.failed
  skipped_parsed : ∀ p ∈ r.skipped, p ∉ Keyed.keys r.parsed
  skipped_failed : ∀ p ∈ r.skipped, p ∉ r.failed
  parsed_failed : ∀ p ∈ Keyed.keys r.parsed, p ∉ r.failed
  nodup_skipped : r.skipped.Nodup
  nodup_parsed : (Keyed.keys r.parsed).Nodup
  path_parsed : ∀ q ∈ r.parsed, q.2.path = q.1
  texts : s.texts = textsOf sources
  /-- All sources but the failed ones have a text. -/
  mem_texts : ∀ p, p ∈ r.skipped ∨ p ∈ Keyed.keys r.parsed → p ∈ Keyed.keys s.texts
  /-- The declaration files of skipped sources are there. -/
  has_output : ∀ p ∈ r.skipped, hasOutput s.output p = true
  cached : ∀ p ∈ r.skipped, p ∈ Keyed.keys s.cache.entries

section Read

variable {digest : String → String} {schedule : Schedule} {request : Request}
  {sources : List (String × Option String)} {out : σ} {cache : RunCache} {log : List Log.Entry}

/-- An unchanged source has a text, a declaration file and an entry in the cache. -/
theorem unchanged_cached {p : String}
    (h : p ∈ (survey digest request (cache, log) sources out).unchanged) :
    p ∈ Keyed.keys (textsOf sources) ∧
      hasOutput (survey digest request (cache, log) sources out).output p = true ∧
      p ∈ Keyed.keys (survey digest request (cache, log) sources out).cache.entries := by
  obtain ⟨text, ht, hu⟩ := (mem_keys_filter (nodup_keys_textsOf sources)).1 h
  rw [isUpToDate, Bool.and_eq_true, Bool.and_eq_true] at hu
  have hcur : (survey digest request (cache, log) sources out).cache.isCurrent digest p text =
      true := hu.1.2
  exact ⟨Keyed.isSome_get?_iff.1 (by simp [ht]), hu.2, RunCache.mem_keys_of_isCurrent hcur⟩

/-- The unchanged sources that a run reads, whether or not a changed one has failed. -/
def reread (schedule : Schedule) (request : Request) (s : Survey σ) : List String :=
  let first := readBatch schedule request.reader s.texts s.changed
  let kept := s.cache.keepOnly (dropNames (Keyed.keys s.cache.entries) first.failed)
  s.unchanged.filter (usesAny kept (changedExports kept first.parsed ++ s.removedExports ++
    cachedExports s.cache fun p => first.failed.contains p))

omit [OutputStore σ] in
theorem read_parsed (schedule : Schedule) (request : Request) (s : Survey σ) :
    (read schedule request s).parsed =
      (readBatch schedule request.reader s.texts s.changed).parsed ++
        (readBatch schedule request.reader s.texts (reread schedule request s)).parsed :=
  rfl

omit [OutputStore σ] in
theorem read_failed (schedule : Schedule) (request : Request) (s : Survey σ) :
    (read schedule request s).failed =
      s.unreadable ++ (readBatch schedule request.reader s.texts s.changed).failed ++
        (readBatch schedule request.reader s.texts (reread schedule request s)).failed :=
  rfl

omit [OutputStore σ] in
theorem read_skipped (schedule : Schedule) (request : Request) (s : Survey σ) :
    (read schedule request s).skipped = dropNames s.unchanged (reread schedule request s) :=
  rfl

omit [OutputStore σ] in
theorem mem_unchanged_of_reread {s : Survey σ} {p : String} (h : p ∈ reread schedule request s) :
    p ∈ s.unchanged :=
  (List.mem_filter.1 h).1

/-- All sources with a text but the skipped ones are read. -/
theorem mem_changed_or_reread {p : String} :
    p ∈ (survey digest request (cache, log) sources out).changed ∨
        p ∈ reread schedule request (survey digest request (cache, log) sources out) ↔
      p ∈ Keyed.keys (textsOf sources) ∧
        p ∉ (read schedule request (survey digest request (cache, log) sources out)).skipped := by
  rw [read_skipped, mem_dropNames, mem_changed]
  constructor
  · rintro (⟨hp, hu⟩ | hl)
    · exact ⟨hp, fun h => hu h.1⟩
    · exact ⟨(unchanged_cached (mem_unchanged_of_reread hl)).1, fun h => h.2 hl⟩
  · rintro ⟨hp, hns⟩
    by_cases hu : p ∈ (survey digest request (cache, log) sources out).unchanged
    · exact .inr (by_contra fun hl => hns ⟨hu, hl⟩)
    · exact .inl ⟨hp, hu⟩

theorem mem_keys_parsed_readBatch (hs : Complete schedule) {reader : SourceReader}
    {texts : List (String × String)} {paths : List String} {p : String} :
    p ∈ Keyed.keys (readBatch schedule reader texts paths).parsed ↔
      p ∈ paths ∧ ∃ file, sourceOf reader texts p = .ok file := by
  rw [Keyed.keys, List.mem_map]
  constructor
  · rintro ⟨q, hq, rfl⟩
    obtain ⟨hp, hok⟩ := (mem_parsed_readBatch hs).1 hq
    exact ⟨hp, q.2, hok⟩
  · rintro ⟨hp, file, hok⟩
    exact ⟨(p, file), (mem_parsed_readBatch hs).2 ⟨hp, hok⟩, rfl⟩

variable (hs : Complete schedule)

include hs

theorem mem_keys_parsed_read {p : String} :
    p ∈ Keyed.keys (read schedule request (survey digest request (cache, log) sources out)).parsed ↔
      (p ∈ Keyed.keys (textsOf sources) ∧
        p ∉ (read schedule request (survey digest request (cache, log) sources out)).skipped) ∧
        ∃ file, sourceOf request.reader (textsOf sources) p = .ok file := by
  rw [read_parsed, Keyed.keys_append, List.mem_append, mem_keys_parsed_readBatch hs,
    mem_keys_parsed_readBatch hs, ← or_and_right, mem_changed_or_reread]
  rfl

theorem mem_failed_read {p : String} :
    p ∈ (read schedule request (survey digest request (cache, log) sources out)).failed ↔
      p ∈ unreadable sources ∨ (p ∈ Keyed.keys (textsOf sources) ∧
        p ∉ (read schedule request (survey digest request (cache, log) sources out)).skipped) ∧
        ∃ problem, sourceOf request.reader (textsOf sources) p = .error problem := by
  rw [read_failed, List.mem_append, List.mem_append, mem_failed_readBatch hs,
    mem_failed_readBatch hs, or_assoc, ← or_and_right, mem_changed_or_reread]
  rfl

theorem nodup_keys_parsed_read :
    (Keyed.keys (read schedule request
      (survey digest request (cache, log) sources out)).parsed).Nodup := by
  rw [read_parsed, Keyed.keys_append, List.nodup_append]
  refine ⟨nodup_keys_parsed_readBatch hs nodup_changed,
    nodup_keys_parsed_readBatch hs (nodup_unchanged.filter _), ?_⟩
  rintro p hp q hq rfl
  have hchanged := ((mem_keys_parsed_readBatch hs).1 hp).1
  have hreread := ((mem_keys_parsed_readBatch hs).1 hq).1
  exact (mem_changed.1 hchanged).2 (mem_unchanged_of_reread hreread)

theorem path_parsed_read {q : String × SourceDeclarations}
    (hq : q ∈ (read schedule request (survey digest request (cache, log) sources out)).parsed) :
    q.2.path = q.1 := by
  rw [read_parsed, List.mem_append, mem_parsed_readBatch hs, mem_parsed_readBatch hs] at hq
  exact sourceOf_path (hq.elim (·.2) (·.2))

/-- **A run divides its sources.** -/
theorem division_read (hn : (sources.map (·.1)).Nodup) :
    Division sources (survey digest request (cache, log) sources out)
      (read schedule request (survey digest request (cache, log) sources out)) := by
  have hskipped : ∀ p ∈ (read schedule request
      (survey digest request (cache, log) sources out)).skipped,
      p ∈ (survey digest request (cache, log) sources out).unchanged :=
    fun p hp => (mem_dropNames.1 hp).1
  refine {
    cover := fun p => ?_
    skipped_parsed := fun p hp hq => ((mem_keys_parsed_read hs).1 hq).1.2 hp
    skipped_failed := fun p hp hq => ?_
    parsed_failed := fun p hp hq => ?_
    nodup_skipped := nodup_unchanged.filter _
    nodup_parsed := nodup_keys_parsed_read hs
    path_parsed := fun q hq => path_parsed_read hs hq
    texts := rfl
    mem_texts := fun p hp => ?_
    has_output := fun p hp => (unchanged_cached (hskipped p hp)).2.1
    cached := fun p hp => (unchanged_cached (hskipped p hp)).2.2 }
  · rw [mem_paths_iff, mem_keys_parsed_read hs, mem_failed_read hs]
    constructor
    · rintro (hp | hp)
      · by_cases hk : p ∈ (read schedule request
            (survey digest request (cache, log) sources out)).skipped
        · exact .inl hk
        · cases hf : sourceOf request.reader (textsOf sources) p with
          | error problem => exact .inr (.inr (.inr ⟨⟨hp, hk⟩, problem, rfl⟩))
          | ok file => exact .inr (.inl ⟨⟨hp, hk⟩, file, rfl⟩)
      · exact .inr (.inr (.inl hp))
    · rintro (hp | ⟨⟨hp, -⟩, -⟩ | hp | ⟨⟨hp, -⟩, -⟩)
      · exact .inl (unchanged_cached (hskipped p hp)).1
      · exact .inl hp
      · exact .inr hp
      · exact .inl hp
  · rcases (mem_failed_read hs).1 hq with hq | ⟨⟨-, hq⟩, -⟩
    · exact not_mem_unreadable hn (unchanged_cached (hskipped p hp)).1 hq
    · exact hq hp
  · obtain ⟨⟨hpt, -⟩, file, hok⟩ := (mem_keys_parsed_read hs).1 hp
    rcases (mem_failed_read hs).1 hq with hq | ⟨-, problem, herr⟩
    · exact not_mem_unreadable hn hpt hq
    · simp [hok] at herr
  · rcases hp with hp | hp
    · exact (unchanged_cached (hskipped p hp)).1
    · exact ((mem_keys_parsed_read hs).1 hp).1.1

end Read

/-! ### The end of a run -/

/-- The directory when declaration files are to be written: those of failed sources are gone. -/
def cleared (s : Survey σ) (r : Reading) : σ :=
  (removeOutputs "Removed stale output " (sortNames r.failed) s.output).1

/-- A run that has come to its end: what it has emitted and recorded, and the directory that it
leaves.  The cache is written if no source has failed. -/
structure Ended (digest : String → String) (request : Request) (s : Survey σ) (r : Reading)
    (o : Outcome σ) (result : Result) (emitted : List DeclarationFile) (w : Writing σ) : Prop where
  emission : (produce request.settings.stubs (r.parsed.map (·.2)) r.cache.graph).1 = .ok emitted
  files : writeFiles digest s.texts emitted ⟨cleared s r, r.cache, []⟩ = .ok w
  index : canWrite w.output indexName = true
  symbols : request.symbolIndex = true →
    canReplace (indexed (Keyed.keys s.texts) w.output) symbolsName = true
  result : result = report s r emitted
  output : (r.failed = [] ∧
      canReplace (symbolized request (Keyed.keys s.texts) w.cache w.output) cacheName = true ∧
      o.output = replace (symbolized request (Keyed.keys s.texts) w.cache w.output) cacheName
        w.cache.render) ∨
    (r.failed ≠ [] ∧ o.output = symbolized request (Keyed.keys s.texts) w.cache w.output)

/-- What has been written if nothing stood in the way. -/
theorem exists_writing_of_writeAll {digest : String → String} {request : Request} {s : Survey σ}
    {r : Reading} {out : σ} {emitted : List DeclarationFile} {result : Result}
    (h : (writeAll digest request s r out emitted).result = .ok result) :
    ∃ w, writeFiles digest s.texts emitted ⟨out, r.cache, []⟩ = .ok w ∧
      canWrite w.output indexName = true ∧
      (request.symbolIndex = true →
        canReplace (indexed (Keyed.keys s.texts) w.output) symbolsName = true) ∧
      result = report s r emitted ∧
      ((r.failed = [] ∧
          canReplace (symbolized request (Keyed.keys s.texts) w.cache w.output) cacheName = true ∧
          (writeAll digest request s r out emitted).output =
            replace (symbolized request (Keyed.keys s.texts) w.cache w.output) cacheName
              w.cache.render) ∨
        (r.failed ≠ [] ∧ (writeAll digest request s r out emitted).output =
          symbolized request (Keyed.keys s.texts) w.cache w.output)) := by
  have hfailed : (report s r emitted).failed = [] ↔ r.failed = [] := sortNames_eq_nil
  rw [writeAll] at h ⊢
  cases hw : writeFiles digest s.texts emitted ⟨out, r.cache, []⟩ with
  | error w => simp [hw] at h
  | ok w =>
      simp only [hw] at h ⊢
      rcases writeLists_cases request (Keyed.keys s.texts) w.cache w.output with
        ⟨hi, hs, hl⟩ | ⟨out', hl, -⟩
      · simp only [hl] at h ⊢
        rcases saveCache_cases (report s r emitted).failed w.cache
          (symbolized request (Keyed.keys s.texts) w.cache w.output) with
          ⟨hf, hc, log, hsave⟩ | ⟨hf, log, hsave⟩ | hsave
        · simp only [hsave] at h ⊢
          exact ⟨w, rfl, hi, hs, (Except.ok.inj h).symm, .inl ⟨hfailed.1 hf, hc, rfl⟩⟩
        · simp only [hsave] at h ⊢
          exact ⟨w, rfl, hi, hs, (Except.ok.inj h).symm, .inr ⟨fun he => hf (hfailed.2 he), rfl⟩⟩
        · simp [hsave] at h
      · simp [hl] at h

/-- What a run has done that returns a result. -/
theorem exists_ended {digest : String → String} {schedule : Schedule} {request : Request}
    {s : Survey σ} {result : Result}
    (h : (finish digest schedule request s).result = .ok result) :
    ∃ emitted w, Ended digest request s (read schedule request s)
      (finish digest schedule request s) result emitted w := by
  generalize hr : read schedule request s = r
  rw [finish_eq digest schedule request s hr rfl] at h ⊢
  cases he : (produce request.settings.stubs (r.parsed.map (·.2)) r.cache.graph).1 with
  | error fault => simp [he] at h
  | ok emitted =>
      simp only [he] at h ⊢
      obtain ⟨w, hfiles, hindex, hsymbols, hresult, houtput⟩ := exists_writing_of_writeAll h
      exact ⟨emitted, w, he, hfiles, hindex, hsymbols, hresult, houtput⟩

/-! ### What a run reports and leaves -/

/-- **What a run reports and leaves for all its sources**: each is written, skipped or failed, and
only one of these; there is a declaration file for the written and the skipped ones and none for the
failed ones; the index lists the former in their order; and the cache is as before if a source has
failed, else it holds an entry for each source. -/
structure Accounts (paths : List String) (result : Result) (before after : σ) : Prop where
  division : (result.written ++ result.skipped ++ result.failed).Perm paths
  present : ∀ p, p ∈ result.written ∨ p ∈ result.skipped → hasOutput after p = true
  absent : ∀ p ∈ result.failed, hasOutput after p = false
  index : read? after indexName =
    some (.text (indexOfPaths (orderNames (result.written ++ result.skipped))))
  kept : result.failed ≠ [] → read? after cacheName = read? before cacheName
  saved : result.failed = [] → ∃ content cache, read? after cacheName = some content ∧
    RunCache.parse? content = some cache ∧ Keyed.keys cache.entries = orderNames paths

section Ended

variable {digest : String → String} {request : Request}
  {sources : List (String × Option String)} {s : Survey σ} {r : Reading} {o : Outcome σ}
  {result : Result} {emitted : List DeclarationFile} {w : Writing σ}
  (hdiv : Division sources s r) (he : Ended digest request s r o result emitted w)

include hdiv he

theorem map_path_emitted_perm : (emitted.map (·.path)).Perm (Keyed.keys r.parsed) := by
  have hpaths : (r.parsed.map (·.2)).map (·.path) = Keyed.keys r.parsed := by
    rw [List.map_map]
    exact List.map_congr_left fun q hq => hdiv.path_parsed q hq
  have hn : ((r.parsed.map (·.2)).map (·.path)).Nodup := hpaths ▸ hdiv.nodup_parsed
  rw [map_path_produce he.emission, draftAll_eq hn, List.map_map, ← hpaths]
  exact (sortFiles_perm _).map _

theorem mem_emitted_iff {p : String} : p ∈ emitted.map (·.path) ↔ p ∈ Keyed.keys r.parsed :=
  (map_path_emitted_perm hdiv he).mem_iff

theorem mem_result_written {p : String} : p ∈ result.written ↔ p ∈ Keyed.keys r.parsed := by
  rw [he.result, ← mem_emitted_iff hdiv he]
  exact mem_orderNames

omit hdiv in
theorem mem_result_failed {p : String} : p ∈ result.failed ↔ p ∈ r.failed := by
  rw [he.result]
  exact mem_sortNames

omit hdiv in
theorem result_failed_eq_nil : result.failed = [] ↔ r.failed = [] := by
  rw [he.result]
  exact sortNames_eq_nil

omit hdiv in
theorem result_skipped : result.skipped = r.skipped := by
  rw [he.result]
  rfl

theorem nodup_result_written : result.written.Nodup := by
  rw [he.result]
  have hnodup := (map_path_emitted_perm hdiv he).nodup_iff.2 hdiv.nodup_parsed
  exact (orderNames_perm _).nodup_iff.2 hnodup

/-- No source is both written and skipped. -/
theorem nodup_written_skipped : (result.written ++ result.skipped).Nodup := by
  rw [result_skipped he, List.nodup_append]
  refine ⟨nodup_result_written hdiv he, hdiv.nodup_skipped, ?_⟩
  rintro p hp q hq rfl
  exact hdiv.skipped_parsed p hq ((mem_result_written hdiv he).1 hp)

/-- Each source is written, skipped or failed, and only one of these. -/
theorem division_result (hn : (sources.map (·.1)).Nodup) :
    (result.written ++ result.skipped ++ result.failed).Perm (sources.map (·.1)) := by
  have hnodup : (result.written ++ result.skipped ++ result.failed).Nodup := by
    rw [List.nodup_append]
    refine ⟨nodup_written_skipped hdiv he, ?_, ?_⟩
    · rw [he.result]
      exact nodup_of_increasing (sortNames_pairwise _)
    · rintro p hp q hq rfl
      rw [mem_result_failed he] at hq
      rw [List.mem_append, mem_result_written hdiv he, result_skipped he] at hp
      exact hp.elim (fun hp => hdiv.parsed_failed p hp hq) fun hp => hdiv.skipped_failed p hp hq
  refine (List.perm_ext_iff_of_nodup hnodup hn).2 fun p => ?_
  rw [hdiv.cover, List.mem_append, List.mem_append, mem_result_written hdiv he, result_skipped he,
    mem_result_failed he, or_comm (a := p ∈ Keyed.keys r.parsed), or_assoc]

variable [LawfulOutputStore σ] (hsound : Sound s.output)
  (hp : ∀ p ∈ sources.map (·.1), Proper σ (SourcePath.declaration p))

include hsound hp

omit he hsound in
theorem proper_failed {p : String} (h : p ∈ sortNames r.failed) :
    Proper σ (SourcePath.declaration p) :=
  hp p ((hdiv.cover p).2 (.inr (.inr (mem_sortNames.1 h))))

omit he in
theorem sound_cleared : Sound (cleared s r) := by
  refine (removeOutputs_steps "Removed stale output " (sortNames r.failed) s.output).sound ?_ hsound
  rintro n ⟨p, h, rfl⟩
  exact proper_failed hdiv hp h

omit he in
/-- The declaration files of failed sources are gone, and all other files are as before. -/
theorem read?_cleared {name : String} (hn : Proper σ name) :
    read? (cleared s r) name =
      if ∃ p ∈ sortNames r.failed, name = SourcePath.declaration p then none
      else read? s.output name :=
  read?_removeOutputs (fun _ h => proper_failed hdiv hp h) hsound hn

omit hsound in
theorem proper_emittedNames {n : String} (h : emittedNames emitted n) : Proper σ n := by
  obtain ⟨f, hf, rfl⟩ := h
  have hparsed := (mem_emitted_iff hdiv he).1 (List.mem_map_of_mem hf)
  exact hp f.path ((hdiv.cover _).2 (.inr (.inl hparsed)))

theorem sound_ended_written : Sound w.output :=
  (writeFiles_steps (.inl he.files)).sound (fun _ h => proper_emittedNames hdiv he hp h)
    (sound_cleared hdiv hsound hp)

theorem read?_of_not_emitted {name : String} (hn : Proper σ name)
    (hne : ¬ emittedNames emitted name) : read? w.output name = read? (cleared s r) name :=
  (writeFiles_steps (.inl he.files)).read?_eq (fun _ h => proper_emittedNames hdiv he hp h)
    (sound_cleared hdiv hsound hp) hn hne

variable (hinj : ∀ p ∈ sources.map (·.1), ∀ q ∈ sources.map (·.1),
  SourcePath.declaration p = SourcePath.declaration q → p = q)

include hinj

omit hsound hp [LawfulOutputStore σ] in
theorem emittedNames_declaration_iff {p : String} (hpm : p ∈ sources.map (·.1)) :
    emittedNames emitted (SourcePath.declaration p) ↔ p ∈ Keyed.keys r.parsed := by
  rw [← mem_emitted_iff hdiv he]
  constructor
  · rintro ⟨f, hf, heq⟩
    have hparsed := (mem_emitted_iff hdiv he).1 (List.mem_map_of_mem hf)
    rw [hinj p hpm f.path ((hdiv.cover _).2 (.inr (.inl hparsed))) heq]
    exact List.mem_map_of_mem hf
  · intro h
    obtain ⟨f, hf, rfl⟩ := List.mem_map.1 h
    exact ⟨f, hf, rfl⟩

/-- What has been emitted stands in the directory when the index is written. -/
theorem read?_ended_emitted {f : DeclarationFile} (hf : f ∈ emitted) :
    read? w.output (SourcePath.declaration f.path) = some (.text f.text) := by
  have hnames : (emitted.map fun f => SourcePath.declaration f.path).Nodup := by
    have hnodup := (map_path_emitted_perm hdiv he).nodup_iff.2 hdiv.nodup_parsed
    have hmem : ∀ q ∈ emitted.map (·.path), q ∈ sources.map (·.1) := fun q hq =>
      (hdiv.cover q).2 (.inr (.inl ((mem_emitted_iff hdiv he).1 hq)))
    have hmap := List.Nodup.map_on (fun a ha b hb => hinj a (hmem a ha) b (hmem b hb)) hnodup
    rwa [List.map_map] at hmap
  exact read?_writeFiles he.files (sound_cleared hdiv hsound hp)
    (fun g hg => proper_emittedNames hdiv he hp ⟨g, hg, rfl⟩) hnames f hf

/-- **When the index is written, all sources but the failed ones have their declaration files.** -/
theorem hasOutput_ended_iff {p : String} (hpm : p ∈ sources.map (·.1)) :
    hasOutput w.output p = true ↔ p ∉ r.failed := by
  have hproper := hp p hpm
  have hgone : (∃ q ∈ sortNames r.failed, SourcePath.declaration p = SourcePath.declaration q) ↔
      p ∈ r.failed := by
    constructor
    · rintro ⟨q, hq, heq⟩
      have hqf := mem_sortNames.1 hq
      rwa [hinj p hpm q ((hdiv.cover q).2 (.inr (.inr hqf))) heq]
    · intro h
      exact ⟨p, mem_sortNames.2 h, rfl⟩
  by_cases hparsed : p ∈ Keyed.keys r.parsed
  · -- it has just been written
    obtain ⟨f, hf, rfl⟩ := List.mem_map.1 ((mem_emitted_iff hdiv he).2 hparsed)
    simp [hasOutput, read?_ended_emitted hdiv he hsound hp hinj hf, hdiv.parsed_failed _ hparsed]
  · rw [hasOutput, read?_of_not_emitted hdiv he hsound hp hproper
      (fun h => hparsed ((emittedNames_declaration_iff hdiv he hinj hpm).1 h)),
      read?_cleared hdiv hsound hp hproper, if_congr hgone rfl rfl]
    by_cases hf : p ∈ r.failed
    · simp [hf]
    · have hskipped : p ∈ r.skipped := by
        rcases (hdiv.cover p).1 hpm with h | h | h
        · exact h
        · exact absurd h hparsed
        · exact absurd h hf
      simpa [hf, hasOutput] using hdiv.has_output p hskipped

/-- The index lists the written and the skipped sources. -/
theorem indexText_ended :
    indexText w.output (Keyed.keys s.texts) =
      indexOfPaths (orderNames (result.written ++ result.skipped)) := by
  have hlisted : (Keyed.keys s.texts).filter (hasOutput w.output) =
      orderNames (result.written ++ result.skipped) := by
    have hincreasing : (Keyed.keys s.texts).Pairwise (· < ·) :=
      hdiv.texts ▸ textsOf_increasing sources
    refine eq_of_increasing (hincreasing.filter _) (increasing_of_nodup (orderNames_pairwise _)
      ((orderNames_perm _).nodup_iff.2 (nodup_written_skipped hdiv he))) fun p => ?_
    rw [List.mem_filter, mem_orderNames, List.mem_append, mem_result_written hdiv he,
      result_skipped he]
    constructor
    · rintro ⟨hpt, hout⟩
      have hpm : p ∈ sources.map (·.1) := mem_keys_textsOf (hdiv.texts ▸ hpt)
      have hnf := (hasOutput_ended_iff hdiv he hsound hp hinj hpm).1 hout
      rcases (hdiv.cover p).1 hpm with h | h | h
      · exact .inr h
      · exact .inl h
      · exact absurd h hnf
    · intro h
      have hpm : p ∈ sources.map (·.1) := (hdiv.cover p).2 (h.symm.imp_right .inl)
      refine ⟨hdiv.mem_texts p h.symm, (hasOutput_ended_iff hdiv he hsound hp hinj hpm).2 ?_⟩
      exact h.elim (hdiv.parsed_failed p) (hdiv.skipped_failed p)
  rw [indexText, hlisted, indexOfPaths]

omit hinj

/-! ### The index and the cache -/

theorem sound_lists :
    Sound (symbolized request (Keyed.keys s.texts) w.cache w.output) := by
  refine (symbolized_steps he.index he.symbols).sound ?_ (sound_ended_written hdiv he hsound hp)
  rintro n (rfl | rfl)
  · exact proper_index
  · exact proper_symbols

theorem read?_lists {name : String} (hn : Proper σ name) (hne : ¬ listNames name) :
    read? (symbolized request (Keyed.keys s.texts) w.cache w.output) name =
      read? w.output name := by
  refine (symbolized_steps he.index he.symbols).read?_eq ?_ (sound_ended_written hdiv he hsound hp)
    hn hne
  rintro n (rfl | rfl)
  · exact proper_index
  · exact proper_symbols

theorem read?_lists_index :
    read? (symbolized request (Keyed.keys s.texts) w.cache w.output) indexName =
      some (.text (indexText w.output (Keyed.keys s.texts))) := by
  have hw := sound_ended_written hdiv he hsound hp
  have hsi : Sound (indexed (Keyed.keys s.texts) w.output) := sound_write hw proper_index he.index
  have hindexed : read? (indexed (Keyed.keys s.texts) w.output) indexName =
      some (.text (indexText w.output (Keyed.keys s.texts))) :=
    (read?_write hw proper_index he.index proper_index).trans (if_pos rfl)
  rw [symbolized]
  split
  · next hb =>
    rw [read?_replace hsi proper_symbols (he.symbols hb) proper_index, if_neg (by decide), hindexed]
  · exact hindexed

theorem read?_ended {name : String} (hn : Proper σ name) (hne : name ≠ cacheName) :
    read? o.output name =
      read? (symbolized request (Keyed.keys s.texts) w.cache w.output) name := by
  rcases he.output with ⟨-, hc, hout⟩ | ⟨-, hout⟩
  · rw [hout, read?_replace (sound_lists hdiv he hsound hp) proper_cache hc hn, if_neg hne]
  · rw [hout]

/-- The declaration files are those that were there when the index was written. -/
theorem hasOutput_ended {p : String} (hpm : p ∈ sources.map (·.1))
    (hi : SourcePath.declaration p ≠ indexName) : hasOutput o.output p = hasOutput w.output p := by
  rw [hasOutput, hasOutput, read?_ended hdiv he hsound hp (hp p hpm) (declaration_ne_cacheName p),
    read?_lists hdiv he hsound hp (hp p hpm)]
  rintro (h | h)
  · exact hi h
  · exact declaration_ne_symbolsName p h

/-- If a source has failed, the cache is the one that the run has found. -/
theorem read?_cache_of_failed (hf : r.failed ≠ []) :
    read? o.output cacheName = read? s.output cacheName := by
  rcases he.output with ⟨hnil, -⟩ | ⟨-, hout⟩
  · exact absurd hnil hf
  · have hother : ¬ emittedNames emitted cacheName := by
      rintro ⟨f, -, heq⟩
      exact declaration_ne_cacheName f.path heq.symm
    have hlist : ¬ listNames cacheName := by
      rintro (h | h)
      · exact absurd h (by decide)
      · exact absurd h (by decide)
    rw [hout, read?_lists hdiv he hsound hp proper_cache hlist,
      read?_of_not_emitted hdiv he hsound hp proper_cache hother,
      read?_cleared hdiv hsound hp proper_cache, if_neg]
    rintro ⟨p, -, heq⟩
    exact declaration_ne_cacheName p heq.symm

/-- If no source has failed, the cache is written. -/
theorem read?_cache_of_not_failed (hf : r.failed = []) :
    read? o.output cacheName = some (.text w.cache.render) := by
  rcases he.output with ⟨-, hc, hout⟩ | ⟨hne, -⟩
  · rw [hout]
    exact (read?_replace (sound_lists hdiv he hsound hp) proper_cache hc proper_cache).trans
      (if_pos rfl)
  · exact absurd hf hne

omit hsound hp [LawfulOutputStore σ] in
/-- The new cache has an entry for each source if none has failed. -/
theorem keys_cache_ended (hf : r.failed = []) (hcache : r.cache = s.cache)
    (hentries : ∀ p ∈ Keyed.keys s.cache.entries, p ∈ Keyed.keys s.texts)
    (hnodup : (Keyed.keys s.cache.entries).Nodup) :
    (Keyed.keys w.cache.entries).Nodup ∧
      ∀ p, p ∈ Keyed.keys w.cache.entries ↔ p ∈ sources.map (·.1) := by
  have hw : w.cache.entries = (emitted.map fun f =>
      (f.path, recordFile digest s.texts s.cache.version f)).foldl
        (fun l p => Keyed.put l p.1 p.2) s.cache.entries := by
    rw [cache_writeFiles he.files, entries_foldl_record, hcache]
  have hkeys : Keyed.keys (emitted.map fun f =>
      (f.path, recordFile digest s.texts s.cache.version f)) = emitted.map (·.path) := by
    simp [Keyed.keys, Function.comp_def]
  rw [hw]
  refine ⟨Keyed.nodup_keys_foldl_put _ _ hnodup, fun p => ?_⟩
  rw [Keyed.mem_keys_foldl_put, hkeys, mem_emitted_iff hdiv he, hdiv.cover, hf]
  constructor
  · rintro (h | h)
    · have hpm := mem_keys_textsOf (hdiv.texts ▸ hentries p h)
      simpa [hf] using (hdiv.cover p).1 hpm
    · exact .inr (.inl h)
  · rintro (h | h | h)
    · exact .inl (hdiv.cached p h)
    · exact .inr h
    · simp at h

end Ended

/-! ### The whole run -/

/-- A cache is read back with its paths in their order. -/
theorem keys_reloaded {cache : RunCache} (hc : (Keyed.keys cache.entries).Nodup)
    {paths : List String} (hn : paths.Nodup)
    (hm : ∀ p, p ∈ Keyed.keys cache.entries ↔ p ∈ paths) :
    Keyed.keys cache.reloaded.entries = orderNames paths := by
  rw [RunCache.reloaded, Keyed.keys_map _ CachedSource.restored]
  refine eq_of_increasing (Keyed.sorted_increasing hc) (increasing_of_nodup (orderNames_pairwise _)
    ((orderNames_perm _).nodup_iff.2 hn)) fun p => ?_
  rw [(Keyed.keys_sorted_perm _).mem_iff, hm, mem_orderNames]

/-- The entries that a run starts with are those of sources with a text. -/
theorem mem_texts_of_mem_cache {digest : String → String} {request : Request}
    {loaded : RunCache × List Log.Entry} {sources : List (String × Option String)} {out : σ}
    {p : String} (h : p ∈ Keyed.keys (survey digest request loaded sources out).cache.entries) :
    p ∈ Keyed.keys (survey digest request loaded sources out).texts := by
  change p ∈ Keyed.keys (loaded.1.keepOnly (Keyed.keys (textsOf sources))).entries at h
  rw [RunCache.keys_keepOnly, List.mem_filter] at h
  exact List.contains_iff_mem.1 h.2

theorem nodup_keys_survey {digest : String → String} {request : Request}
    {loaded : RunCache × List Log.Entry} {sources : List (String × Option String)} {out : σ}
    (h : (Keyed.keys loaded.1.entries).Nodup) :
    (Keyed.keys (survey digest request loaded sources out).cache.entries).Nodup := by
  change (Keyed.keys (loaded.1.keepOnly (Keyed.keys (textsOf sources))).entries).Nodup
  rw [RunCache.keys_keepOnly]
  exact h.filter _

/-- The cache that a run starts with has one entry for a path, whatever stands in its file. -/
theorem nodup_keys_loadCache (request : Request) (out : σ) :
    (Keyed.keys (loadCache request out).1.entries).Nodup := by
  rw [loadCache]
  split
  · simp [RunCache.empty]
  · exact RunCache.nodup_keys_load _ _ _

/-- **A run that returns accounts for its sources**, whatever cache it has loaded. -/
theorem accounts_of_finish [LawfulOutputStore σ] {digest : String → String} {schedule : Schedule}
    {request : Request} {cache : RunCache} {log : List Log.Entry}
    {sources : List (String × Option String)} {out : σ} {result : Result}
    (hs : Complete schedule) (hc : (Keyed.keys cache.entries).Nodup)
    (hsound : Sound (survey digest request (cache, log) sources out).output)
    (hp : ∀ p ∈ sources.map (·.1), Proper σ (SourcePath.declaration p))
    (hn : (sources.map fun s => SourcePath.declaration s.1).Nodup)
    (hi : ∀ p ∈ sources.map (·.1), SourcePath.declaration p ≠ indexName)
    (hr : (finish digest schedule request
      (survey digest request (cache, log) sources out)).result = .ok result) :
    Accounts (sources.map (·.1)) result (survey digest request (cache, log) sources out).output
      (finish digest schedule request
        (survey digest request (cache, log) sources out)).output := by
  have hmap : ((sources.map (·.1)).map SourcePath.declaration).Nodup := by
    rwa [List.map_map]
  have hpaths : (sources.map (·.1)).Nodup := hmap.of_map
  have hinj : ∀ p ∈ sources.map (·.1), ∀ q ∈ sources.map (·.1),
      SourcePath.declaration p = SourcePath.declaration q → p = q :=
    fun p hpm q hqm heq => List.inj_on_of_nodup_map hmap hpm hqm heq
  have hentries := fun p => @mem_texts_of_mem_cache σ _ digest request (cache, log) sources out p
  have hnodup := @nodup_keys_survey σ _ digest request (cache, log) sources out hc
  have hdiv := @division_read σ _ digest schedule request sources out cache log hs hpaths
  generalize survey digest request (cache, log) sources out = s at *
  obtain ⟨emitted, w, he⟩ := exists_ended hr
  have houtput : ∀ p ∈ sources.map (·.1),
      hasOutput (finish digest schedule request s).output p = true ↔
        p ∉ (read schedule request s).failed := by
    intro p hpm
    rw [hasOutput_ended hdiv he hsound hp hpm (hi p hpm),
      hasOutput_ended_iff hdiv he hsound hp hinj hpm]
  refine {
    division := division_result hdiv he hpaths
    present := fun p h => ?_
    absent := fun p h => ?_
    index := ?_
    kept := fun hf => ?_
    saved := fun hf => ?_ }
  · rw [mem_result_written hdiv he, result_skipped he] at h
    refine (houtput p ((hdiv.cover p).2 (h.symm.imp_right .inl))).2 ?_
    exact h.elim (hdiv.parsed_failed p) (hdiv.skipped_failed p)
  · rw [mem_result_failed he] at h
    rw [← Bool.not_eq_true, houtput p ((hdiv.cover p).2 (.inr (.inr h))), not_not]
    exact h
  · rw [read?_ended hdiv he hsound hp proper_index (by decide),
      read?_lists_index hdiv he hsound hp, indexText_ended hdiv he hsound hp hinj]
  · exact read?_cache_of_failed hdiv he hsound hp fun h => hf ((result_failed_eq_nil he).2 h)
  · have hnil := (result_failed_eq_nil he).1 hf
    obtain ⟨hkeys, hmem⟩ := keys_cache_ended hdiv he hnil (read_of_failed_eq_nil hnil).2.2.2.2.2
      hentries hnodup
    exact ⟨.text w.cache.render, w.cache.reloaded, read?_cache_of_not_failed hdiv he hsound hp hnil,
      RunCache.parse?_render hkeys, keys_reloaded hkeys hpaths hmem⟩

end LuaAmbient.Generation
