/-
**No file that a run writes imports from a file that is not there.**

The owner of a name is a source that the run has read, or one that only the cache knows.  A source
that was read has just been written.  One that only the cache knows was not read, or it is among those
that are read a second time because they use a name that may have moved; and such a source does not
fail, since its text is the one of the record and has been read before.  So no owner is among the
failed sources, whose declaration files are removed, and every other source has its file.

Main definitions:

* `LuaAmbient.Generation.emission` — the declaration files that a run makes;
* `LuaAmbient.Generation.Linked` — **what a run has written stands in the directory, and so does
  everything that it imports from**.

Main results:

* `LuaAmbient.Generation.exists_sourceOf_reread` — a source that is read again does not fail;
* `LuaAmbient.Generation.not_failed_of_recorded` — nor does one that the cache still knows;
* `LuaAmbient.Generation.linked_of_finish` — **a run that returns leaves no dangling import**.
-/

import LuaAmbient.Proofs.Emission.Imports
import LuaAmbient.Proofs.Generation.Accounting

set_option relaxedAutoImplicit false
set_option autoImplicit false

namespace LuaAmbient.Generation

open OutputStore LawfulOutputStore Emission

variable {σ : Type} [OutputStore σ]

/-- The declaration files that a run makes of the sources that it reads. -/
def emission (schedule : Schedule) (request : Request) (s : Survey σ) :
    Except SourcePath.Fault (List DeclarationFile) :=
  let r := read schedule request s
  (produce request.settings.stubs (r.parsed.map (·.2)) r.cache.graph).1

/-- What a run has written stands in the directory, and so does everything that it imports from.  A
declaration file with the name of the index gives way to it. -/
structure Linked (result : Result) (emitted : List DeclarationFile) (after : σ) : Prop where
  written : result.written = orderNames (emitted.map (·.path))
  text : ∀ f ∈ emitted, SourcePath.declaration f.path ≠ indexName →
    read? after (SourcePath.declaration f.path) = some (.text f.text)
  imports : ∀ f ∈ emitted, ∀ owner ∈ Keyed.keys f.importMap, hasOutput after owner = true

/-! ### Sources that do not fail -/

section Read

variable {digest : String → String} {schedule : Schedule} {request : Request}
  {sources : List (String × Option String)} {out : σ} {before : List (String × String)}
  {cache : RunCache} {log : List Log.Entry} (hd : Function.Injective digest)
  (hc : CacheOf digest request.reader before cache)

include hd hc

/-- A source that is read again has the text of the record, and that has been read before. -/
theorem exists_sourceOf_reread {p : String}
    (h : p ∈ reread schedule request (survey digest request (cache, log) sources out)) :
    ∃ file, sourceOf request.reader (textsOf sources) p = .ok file := by
  obtain ⟨hpt, -, hsame, -⟩ := (mem_unchanged hd hc).1 (mem_unchanged_of_reread h)
  obtain ⟨file, hfile⟩ := hc.parses ((Keyed.mem_keys_congr hsame).2 hpt)
  exact ⟨file, by rw [← sourceOf_congr hsame, hfile]⟩

/-- A path that the cache still knows after the first batch is that of a source that does not fail. -/
theorem not_failed_of_recorded (hs : Complete schedule) (hn : (sources.map (·.1)).Nodup) {p : String}
    (h : p ∈ Keyed.keys (read schedule request
      (survey digest request (cache, log) sources out)).cache.entries) :
    p ∈ sources.map (·.1) ∧
      p ∉ (read schedule request (survey digest request (cache, log) sources out)).failed := by
  change p ∈ Keyed.keys (RunCache.keepOnly _ _).entries at h
  rw [RunCache.keys_keepOnly, List.mem_filter, List.contains_iff_mem, mem_dropNames] at h
  obtain ⟨hcached, -, hfirst⟩ := h
  have hpt : p ∈ Keyed.keys (textsOf sources) := mem_texts_of_mem_cache hcached
  refine ⟨mem_keys_textsOf hpt, fun hfailed => ?_⟩
  rw [read_failed, List.mem_append, List.mem_append] at hfailed
  rcases hfailed with (hunreadable | hfailed) | hfailed
  · exact not_mem_unreadable hn hpt hunreadable
  · exact hfirst hfailed
  · obtain ⟨hreread, problem, herror⟩ := (mem_failed_readBatch hs).1 hfailed
    obtain ⟨file, hok⟩ := exists_sourceOf_reread hd hc hreread
    exact absurd (herror.symm.trans hok) (by simp)

end Read

/-! ### The end of a run -/

section Ended

variable [LawfulOutputStore σ] {digest : String → String} {request : Request}
  {sources : List (String × Option String)} {s : Survey σ} {r : Reading} {o : Outcome σ}
  {result : Result} {emitted : List DeclarationFile} {w : Writing σ}
  (hdiv : Division sources s r) (he : Ended digest request s r o result emitted w)
  (hsound : Sound s.output) (hp : ∀ p ∈ sources.map (·.1), Proper σ (SourcePath.declaration p))
  (hinj : ∀ p ∈ sources.map (·.1), ∀ q ∈ sources.map (·.1),
    SourcePath.declaration p = SourcePath.declaration q → p = q)

include hdiv he hsound hp hinj

/-- A source that has not failed has a declaration file; it may be the index that has its name. -/
theorem hasOutput_of_not_failed {p : String} (hpm : p ∈ sources.map (·.1)) (hf : p ∉ r.failed) :
    hasOutput o.output p = true := by
  by_cases hi : SourcePath.declaration p = indexName
  · rw [hasOutput, read?_ended hdiv he hsound hp (hp p hpm) (declaration_ne_cacheName p), hi,
      read?_lists_index hdiv he hsound hp]
    rfl
  · rw [hasOutput_ended hdiv he hsound hp hpm hi]
    exact (hasOutput_ended_iff hdiv he hsound hp hinj hpm).2 hf

/-- What has been emitted stands in the directory when the run has ended. -/
theorem read?_emitted_of_ended {f : DeclarationFile} (hf : f ∈ emitted)
    (hi : SourcePath.declaration f.path ≠ indexName) :
    read? o.output (SourcePath.declaration f.path) = some (.text f.text) := by
  have hpm : f.path ∈ sources.map (·.1) :=
    (hdiv.cover _).2 (.inr (.inl ((mem_emitted_iff hdiv he).1 (List.mem_map_of_mem hf))))
  rw [read?_ended hdiv he hsound hp (hp _ hpm) (declaration_ne_cacheName _),
    read?_lists hdiv he hsound hp (hp _ hpm), read?_ended_emitted hdiv he hsound hp hinj hf]
  rintro (h | h)
  · exact hi h
  · exact declaration_ne_symbolsName _ h

omit hsound hp hinj [LawfulOutputStore σ] in
/-- What an emitted file imports from was read or is recorded. -/
theorem owner_parsed_or_recorded {f : DeclarationFile} (hf : f ∈ emitted) {owner : String}
    (ho : owner ∈ Keyed.keys f.importMap) :
    owner ∈ Keyed.keys r.parsed ∨ owner ∈ Keyed.keys r.cache.entries := by
  have hpaths : (r.parsed.map (·.2)).map (·.path) = Keyed.keys r.parsed := by
    rw [List.map_map]
    exact List.map_congr_left fun q hq => hdiv.path_parsed q hq
  have hn : ((r.parsed.map (·.2)).map (·.path)).Nodup := hpaths ▸ hdiv.nodup_parsed
  obtain ⟨source, hsource, -, hcomplete⟩ := exists_source_of_produce hn he.emission f hf
  rw [← hpaths, ← CacheOf.keys_graph]
  exact (resolves_of_complete hn hsource hcomplete).owner_mem ho

end Ended

/-- **A run that returns leaves no dangling import**, if it has loaded a cache of sources that have
been read before. -/
theorem linked_of_finish [LawfulOutputStore σ] {digest : String → String} {schedule : Schedule}
    {request : Request} {before : List (String × String)} {cache : RunCache} {log : List Log.Entry}
    {sources : List (String × Option String)} {out : σ} {result : Result}
    (hd : Function.Injective digest) (hs : Complete schedule)
    (hc : CacheOf digest request.reader before cache)
    (hsound : Sound (survey digest request (cache, log) sources out).output)
    (hp : ∀ p ∈ sources.map (·.1), Proper σ (SourcePath.declaration p))
    (hn : (sources.map fun s => SourcePath.declaration s.1).Nodup)
    (hr : (finish digest schedule request
      (survey digest request (cache, log) sources out)).result = .ok result) :
    ∃ emitted, emission schedule request (survey digest request (cache, log) sources out) =
        .ok emitted ∧
      Linked result emitted (finish digest schedule request
        (survey digest request (cache, log) sources out)).output := by
  have hmap : ((sources.map (·.1)).map SourcePath.declaration).Nodup := by
    rwa [List.map_map]
  have hinj : ∀ p ∈ sources.map (·.1), ∀ q ∈ sources.map (·.1),
      SourcePath.declaration p = SourcePath.declaration q → p = q :=
    fun p hpm q hqm heq => List.inj_on_of_nodup_map hmap hpm hqm heq
  have hdiv := @division_read σ _ digest schedule request sources out cache log hs hmap.of_map
  obtain ⟨emitted, w, he⟩ := exists_ended hr
  refine ⟨emitted, he.emission, ?_, fun f hf => ?_, fun f hf owner ho => ?_⟩
  · rw [he.result]
    rfl
  · exact read?_emitted_of_ended hdiv he hsound hp hinj hf
  · -- an owner that was read is no failed one, and a recorded owner is not either
    have howner : owner ∈ sources.map (·.1) ∧
        owner ∉ (read schedule request (survey digest request (cache, log) sources out)).failed := by
      rcases owner_parsed_or_recorded hdiv he hf ho with hparsed | hrecorded
      · exact ⟨(hdiv.cover owner).2 (.inr (.inl hparsed)), hdiv.parsed_failed owner hparsed⟩
      · exact not_failed_of_recorded hd hc hs hmap.of_map hrecorded
    exact hasOutput_of_not_failed hdiv he hsound hp hinj howner.1 howner.2

end LuaAmbient.Generation
