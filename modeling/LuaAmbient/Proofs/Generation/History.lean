/-
Runs one after the other.

Between two runs the sources may change in any way, while the output directory stays as the last run
has left it.  The cache in it is the one of the last run that came to its end without a failed
source, whatever has happened since.

Main definitions:

* `LuaAmbient.Generation.Remembers` — a directory with the cache of given sources;
* `LuaAmbient.Generation.Unaltered` — nobody has changed the directory in between;
* `LuaAmbient.Generation.Succeeds` — a run that comes to its end without a failed source;
* `LuaAmbient.Generation.Agrees` — a file holds what belongs to given sources.

Main results:

* `LuaAmbient.Generation.Remembers.of_succeeds`, `LuaAmbient.Generation.Remembers.of_not_succeeds` —
  **a directory remembers the sources of the last run that has succeeded**;
* `LuaAmbient.Generation.agrees_of_succeeds` — after a run that succeeds, everything is right that it
  has touched or that was right before.
-/

import LuaAmbient.Proofs.Generation.Fresh

set_option relaxedAutoImplicit false
set_option autoImplicit false

namespace LuaAmbient.Generation

open OutputStore LawfulOutputStore Emission

variable {σ : Type} [OutputStore σ] [LawfulOutputStore σ]

/-- A directory with the cache of given sources; a directory without a cache has the one of no
sources. -/
structure Remembers (digest : String → String) (reader : SourceReader)
    (texts : List (String × String)) (out : σ) : Prop where
  sound : Sound out
  increasing : (Keyed.keys texts).Pairwise (· < ·)
  proper : ∀ p ∈ Keyed.keys texts, Proper σ (SourcePath.declaration p)
  cache : (texts = [] ∧ read? out cacheName = none) ∨
    ∃ cache, CacheOf digest reader texts cache ∧ read? out cacheName = some (.text cache.render)

/-- Nobody has changed the directory in between. -/
structure Unaltered (out out' : σ) : Prop where
  sound : Sound out → Sound out'
  read? : ∀ name, Proper σ name → OutputStore.read? out' name = OutputStore.read? out name

/-- A run that comes to its end without a failed source. -/
def Succeeds {σ : Type} (o : Outcome σ) (result : Result) : Prop :=
  o.result = .ok result ∧ result.failed = []

/-- A file holds what belongs to given sources; there is none if none belongs to them. -/
def Agrees (setup : Setup) (texts : List (String × String)) (out : σ)
    (name : String) : Prop :=
  OutputStore.read? out name = (target? setup texts name).map .text

theorem Remembers.unaltered {digest : String → String} {reader : SourceReader}
    {texts : List (String × String)} {out out' : σ} (h : Remembers digest reader texts out)
    (hu : Unaltered out out') : Remembers digest reader texts out' where
  sound := hu.sound h.sound
  increasing := h.increasing
  proper := h.proper
  cache := by
    rw [hu.read? cacheName proper_cache]
    exact h.cache

/-- The cache that a run starts with: none if it is forced, else the one that is remembered. -/
theorem Remembers.loadCache {digest : String → String} {request : Request}
    {texts : List (String × String)} {out : σ} (h : Remembers digest request.reader texts out) :
    ∃ cache log, loadCache request out = (cache, log) ∧
      CacheOf digest request.reader (if request.force then [] else texts) cache := by
  rw [Generation.loadCache]
  cases request.force with
  | true => exact ⟨_, _, rfl, cacheOf_empty digest request.reader⟩
  | false =>
      simp only [Bool.false_eq_true, if_false]
      rcases h.cache with ⟨rfl, hnone⟩ | ⟨cache, hc, hsome⟩
      · rw [hnone]
        exact ⟨_, _, rfl, cacheOf_empty digest request.reader⟩
      · rw [hsome]
        exact ⟨cache.reloaded, _, Prod.ext (hc.load_render _) rfl, hc.loaded⟩

/-- The sources that a run compares with. -/
abbrev comparedTexts (request : Request) (texts : List (String × String)) :
    List (String × String) :=
  if request.force then [] else texts

theorem comparedTexts_of_not_force {request : Request} (h : request.force = false)
    (texts : List (String × String)) : comparedTexts request texts = texts := by
  rw [comparedTexts, h]
  rfl

/-- The names of the files that a run may change. -/
def runNames (sources : List (String × Option String)) (texts : List (String × String))
    (name : String) : Prop :=
  name = indexName ∨ name = symbolsName ∨ name = cacheName ∨
    ∃ p, (p ∈ sources.map (·.1) ∨ p ∈ Keyed.keys texts) ∧ name = SourcePath.declaration p

section Run

variable {digest : String → String} {schedule : Schedule} {request : Request}
  {sources : List (String × Option String)} {out : σ} {texts : List (String × String)}
  (hd : Function.Injective digest) (hs : Complete schedule)
  (h : Remembers digest request.reader texts out)
  (hp : ∀ p ∈ sources.map (·.1), Proper σ (SourcePath.declaration p))

include h hp

theorem proper_paths {p : String}
    (hpm : p ∈ Keyed.keys (textsOf sources) ∨ p ∈ Keyed.keys (comparedTexts request texts)) :
    Proper σ (SourcePath.declaration p) := by
  rcases hpm with hpt | hpt
  · exact hp p (mem_keys_textsOf hpt)
  · refine h.proper p ?_
    revert hpt
    rw [comparedTexts]
    split <;> simp

omit h [LawfulOutputStore σ] hp in
include hs in
/-- A run reads its sources and no others. -/
theorem mem_sources_of_read {loaded : RunCache × List Log.Entry} {p : String}
    (hpm : p ∈ (read schedule request (survey digest request loaded sources out)).failed ∨
      p ∈ (read schedule request (survey digest request loaded sources out)).parsed.map
        (·.2.path)) :
    p ∈ sources.map (·.1) := by
  have hkeys : ∀ {c : String × String → Bool} {q : String},
      q ∈ Keyed.keys ((textsOf sources).filter c) → q ∈ sources.map (·.1) := by
    intro c q hq
    obtain ⟨a, ha, rfl⟩ := List.mem_map.1 hq
    exact mem_keys_textsOf (Keyed.mem_keys_of_mem (List.mem_filter.1 ha).1)
  have hdependents : ∀ {c : String → Bool} {q : String},
      q ∈ (survey digest request loaded sources out).unchanged.filter c → q ∈ sources.map (·.1) :=
    fun hq => hkeys (List.mem_filter.1 hq).1
  rcases hpm with hfail | hparsed
  · rcases List.mem_append.1 hfail with hfail | hfail
    · rcases List.mem_append.1 hfail with hfail | hfail
      · obtain ⟨a, ha, rfl⟩ := List.mem_map.1 hfail
        exact List.mem_map_of_mem (List.mem_filter.1 ha).1
      · exact hkeys ((mem_failed_readBatch hs).1 hfail).1
    · exact hdependents ((mem_failed_readBatch hs).1 hfail).1
  · obtain ⟨q, hq, rfl⟩ := List.mem_map.1 hparsed
    rcases List.mem_append.1 hq with hq | hq
    · obtain ⟨hq, hok⟩ := (mem_parsed_readBatch hs).1 hq
      rw [sourceOf_path hok]
      exact hkeys hq
    · obtain ⟨hq, hok⟩ := (mem_parsed_readBatch hs).1 hq
      rw [sourceOf_path hok]
      exact hdependents hq

omit h in
include hs in
theorem laterNames_proper {loaded : RunCache × List Log.Entry} {n : String}
    (hn : laterNames (read schedule request (survey digest request loaded sources out)) n) :
    Proper σ n ∧ n ≠ cacheName := by
  rcases hn with (rfl | rfl) | ⟨p, hpm, rfl⟩
  · exact ⟨proper_index, by decide⟩
  · exact ⟨proper_symbols, by decide⟩
  · exact ⟨hp p (mem_sources_of_read hs hpm), declaration_ne_cacheName p⟩

include hs in
/-- A run in a directory that remembers sources either comes to its end, and then it has compared with
them and written everything, or it leaves the cache as it was. -/
theorem generate_cases :
    (∃ cache log emitted w, Generation.loadCache request out = (cache, log) ∧
        CacheOf digest request.reader (comparedTexts request texts) cache ∧
        Saved digest request (survey digest request (cache, log) sources out)
          (read schedule request (survey digest request (cache, log) sources out))
          (generate digest schedule request sources out) emitted w) ∨
      (∀ result, ¬ Succeeds (generate digest schedule request sources out) result) ∧
        Sound (generate digest schedule request sources out).output ∧
        OutputStore.read? (generate digest schedule request sources out).output cacheName =
          OutputStore.read? out cacheName := by
  obtain ⟨cache, log, hload, hc⟩ := h.loadCache
  rw [generate, hload]
  rcases finish_cases digest schedule request (survey digest request (cache, log) sources out) with
    ⟨emitted, w, hsv⟩ | ⟨hno, hsteps⟩
  · exact .inl ⟨cache, log, emitted, w, rfl, hc, hsv⟩
  · refine .inr ⟨fun result hsuc => hno result hsuc.1 hsuc.2, ?_⟩
    have hsurvey : Sound (survey digest request (cache, log) sources out).output :=
      sound_survey hc h.sound fun p hpm => proper_paths h hp hpm
    have hnames : ∀ n, laterNames (read schedule request
        (survey digest request (cache, log) sources out)) n → Proper σ n ∧ n ≠ cacheName :=
      fun n hn => laterNames_proper hs hp hn
    refine ⟨hsteps.sound (fun n hn => (hnames n hn).1) hsurvey, ?_⟩
    -- neither the survey nor the later steps touch the cache
    rw [hsteps.read?_eq (fun n hn => (hnames n hn).1) hsurvey proper_cache
      fun hn => (hnames _ hn).2 rfl, read?_survey hc h.sound (fun p hpm => proper_paths h hp hpm)
      proper_cache, if_neg]
    rintro ⟨p, -, he⟩
    exact declaration_ne_cacheName p he.symm

omit [LawfulOutputStore σ] h hp in
include hs in
/-- A run changes no files but those of its sources and of those of which it remembers files. -/
theorem generate_steps {cache : RunCache} {log : List Log.Entry}
    {before : List (String × String)} (hload : Generation.loadCache request out = (cache, log))
    (hc : CacheOf digest request.reader before cache) :
    Steps (runNames sources before) out (generate digest schedule request sources out).output := by
  rw [generate, hload]
  have hsurvey : Steps (runNames sources before) out
      (survey digest request (cache, log) sources out).output := by
    refine (removeOutputs_steps "Removed "
      (survey digest request (cache, log) sources out).removed out).mono ?_
    rintro n ⟨p, hpr, rfl⟩
    exact .inr (.inr (.inr ⟨p, .inr ((mem_removed hc).1 hpr).1, rfl⟩))
  have hlater : ∀ n, laterNames (read schedule request
      (survey digest request (cache, log) sources out)) n → runNames sources before n := by
    rintro n ((rfl | rfl) | ⟨p, hpm, rfl⟩)
    · exact .inl rfl
    · exact .inr (.inl rfl)
    · exact .inr (.inr (.inr ⟨p, .inl (mem_sources_of_read hs hpm), rfl⟩))
  rcases finish_cases digest schedule request (survey digest request (cache, log) sources out) with
    ⟨emitted, w, hsv⟩ | ⟨-, hsteps⟩
  · refine hsurvey.trans (hsv.steps.mono ?_)
    rintro n (hn | rfl)
    · exact hlater n hn
    · exact .inr (.inr (.inl rfl))
  · exact hsurvey.trans (hsteps.mono hlater)

include hs in
/-- What a run leaves that succeeds. -/
theorem exists_saved {result : Result}
    (hr : Succeeds (generate digest schedule request sources out) result) :
    ∃ cache log emitted w, Generation.loadCache request out = (cache, log) ∧
      CacheOf digest request.reader (comparedTexts request texts) cache ∧
      Saved digest request (survey digest request (cache, log) sources out)
        (read schedule request (survey digest request (cache, log) sources out))
        (generate digest schedule request sources out) emitted w ∧
      result = report (survey digest request (cache, log) sources out)
        (read schedule request (survey digest request (cache, log) sources out)) emitted := by
  rcases generate_cases hs h hp with ⟨cache, log, emitted, w, hl, hc, hsv⟩ | ⟨hno, -⟩
  · exact ⟨cache, log, emitted, w, hl, hc, hsv, Except.ok.inj (hr.1.symm.trans hsv.result)⟩
  · exact absurd hr (hno result)

include hd hs in
/-- A directory remembers the sources of a run that has succeeded. -/
theorem Remembers.of_succeeds {result : Result}
    (hr : Succeeds (generate digest schedule request sources out) result) :
    Remembers digest request.reader (textsOf sources)
      (generate digest schedule request sources out).output := by
  obtain ⟨cache, log, emitted, w, -, hc, hsv, -⟩ := exists_saved hs h hp hr
  have hpaths := fun p => proper_paths (p := p) h hp
  exact {
    sound := sound_output hd hs hc hsv h.sound hpaths
    increasing := textsOf_increasing sources
    proper := fun p hpt => hp p (mem_keys_textsOf hpt)
    cache := .inr ⟨w.cache, cacheOf_saved hd hs hc hsv,
      read?_output_cache hd hs hc hsv h.sound hpaths⟩ }

include hs in
/-- A run that does not succeed leaves the memory of the runs before. -/
theorem Remembers.of_not_succeeds
    (hno : ∀ result, ¬ Succeeds (generate digest schedule request sources out) result) :
    Remembers digest request.reader texts (generate digest schedule request sources out).output := by
  rcases generate_cases hs h hp with
    ⟨cache, log, emitted, w, -, -, hsv⟩ | ⟨-, hsound, hcache⟩
  · exact absurd ⟨hsv.result, sortNames_eq_nil.2 hsv.failed⟩ (hno _)
  · exact {
      sound := hsound
      increasing := h.increasing
      proper := h.proper
      cache := hcache ▸ h.cache }

include hd hs in
/-- After a run that succeeds, everything is right that it has touched or that was right before. -/
theorem agrees_of_succeeds (hforce : request.force = false)
    (hx : StorableExports request.reader texts) (hbd : DistinctOutputs texts)
    (hxt : StorableExports request.reader (textsOf sources))
    (hdist : DistinctOutputs (textsOf sources))
    (hu : UniqueExporters request.reader (textsOf sources)) {result : Result}
    (hr : Succeeds (generate digest schedule request sources out) result) {name : String}
    (hn : Proper σ name) (hcn : name ≠ cacheName)
    (ha : ¬ Touched request result name →
      Agrees request.toSetup texts out name) :
    Agrees request.toSetup (textsOf sources)
      (generate digest schedule request sources out).output name := by
  obtain ⟨cache, log, emitted, w, -, hc, hsv, rfl⟩ := exists_saved hs h hp hr
  have hpaths := fun p => proper_paths (p := p) h hp
  rw [comparedTexts_of_not_force hforce] at hc hpaths
  rw [Agrees]
  by_cases ht : Touched request (report (survey digest request (cache, log) sources out)
      (read schedule request (survey digest request (cache, log) sources out)) emitted) name
  · exact read?_of_touched hd hs hc hx hsv h.sound hpaths hdist hu hxt hn hcn ht
  · rw [read?_of_not_touched hd hs hc hsv h.sound hpaths hdist hn hcn ht, ha ht,
      target?_of_not_touched hd hs hc hx hsv hdist h.increasing hbd ht]

include hd hs in
/-- After a run that succeeds, the declaration files of all its sources can be completed. -/
theorem renders_of_succeeds (hforce : request.force = false)
    (hx : StorableExports request.reader texts) (hren : Renders request.toSetup texts)
    (hu : UniqueExporters request.reader (textsOf sources)) {result : Result}
    (hr : Succeeds (generate digest schedule request sources out) result) :
    unreadable sources = [] ∧ Renders request.toSetup (textsOf sources) := by
  obtain ⟨cache, log, emitted, w, -, hc, hsv, -⟩ := exists_saved hs h hp hr
  rw [comparedTexts_of_not_force hforce] at hc
  exact ⟨(read_of_failed_eq_nil hsv.failed).1, renders_saved hd hs hc hx hsv h.increasing hu hren⟩

end Run

end LuaAmbient.Generation
