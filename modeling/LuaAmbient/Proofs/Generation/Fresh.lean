/-
**A run from scratch comes to its end, and leaves what belongs to its sources.**

Nothing stands in the way of a run into a vacant directory if its files stand side by side in some
other directory.

Main definitions:

* `LuaAmbient.Generation.freshNames` — the names of the files that a run from scratch writes.

Main results:

* `LuaAmbient.Generation.generate_fresh` — **a run from scratch succeeds**;
* `LuaAmbient.Generation.read?_fresh` — **what a run from scratch leaves**.
-/

import LuaAmbient.Proofs.Generation.Agreement

set_option relaxedAutoImplicit false
set_option autoImplicit false

namespace LuaAmbient.Generation

open OutputStore LawfulOutputStore Emission

variable {σ : Type} [OutputStore σ]

/-! ### Writing without obstacles -/

theorem writeAll_result {digest : String → String} {request : Request} {s : Survey σ} {r : Reading}
    {out : σ} {emitted : List DeclarationFile} {w : Writing σ} (hf : r.failed = [])
    (hw : writeFiles digest s.texts emitted ⟨out, r.cache, []⟩ = .ok w)
    (hi : canWrite w.output indexName = true)
    (hs : request.symbolIndex = true →
      canReplace (indexed (Keyed.keys s.texts) w.output) symbolsName = true)
    (hc : canReplace (symbolized request (Keyed.keys s.texts) w.cache w.output) cacheName = true) :
    (writeAll digest request s r out emitted).result = .ok (report s r emitted) := by
  have hnil : (report s r emitted).failed = [] := sortNames_eq_nil.2 hf
  have hindex : writeIndex (Keyed.keys s.texts) w.output =
      .ok (indexed (Keyed.keys s.texts) w.output) := by
    rw [writeIndex, if_pos hi]
    rfl
  have hlists : (writeIndex (Keyed.keys s.texts) w.output >>= writeSymbols request w.cache) =
      .ok (symbolized request (Keyed.keys s.texts) w.cache w.output) := by
    rw [hindex]
    change writeSymbols request w.cache (indexed (Keyed.keys s.texts) w.output) = _
    rw [writeSymbols, symbolized]
    cases hb : request.symbolIndex with
    | false => rfl
    | true => rw [if_pos rfl, if_pos (hs hb), if_pos rfl]
  have hsave : ∃ saved, saveCache (report s r emitted).failed w.cache
      (symbolized request (Keyed.keys s.texts) w.cache w.output) = .ok saved := by
    rw [saveCache, if_pos (by simp [hnil]), if_pos hc]
    exact ⟨_, rfl⟩
  obtain ⟨saved, hsaved⟩ := hsave
  simp only [writeAll, hw, hlists, hsaved]

variable [LawfulOutputStore σ]

/-- The names of the files that a run from scratch writes. -/
def freshNames (symbolIndex : Bool) (texts : List (String × String)) (name : String) : Prop :=
  name = indexName ∨ (symbolIndex = true ∧ name = symbolsName) ∨ name = cacheName ∨
    ∃ p ∈ Keyed.keys texts, name = SourcePath.declaration p

section Grown

variable {names : String → Prop} {model : σ} (hm : Sound model)
  (hall : ∀ n, names n → Proper σ n ∧ (read? model n).isSome)

include hm hall

theorem writeFiles_of_grown (digest : String → String) (texts : List (String × String))
    {files : List DeclarationFile} {w : Writing σ} (hg : Grown names w.output)
    (hn : ∀ f ∈ files, names (SourcePath.declaration f.path)) :
    ∃ w', writeFiles digest texts files w = .ok w' ∧ Grown names w'.output := by
  induction files generalizing w with
  | nil => exact ⟨w, rfl, hg⟩
  | cons file rest ih =>
      have hname := hn file List.mem_cons_self
      have hc := canWrite_of_grown hg hm hall hname
      rw [writeFiles, if_pos hc]
      exact ih (grown_write hg hname (hall _ hname).1 hc) fun f hf => hn f (List.mem_cons_of_mem _ hf)

theorem writeAll_of_grown {digest : String → String} {request : Request} {s : Survey σ}
    {r : Reading} {out : σ} {emitted : List DeclarationFile} (hf : r.failed = [])
    (hg : Grown names out) (hn : ∀ f ∈ emitted, names (SourcePath.declaration f.path))
    (hi : names indexName) (hs : request.symbolIndex = true → names symbolsName)
    (hc : names cacheName) :
    (writeAll digest request s r out emitted).result = .ok (report s r emitted) := by
  have hg' : Grown names (Writing.mk out r.cache []).output := hg
  obtain ⟨w, hw, hgw⟩ := writeFiles_of_grown hm hall digest s.texts hg' hn
  have hci := canWrite_of_grown hgw hm hall hi
  have hgi : Grown names (indexed (Keyed.keys s.texts) w.output) :=
    grown_write hgw hi (hall _ hi).1 hci
  have hcs : request.symbolIndex = true →
      canReplace (indexed (Keyed.keys s.texts) w.output) symbolsName = true :=
    fun hb => canReplace_of_grown hgi hm hall (hs hb)
  have hgs : Grown names (symbolized request (Keyed.keys s.texts) w.cache w.output) := by
    rw [symbolized]
    split
    · next hb => exact grown_replace hgi (hs hb) (hall _ (hs hb)).1 (hcs hb)
    · exact hgi
  exact writeAll_result hf hw hci hcs (canReplace_of_grown hgs hm hall hc)

end Grown

/-! ### The run -/

theorem loadCache_of_vacant {request : Request} {out : σ} (hv : Vacant out) :
    (loadCache request out).1 = RunCache.empty currentVersion := by
  rw [loadCache]
  split
  · rfl
  · rw [read?_of_vacant hv proper_cache]
    rfl

section Fresh

variable {digest : String → String} {schedule : Schedule} {request : Request}
  {sources : List (String × Option String)} {out : σ} {log : List Log.Entry}

omit [LawfulOutputStore σ] in
theorem unchanged_of_empty :
    (survey digest request (RunCache.empty currentVersion, log) sources out).unchanged = [] := by
  rw [List.eq_nil_iff_forall_not_mem]
  intro p hp
  change p ∈ Keyed.keys ((textsOf sources).filter _) at hp
  obtain ⟨text, -, hu⟩ := (mem_keys_filter (nodup_keys_textsOf sources)).1 hp
  simp [isUpToDate, RunCache.isCurrent, RunCache.keepOnly, RunCache.empty, RunCache.entry?] at hu

omit [LawfulOutputStore σ] in
theorem output_of_empty :
    (survey digest request (RunCache.empty currentVersion, log) sources out).output = out := by
  have h : (RunCache.empty currentVersion).outdated (Keyed.keys (textsOf sources)) = [] :=
    orderNames_nil
  change (removeOutputs "Removed "
    ((RunCache.empty currentVersion).outdated (Keyed.keys (textsOf sources))) out).1 = out
  rw [h, removeOutputs_nil]

omit [OutputStore σ] [LawfulOutputStore σ] in
theorem failed_read_of_unchanged_eq_nil (hs : Complete schedule) {s : Survey σ}
    (hu : s.unchanged = []) (hr : s.unreadable = [])
    (hp : ∀ p ∈ s.changed, ∃ file, sourceOf request.reader s.texts p = .ok file) :
    (read schedule request s).failed = [] := by
  have hfirst := (failed_readBatch_eq_nil hs).2 hp
  have hsecond : (readBatch schedule request.reader s.texts []).failed = [] :=
    (failed_readBatch_eq_nil hs).2 (by simp)
  simp only [read, hu, hr, List.filter_nil, List.nil_append]
  rw [hfirst, hsecond]
  rfl

variable (hd : Function.Injective digest) (hs : Complete schedule)
  (hr : unreadable sources = [])
  (hfiles : Renders request.toSetup (textsOf sources))
  (hu : UniqueExporters request.reader (textsOf sources))

include hs hr hfiles in
omit [LawfulOutputStore σ] in
theorem failed_read_fresh :
    (read schedule request
      (survey digest request (RunCache.empty currentVersion, log) sources out)).failed = [] := by
  refine failed_read_of_unchanged_eq_nil hs unchanged_of_empty hr ?_
  intro p hp
  obtain ⟨file, -, hfile, -⟩ := hfiles p (mem_changed.1 hp).1
  exact ⟨file, hfile⟩

include hd hs hr hfiles in
omit [LawfulOutputStore σ] in
/-- What is emitted has the paths of sources. -/
theorem mem_keys_of_produce_fresh {emitted : List DeclarationFile}
    (h : (produce request.settings.stubs
      ((read schedule request (survey digest request (RunCache.empty currentVersion, log) sources
        out)).parsed.map (·.2))
      (read schedule request (survey digest request (RunCache.empty currentVersion, log) sources
        out)).cache.graph).1 = .ok emitted) {f : DeclarationFile} (hf : f ∈ emitted) :
    f.path ∈ Keyed.keys (textsOf sources) := by
  have hc := cacheOf_empty digest request.reader
  have hfail : (read schedule request (survey digest request (RunCache.empty currentVersion, log)
    sources out)).failed = [] := failed_read_fresh hs hr hfiles
  have hpath := path_mem_of_produce h f hf
  rw [map_path_parsed hd hs hc hfail] at hpath
  obtain ⟨q, hq, hqf⟩ := List.mem_map.1 hpath
  exact hqf ▸ ((mem_parsed_iff hd hs hc hfail).1 hq).1

include hd hs hr hfiles hu in
omit [LawfulOutputStore σ] in
theorem produce_fresh :
    ∃ emitted, (produce request.settings.stubs
      ((read schedule request (survey digest request (RunCache.empty currentVersion, log) sources
        out)).parsed.map (·.2))
      (read schedule request (survey digest request (RunCache.empty currentVersion, log) sources
        out)).cache.graph).1 = .ok emitted := by
  have hc := cacheOf_empty digest request.reader
  have hf : (read schedule request (survey digest request (RunCache.empty currentVersion, log)
    sources out)).failed = [] := failed_read_fresh hs hr hfiles
  rw [(read_of_failed_eq_nil hf).2.2.2.2.2]
  refine produce_eq_ok_of_forall (nodup_path_parsed hd hs hc hf) ?_
  intro file hfile
  -- no file is skipped, so that a file is resolved as it is in the text that belongs to all sources
  obtain ⟨hm, -⟩ := (mem_parsedFiles hd hs hc hf).1 hfile
  obtain ⟨file', f, hfile', hrend⟩ := hfiles file.path (mem_filesOf.1 hm).1
  obtain rfl : file' = file := Except.ok.inj (hfile'.symm.trans (mem_filesOf.1 hm).2)
  refine ⟨f, ?_⟩
  rw [← hrend, rendered]
  exact complete_congr _ _ fun n _ =>
    owner?_survey hd hs hc (fun p n hn => by simp [exportsAt] at hn) hf hu n

include hd hs hr hfiles hu in
/-- **A run from scratch succeeds.** -/
theorem generate_fresh (hv : Vacant out)
    (hp : ∀ p ∈ Keyed.keys (textsOf sources), Proper σ (SourcePath.declaration p))
    {model : σ} (hm : Sound model)
    (hall : ∀ n, freshNames request.symbolIndex (textsOf sources) n → (read? model n).isSome) :
    ∃ result, (generate digest schedule request sources out).result = .ok result ∧
      result.failed = [] := by
  obtain ⟨log, hload⟩ : ∃ log, loadCache request out = (RunCache.empty currentVersion, log) :=
    ⟨_, Prod.ext (loadCache_of_vacant hv) rfl⟩
  obtain ⟨emitted, he⟩ := @produce_fresh σ _ digest schedule request sources out log hd hs hr hfiles hu
  have hpaths := fun f hf => mem_keys_of_produce_fresh (f := f) hd hs hr hfiles he hf
  have hf : (read schedule request (survey digest request (RunCache.empty currentVersion, log) sources
    out)).failed = [] := failed_read_fresh hs hr hfiles
  have hout : (survey digest request (RunCache.empty currentVersion, log) sources out).output = out :=
    output_of_empty
  rw [generate, hload]
  generalize survey digest request (RunCache.empty currentVersion, log) sources out = s at he hf hout ⊢
  have hproper : ∀ n, freshNames request.symbolIndex (textsOf sources) n →
      Proper σ n ∧ (read? model n).isSome := by
    intro n hn
    refine ⟨?_, hall n hn⟩
    rcases hn with rfl | ⟨-, rfl⟩ | rfl | ⟨p, hpt, rfl⟩
    · exact proper_index
    · exact proper_symbols
    · exact proper_cache
    · exact hp p hpt
  have hnames : ∀ f ∈ emitted,
      freshNames request.symbolIndex (textsOf sources) (SourcePath.declaration f.path) :=
    fun f hf => .inr (.inr (.inr ⟨f.path, hpaths f hf, rfl⟩))
  have hleft : removeOutputs "Removed stale output " (sortNames (read schedule request s).failed)
      s.output = (s.output, []) := by
    rw [sortNames_eq_nil.2 hf, removeOutputs_nil]
  rw [finish_eq digest schedule request s rfl hleft, he]
  refine ⟨_, writeAll_of_grown hm hproper hf (hout.symm ▸ grown_of_vacant hv) hnames (.inl rfl)
    (fun hb => .inr (.inl ⟨hb, rfl⟩)) (.inr (.inr (.inl rfl))), ?_⟩
  exact sortNames_eq_nil.2 hf

/-- **What a run from scratch leaves.** -/
theorem read?_fresh (hd : Function.Injective digest) (hs : Complete schedule)
    (hu : UniqueExporters request.reader (textsOf sources))
    (hx : StorableExports request.reader (textsOf sources))
    (hdist : DistinctOutputs (textsOf sources)) (hv : Vacant out)
    (hp : ∀ p ∈ Keyed.keys (textsOf sources), Proper σ (SourcePath.declaration p))
    {result : Result} (hres : (generate digest schedule request sources out).result = .ok result)
    (hf : result.failed = []) {name : String} (hn : Proper σ name) (hcn : name ≠ cacheName) :
    read? (generate digest schedule request sources out).output name =
      (target? request.toSetup (textsOf sources) name).map .text := by
  obtain ⟨log, hload⟩ : ∃ log, loadCache request out = (RunCache.empty currentVersion, log) :=
    ⟨_, Prod.ext (loadCache_of_vacant hv) rfl⟩
  rw [generate, hload] at hres ⊢
  have hc := cacheOf_empty digest request.reader
  have hx0 : StorableExports request.reader [] := fun p n h => by simp [exportsAt] at h
  have hpaths : ∀ p, p ∈ Keyed.keys (textsOf sources) ∨ p ∈ Keyed.keys ([] : List (String × String)) →
      Proper σ (SourcePath.declaration p) := by
    rintro p (h | h)
    · exact hp p h
    · simp at h
  rcases finish_cases digest schedule request
    (survey digest request (RunCache.empty currentVersion, log) sources out) with
    ⟨emitted, w, hsv⟩ | ⟨hno, -⟩
  · have ho := sound_of_vacant hv
    by_cases ht : Touched request (report (survey digest request (RunCache.empty currentVersion, log)
        sources out) (read schedule request (survey digest request (RunCache.empty currentVersion,
        log) sources out)) emitted) name
    · exact read?_of_touched hd hs hc hx0 hsv ho hpaths hdist hu hx hn hcn ht
    · have hi : name ≠ indexName := fun h => ht (.inl h)
      have hsym : request.symbolIndex = true → name ≠ symbolsName :=
        fun hb h => ht (.inr (.inl ⟨hb, h⟩))
      rw [read?_of_not_touched hd hs hc hsv ho hpaths hdist hn hcn ht, read?_of_vacant hv hn,
        ← target?_of_not_touched hd hs hc hx0 hsv hdist List.Pairwise.nil (by simp [DistinctOutputs])
          ht, target?_eq_none hi hsym (by simp)]
      rfl
  · exact absurd hf (hno result hres)

end Fresh

end LuaAmbient.Generation
