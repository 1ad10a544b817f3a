/-
What a run writes.

Main definitions:

* `LuaAmbient.Generation.indexed`, `LuaAmbient.Generation.symbolized` — the directory after the index
  and the file of exported names have been written;
* `LuaAmbient.Generation.laterNames` — the names of the files that a run may change after its
  sources have been surveyed, the cache apart;
* `LuaAmbient.Generation.Saved` — a run that has come to its end without a failed source.

Main results:

* `LuaAmbient.Generation.finish_cases` — **a run either comes to its end, and then it has written
  everything, or it has not touched the cache**.
-/

import LuaAmbient.Proofs.Generation.Records

set_option relaxedAutoImplicit false
set_option autoImplicit false

namespace LuaAmbient.Generation

open OutputStore LawfulOutputStore Emission

variable {σ : Type} [OutputStore σ]

/-! ### Declaration files -/

section Files

variable {digest : String → String} {texts : List (String × String)}

/-- The names of the declaration files of emitted files. -/
def emittedNames (files : List DeclarationFile) (name : String) : Prop :=
  ∃ f ∈ files, name = SourcePath.declaration f.path

/-- Whether all files are written or not, nothing but their names is touched. -/
theorem writeFiles_steps {files : List DeclarationFile} {w w' : Writing σ}
    (h : writeFiles digest texts files w = .ok w' ∨ writeFiles digest texts files w = .error w') :
    Steps (emittedNames files) w.output w'.output := by
  induction files generalizing w with
  | nil =>
      obtain rfl : w = w' := by simpa [writeFiles] using h
      exact .refl
  | cons file rest ih =>
      by_cases hc : canWrite w.output (SourcePath.declaration file.path) = true
      · rw [writeFiles, if_pos hc] at h
        refine .head (.write file.text ⟨file, List.mem_cons_self, rfl⟩ hc) ((ih h).mono ?_)
        rintro n ⟨f, hf, rfl⟩
        exact ⟨f, List.mem_cons_of_mem _ hf, rfl⟩
      · obtain rfl : w = w' := by simpa [writeFiles, hc] using h
        exact .refl

end Files

/-! ### The index, the exported names and the cache -/

/-- The directory after the index has been written. -/
def indexed (paths : List String) (out : σ) : σ :=
  write out indexName (indexText out paths)

/-- The directory after the index and, if asked for, the file of exported names have been written. -/
def symbolized (request : Request) (paths : List String) (cache : RunCache) (out : σ) : σ :=
  if request.symbolIndex then replace (indexed paths out) symbolsName (symbolsText cache)
  else indexed paths out

/-- The names of the index and of the file of exported names. -/
def listNames (name : String) : Prop :=
  name = indexName ∨ name = symbolsName

theorem writeIndex_cases (paths : List String) (out : σ) :
    (canWrite out indexName = true ∧ writeIndex paths out = .ok (indexed paths out)) ∨
      writeIndex paths out = .error out := by
  rw [writeIndex]
  split
  · next h => exact .inl ⟨h, rfl⟩
  · exact .inr rfl

theorem writeSymbols_cases (request : Request) (cache : RunCache) (out : σ) :
    ((request.symbolIndex = true → canReplace out symbolsName = true) ∧
        writeSymbols request cache out = .ok
          (if request.symbolIndex then replace out symbolsName (symbolsText cache) else out)) ∨
      writeSymbols request cache out = .error out := by
  rw [writeSymbols]
  cases request.symbolIndex with
  | false => exact .inl ⟨by simp, by simp⟩
  | true =>
      by_cases h : canReplace out symbolsName = true
      · exact .inl ⟨fun _ => h, by simp [h]⟩
      · exact .inr (by simp [h])

theorem indexed_step {paths : List String} {out : σ} (h : canWrite out indexName = true) :
    Step listNames out (indexed paths out) :=
  .write _ (Or.inl rfl) h

theorem symbolized_steps {request : Request} {paths : List String} {cache : RunCache} {out : σ}
    (hi : canWrite out indexName = true)
    (hs : request.symbolIndex = true → canReplace (indexed paths out) symbolsName = true) :
    Steps listNames out (symbolized request paths cache out) := by
  rw [symbolized]
  split
  · next h => exact .tail (.single (indexed_step hi)) (.replace _ (Or.inr rfl) (hs h))
  · exact .single (indexed_step hi)

/-- The lists are written, or the first of them that cannot be written stops the run. -/
theorem writeLists_cases (request : Request) (paths : List String) (cache : RunCache) (out : σ) :
    (canWrite out indexName = true ∧
        (request.symbolIndex = true → canReplace (indexed paths out) symbolsName = true) ∧
        (writeIndex paths out >>= writeSymbols request cache) =
          .ok (symbolized request paths cache out)) ∨
      ∃ out', (writeIndex paths out >>= writeSymbols request cache) = .error out' ∧
        Steps listNames out out' := by
  rcases writeIndex_cases paths out with ⟨hi, h⟩ | h
  · rw [h]
    rcases writeSymbols_cases request cache (indexed paths out) with ⟨hs, h'⟩ | h'
    · exact .inl ⟨hi, hs, h'⟩
    · exact .inr ⟨_, h', .single (indexed_step hi)⟩
  · rw [h]
    exact .inr ⟨out, rfl, .refl⟩

/-! ### The whole run -/

/-- A run that has come to its end without a failed source: what it has emitted and recorded, and the
directory that it leaves. -/
structure Saved (digest : String → String) (request : Request) (s : Survey σ) (r : Reading)
    (o : Outcome σ) (emitted : List DeclarationFile) (w : Writing σ) : Prop where
  failed : r.failed = []
  emission : (produce request.settings.stubs (r.parsed.map (·.2)) r.cache.graph).1 = .ok emitted
  files : writeFiles digest s.texts emitted ⟨s.output, r.cache, []⟩ = .ok w
  index : canWrite w.output indexName = true
  symbols : request.symbolIndex = true →
    canReplace (indexed (Keyed.keys s.texts) w.output) symbolsName = true
  cache : canReplace (symbolized request (Keyed.keys s.texts) w.cache w.output) cacheName = true
  result : o.result = .ok (report s r emitted)
  output : o.output = replace (symbolized request (Keyed.keys s.texts) w.cache w.output) cacheName
    w.cache.render

/-- The names of the files that a run may change after the survey, the cache apart. -/
def laterNames (r : Reading) (name : String) : Prop :=
  listNames name ∨
    ∃ p, (p ∈ r.failed ∨ p ∈ r.parsed.map (·.2.path)) ∧ name = SourcePath.declaration p

theorem emittedNames_laterNames {configured : List (String × String)} {r : Reading}
    {graph : List (String × List String)} {emitted : List DeclarationFile}
    (h : (produce configured (r.parsed.map (·.2)) graph).1 = .ok emitted) :
    ∀ n, emittedNames emitted n → laterNames r n := by
  rintro n ⟨f, hf, rfl⟩
  have hp := path_mem_of_produce h f hf
  rw [List.map_map] at hp
  exact .inr ⟨f.path, .inr hp, rfl⟩

/-- A run that has come to its end has changed nothing else but the cache. -/
theorem Saved.steps {digest : String → String} {request : Request} {s : Survey σ} {r : Reading}
    {o : Outcome σ} {emitted : List DeclarationFile} {w : Writing σ}
    (h : Saved digest request s r o emitted w) :
    Steps (fun n => laterNames r n ∨ n = cacheName) s.output o.output := by
  have hfiles : Steps (fun n => laterNames r n ∨ n = cacheName) s.output w.output :=
    (writeFiles_steps (.inl h.files)).mono fun n hn => .inl (emittedNames_laterNames h.emission n hn)
  have hlists : Steps (fun n => laterNames r n ∨ n = cacheName) w.output
      (symbolized request (Keyed.keys s.texts) w.cache w.output) :=
    (symbolized_steps h.index h.symbols).mono fun n hn => .inl (.inl hn)
  rw [h.output]
  exact (hfiles.trans hlists).tail (.replace _ (.inr rfl) h.cache)

theorem saveCache_cases (failed : List String) (cache : RunCache) (out : σ) :
    (failed = [] ∧ canReplace out cacheName = true ∧
        ∃ log, saveCache failed cache out = .ok (replace out cacheName cache.render, log)) ∨
      (failed ≠ [] ∧ ∃ log, saveCache failed cache out = .ok (out, log)) ∨
      saveCache failed cache out = .error out := by
  rw [saveCache]
  by_cases hf : failed = []
  · by_cases hc : canReplace out cacheName = true
    · exact .inl ⟨hf, hc, _, by rw [if_pos (by simp [hf]), if_pos hc]⟩
    · exact .inr (.inr (by simp [hf, hc]))
  · exact .inr (.inl ⟨hf, _, by rw [if_neg (by simpa using hf)]⟩)

/-- The names of the files that are written, the cache apart. -/
def writtenNames (emitted : List DeclarationFile) (name : String) : Prop :=
  emittedNames emitted name ∨ listNames name

theorem writeAll_cases (digest : String → String) (request : Request) (s : Survey σ) (r : Reading)
    (out : σ) (emitted : List DeclarationFile) :
    (∃ w, sortNames r.failed = [] ∧
        writeFiles digest s.texts emitted ⟨out, r.cache, []⟩ = .ok w ∧
        canWrite w.output indexName = true ∧
        (request.symbolIndex = true →
          canReplace (indexed (Keyed.keys s.texts) w.output) symbolsName = true) ∧
        canReplace (symbolized request (Keyed.keys s.texts) w.cache w.output) cacheName = true ∧
        (writeAll digest request s r out emitted).result = .ok (report s r emitted) ∧
        (writeAll digest request s r out emitted).output =
          replace (symbolized request (Keyed.keys s.texts) w.cache w.output) cacheName
            w.cache.render) ∨
      ((∀ result, (writeAll digest request s r out emitted).result = .ok result →
          result.failed ≠ []) ∧
        Steps (writtenNames emitted) out (writeAll digest request s r out emitted).output) := by
  rw [writeAll]
  cases hw : writeFiles digest s.texts emitted ⟨out, r.cache, []⟩ with
  | error w => exact .inr ⟨by simp, (writeFiles_steps (.inr hw)).mono fun n => .inl⟩
  | ok w =>
      have hfiles : Steps (writtenNames emitted) out w.output :=
        (writeFiles_steps (.inl hw)).mono fun n => .inl
      rcases writeLists_cases request (Keyed.keys s.texts) w.cache w.output with
        ⟨hi, hs, hl⟩ | ⟨out', hl, hsteps⟩
      · have hlists : Steps (writtenNames emitted) out
            (symbolized request (Keyed.keys s.texts) w.cache w.output) :=
          hfiles.trans ((symbolized_steps hi hs).mono fun n => .inr)
        simp only [hl]
        rcases saveCache_cases (report s r emitted).failed w.cache
          (symbolized request (Keyed.keys s.texts) w.cache w.output) with
          ⟨hf, hc, log, h⟩ | ⟨hf, log, h⟩ | h
        · exact .inl ⟨w, hf, rfl, hi, hs, hc, by simp only [h], by simp only [h]⟩
        · refine .inr ⟨?_, by simpa only [h] using hlists⟩
          simp only [h]
          rintro result hresult
          rwa [← Except.ok.inj hresult]
        · exact .inr ⟨by simp [h], by simpa only [h] using hlists⟩
      · simp only [hl]
        exact .inr ⟨by simp, hfiles.trans (hsteps.mono fun n => .inr)⟩

theorem finish_eq (digest : String → String) (schedule : Schedule) (request : Request)
    (s : Survey σ) {r : Reading} (hr : read schedule request s = r) {left : σ × List Log.Entry}
    (hl : removeOutputs "Removed stale output " (sortNames r.failed) s.output = left) :
    finish digest schedule request s =
      match (produce request.settings.stubs (r.parsed.map (·.2)) r.cache.graph).1 with
      | .error fault => ⟨left.1, s.log ++ r.log ++ left.2 ++
          (produce request.settings.stubs (r.parsed.map (·.2)) r.cache.graph).2, .error fault⟩
      | .ok files =>
        { writeAll digest request s r left.1 files with
          log := s.log ++ r.log ++ left.2 ++
            (produce request.settings.stubs (r.parsed.map (·.2)) r.cache.graph).2 ++
              (writeAll digest request s r left.1 files).log } := by
  subst hr hl
  rfl

/-- **A run either comes to its end, and then it has written everything, or it has not touched the
cache.** -/
theorem finish_cases (digest : String → String) (schedule : Schedule) (request : Request)
    (s : Survey σ) :
    (∃ emitted w, Saved digest request s (read schedule request s)
        (finish digest schedule request s) emitted w) ∨
      ((∀ result, (finish digest schedule request s).result = .ok result → result.failed ≠ []) ∧
        Steps (laterNames (read schedule request s)) s.output
          (finish digest schedule request s).output) := by
  generalize hr : read schedule request s = r
  have hleft := removeOutputs_steps "Removed stale output " (sortNames r.failed) s.output
  generalize hl : removeOutputs "Removed stale output " (sortNames r.failed) s.output = left at hleft
  have hremoved : Steps (laterNames r) s.output left.1 := by
    refine hleft.mono ?_
    rintro n ⟨p, hp, rfl⟩
    exact .inr ⟨p, .inl (mem_sortNames.1 hp), rfl⟩
  rw [finish_eq digest schedule request s hr hl]
  cases he : (produce request.settings.stubs (r.parsed.map (·.2)) r.cache.graph).1 with
  | error fault => exact .inr ⟨by simp, hremoved⟩
  | ok emitted =>
      have hnames : ∀ n, writtenNames emitted n → laterNames r n := by
        rintro n (h | h)
        · exact emittedNames_laterNames he n h
        · exact .inl h
      rcases writeAll_cases digest request s r left.1 emitted with
        ⟨w, hf, hw, hi, hs, hc, hres, hout⟩ | ⟨hres, hsteps⟩
      · -- no source has failed, so that nothing was removed before the files were written
        have hnil : r.failed = [] := sortNames_eq_nil.1 hf
        rw [hf, removeOutputs_nil] at hl
        obtain rfl := hl
        exact .inl ⟨emitted, w, hnil, he, hw, hi, hs, hc, hres, hout⟩
      · exact .inr ⟨hres, hremoved.trans (hsteps.mono hnames)⟩

end LuaAmbient.Generation
