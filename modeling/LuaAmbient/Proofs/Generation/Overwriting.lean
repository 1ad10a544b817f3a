/-
**Which declaration files are left as they were written.**

A run writes the declaration files of its sources one after the other, and the index behind them.
Different paths may lead to one declaration file: backslashes count as slashes, and drives and dots
are dropped.  So a file is lost to a later one of the same name, and one with the name of the index
is lost to the index; no declaration file has the name of the exported names or of the cache.

Main definitions:

* `LuaAmbient.Generation.lastNamed` — the last of several files that go to one name;
* `LuaAmbient.Generation.Survives` — no other file is left in the place of a declaration file.

Main results:

* `LuaAmbient.Generation.read?_writeFiles_lastNamed` — what stands under a name after files have
  been written;
* `LuaAmbient.Generation.indexText_ne_of_produce` — the index is no declaration file;
* `LuaAmbient.Generation.survives_of_finish` — **a run that returns leaves a declaration file as it
  has written it exactly if the file survives**.
-/

import LuaAmbient.Proofs.Generation.Imports

set_option relaxedAutoImplicit false
set_option autoImplicit false

namespace LuaAmbient.Generation

open OutputStore LawfulOutputStore Emission

variable {σ : Type} [OutputStore σ]

/-! ### Files of one name -/

/-- The last of several files that go to a name. -/
def lastNamed (files : List DeclarationFile) (name : String) : Option DeclarationFile :=
  files.reverse.find? fun f => SourcePath.declaration f.path == name

/-- The file is the last one of its name, or that one has the same text; and the name is not that of
the index. -/
def Survives (files : List DeclarationFile) (f : DeclarationFile) : Prop :=
  SourcePath.declaration f.path ≠ indexName ∧
    ∀ g, lastNamed files (SourcePath.declaration f.path) = some g → g.text = f.text

theorem lastNamed_cons (f : DeclarationFile) (files : List DeclarationFile) (name : String) :
    lastNamed (f :: files) name = (lastNamed files name).or
      (if SourcePath.declaration f.path = name then some f else none) := by
  rw [lastNamed, List.reverse_cons, List.find?_append, lastNamed, List.find?_singleton]
  simp

/-- A file of the name is there. -/
theorem exists_lastNamed {files : List DeclarationFile} {f : DeclarationFile} (hf : f ∈ files) :
    ∃ g, lastNamed files (SourcePath.declaration f.path) = some g := by
  refine Option.isSome_iff_exists.1 (List.find?_isSome.2 ⟨f, List.mem_reverse.2 hf, ?_⟩)
  exact beq_self_eq_true _

/-- What stands under a name after files have been written: the last of the files that go there. -/
theorem read?_writeFiles_lastNamed [LawfulOutputStore σ] {digest : String → String}
    {texts : List (String × String)} {files : List DeclarationFile} {w w' : Writing σ}
    (h : writeFiles digest texts files w = .ok w') (hs : Sound w.output)
    (hp : ∀ f ∈ files, Proper σ (SourcePath.declaration f.path)) {name : String}
    (hn : Proper σ name) :
    read? w'.output name =
      ((lastNamed files name).map fun f => .text f.text).or (read? w.output name) := by
  induction files generalizing w with
  | nil =>
      obtain rfl : w = w' := by simpa [writeFiles] using h
      rfl
  | cons f rest ih =>
      by_cases hc : canWrite w.output (SourcePath.declaration f.path) = true
      · rw [writeFiles, if_pos hc] at h
        have hf := hp f List.mem_cons_self
        have hs' : Sound (writeFile digest texts w f).output := sound_write hs hf hc
        have hfirst : read? (writeFile digest texts w f).output name =
            if name = SourcePath.declaration f.path then some (.text f.text)
            else read? w.output name := read?_write hs hf hc hn
        rw [ih h hs' fun g hg => hp g (List.mem_cons_of_mem _ hg), hfirst, lastNamed_cons]
        cases lastNamed rest name with
        | some g => rfl
        | none =>
            by_cases hname : name = SourcePath.declaration f.path
            · simp [hname]
            · simp [hname, Ne.symm hname]
      · simp [writeFiles, hc] at h

/-! ### The index is no declaration file -/

/-- The index is empty or starts with an export. -/
theorem head?_indexText (out : σ) (paths : List String) :
    ∀ c ∈ (indexText out paths).toList.head?, c = 'e' := by
  have hline (p : String) : (indexLine p).toList.head? = some 'e' := by
    unfold indexLine
    simp only [String.append_assoc]
    exact Text.head?_toList_append (by decide +kernel) _
  rw [indexText, concat]
  cases paths.filter (hasOutput out) with
  | nil =>
      intro c hc
      cases hc
  | cons p rest =>
      rw [List.map_cons, Text.head?_toList_joinWith (hline p)]
      exact fun c hc => (Option.some.inj hc).symm

/-- A declaration file starts with an import or with the banner. -/
theorem head?_text_of_produce {configured : List (String × String)}
    {files : List SourceDeclarations} {graph : List (String × List String)}
    {emitted : List DeclarationFile} (hn : (files.map (·.path)).Nodup)
    (h : (produce configured files graph).1 = .ok emitted) {f : DeclarationFile}
    (hf : f ∈ emitted) : f.text.toList.head? = some 'i' ∨ f.text.toList.head? = some '/' := by
  obtain ⟨source, -, -, hresolves⟩ := (produce_resolves hn h).2 f hf
  obtain ⟨lines, hlines, htext⟩ := hresolves.text
  rw [htext, String.append_assoc, String.append_assoc]
  cases lines with
  | nil =>
      rw [importHead, List.isEmpty_nil, if_pos rfl, String.empty_append]
      exact .inr (Text.head?_toList_append (by decide +kernel) _)
  | cons line lines =>
      obtain ⟨entry, _, ⟨place, -, rfl⟩, -, -⟩ := List.forall₂_cons_right_iff.1 hlines
      rw [importHead, if_neg (by simp), String.append_assoc]
      refine .inl (Text.head?_toList_append (Text.head?_toList_joinWith ?_ _ _) _)
      simp only [String.append_assoc]
      exact Text.head?_toList_append (by decide +kernel) _

/-- The index is no declaration file. -/
theorem indexText_ne_of_produce {configured : List (String × String)}
    {files : List SourceDeclarations} {graph : List (String × List String)}
    {emitted : List DeclarationFile} (hn : (files.map (·.path)).Nodup)
    (h : (produce configured files graph).1 = .ok emitted) {f : DeclarationFile}
    (hf : f ∈ emitted) (out : σ) (paths : List String) : indexText out paths ≠ f.text := by
  intro heq
  have hindex := head?_indexText out paths
  rw [heq] at hindex
  rcases head?_text_of_produce hn h hf with hhead | hhead
  · exact absurd (hindex 'i' hhead) (by decide)
  · exact absurd (hindex '/' hhead) (by decide)

/-! ### The end of a run -/

section Ended

variable [LawfulOutputStore σ] {digest : String → String} {request : Request}
  {sources : List (String × Option String)} {s : Survey σ} {r : Reading} {o : Outcome σ}
  {result : Result} {emitted : List DeclarationFile} {w : Writing σ}
  (hdiv : Division sources s r) (he : Ended digest request s r o result emitted w)
  (hsound : Sound s.output) (hp : ∀ p ∈ sources.map (·.1), Proper σ (SourcePath.declaration p))

include hdiv he hsound hp

/-- What stands in the place of a declaration file that the run has written. -/
theorem read?_ended_lastNamed {f : DeclarationFile} (hf : f ∈ emitted) :
    read? o.output (SourcePath.declaration f.path) =
      if SourcePath.declaration f.path = indexName then
        some (.text (indexText w.output (Keyed.keys s.texts)))
      else (lastNamed emitted (SourcePath.declaration f.path)).map fun g => .text g.text := by
  have hname : Proper σ (SourcePath.declaration f.path) :=
    proper_emittedNames hdiv he hp ⟨f, hf, rfl⟩
  rw [read?_ended hdiv he hsound hp hname (declaration_ne_cacheName _)]
  split
  · next hi => rw [hi, read?_lists_index hdiv he hsound hp]
  · next hi =>
    have hlists : ¬ listNames (SourcePath.declaration f.path) := by
      rintro (h | h)
      · exact hi h
      · exact declaration_ne_symbolsName _ h
    obtain ⟨g, hg⟩ := exists_lastNamed hf
    rw [read?_lists hdiv he hsound hp hname hlists,
      read?_writeFiles_lastNamed he.files (sound_cleared hdiv hsound hp)
        (fun g hg => proper_emittedNames hdiv he hp ⟨g, hg, rfl⟩) hname, hg]
    rfl

/-- A declaration file is left as it was written exactly if it survives. -/
theorem read?_ended_iff_survives {f : DeclarationFile} (hf : f ∈ emitted) :
    read? o.output (SourcePath.declaration f.path) = some (.text f.text) ↔ Survives emitted f := by
  rw [read?_ended_lastNamed hdiv he hsound hp hf, Survives]
  have hpaths : (r.parsed.map (·.2)).map (·.path) = Keyed.keys r.parsed := by
    rw [List.map_map]
    exact List.map_congr_left fun q hq => hdiv.path_parsed q hq
  have hindex : indexText w.output (Keyed.keys s.texts) ≠ f.text :=
    indexText_ne_of_produce (hpaths ▸ hdiv.nodup_parsed) he.emission hf _ _
  obtain ⟨g, hg⟩ := exists_lastNamed hf
  rw [hg]
  by_cases hi : SourcePath.declaration f.path = indexName
  · simp [hi, hindex]
  · simp [hi]

end Ended

/-- **A run that returns leaves a declaration file as it has written it exactly if the file
survives**, whatever cache it has loaded. -/
theorem survives_of_finish [LawfulOutputStore σ] {digest : String → String} {schedule : Schedule}
    {request : Request} {loaded : RunCache × List Log.Entry}
    {sources : List (String × Option String)} {out : σ} {result : Result} (hs : Complete schedule)
    (hsound : Sound (survey digest request loaded sources out).output)
    (hp : ∀ p ∈ sources.map (·.1), Proper σ (SourcePath.declaration p))
    (hn : (sources.map (·.1)).Nodup)
    (hr : (finish digest schedule request
      (survey digest request loaded sources out)).result = .ok result) :
    ∃ emitted, emission schedule request (survey digest request loaded sources out) =
        .ok emitted ∧
      result.written = orderNames (emitted.map (·.path)) ∧
      ∀ f ∈ emitted, read? (finish digest schedule request
          (survey digest request loaded sources out)).output (SourcePath.declaration f.path) =
        some (.text f.text) ↔ Survives emitted f := by
  have hdiv := @division_read σ _ digest schedule request sources out loaded.1 loaded.2 hs hn
  obtain ⟨emitted, w, he⟩ := exists_ended hr
  refine ⟨emitted, he.emission, ?_, fun f hf => read?_ended_iff_survives hdiv he hsound hp hf⟩
  rw [he.result]
  rfl

end LuaAmbient.Generation
