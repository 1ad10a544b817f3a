/-
A run of the generator.

A run reads the sources that have changed since the last run, and those that use a name whose
exporter may have changed.  It writes their declaration files, the index of all declaration files,
and, if no source failed, the cache for the next run.

Main definitions:

* `LuaAmbient.Generation.Survey` — which sources there are, which have gone, and which have to be
  read;
* `LuaAmbient.Generation.Reading` — the declarations of all sources that had to be read;
* `LuaAmbient.Generation.writeAll` — what is written, up to the first file that something stands in
  the way of;
* `LuaAmbient.Generation.generate` — **a run**.
-/

import LuaAmbient.Generation.Batch

set_option autoImplicit false

namespace LuaAmbient.Generation

variable {σ : Type} [OutputStore σ]

/-! ### The survey -/

/-- The sources with their texts. -/
def readable (sources : List (String × Option String)) : List (String × String) :=
  sources.filterMap fun s => s.2.map fun text => (s.1, text)

/-- The sources that cannot be read. -/
def unreadable (sources : List (String × Option String)) : List String :=
  (sources.filter fun s => s.2.isNone).map (·.1)

/-- The message about a source that cannot be read. -/
def unreadableMessage (path : String) : Log.Entry :=
  ⟨.error, path ++ ": cannot read source"⟩

/-- The names that cached files export of which the paths fulfil a condition. -/
def cachedExports (cache : RunCache) (p : String → Bool) : List String :=
  (cache.entries.filter fun e => p e.1).flatMap fun e => e.2.exports

/-- What is known before sources are read. -/
structure Survey (σ : Type) where
  /-- The texts of all sources, sorted by path. -/
  texts : List (String × String)
  /-- The sources that cannot be read. -/
  unreadable : List String
  /-- The cache without the sources that have gone. -/
  cache : RunCache
  /-- The sources that have gone. -/
  removed : List String
  /-- The names that the sources that have gone exported. -/
  removedExports : List String
  /-- The sources to read. -/
  changed : List String
  /-- The sources whose texts and declaration files are those of the last run. -/
  unchanged : List String
  output : σ
  log : List Log.Entry

/-- The cache that a run starts with, and the messages about it. -/
def loadCache (request : Request) (out : σ) : RunCache × List Log.Entry :=
  if request.force then (RunCache.empty currentVersion, [])
  else RunCache.load currentVersion (OutputStore.shown out cacheName)
    (OutputStore.read? out cacheName)

/-- Whether a source need not be read: its text is the recorded one, and its declaration file is
there. -/
def isUpToDate (digest : String → String) (request : Request) (cache : RunCache) (out : σ)
    (source : String × String) : Bool :=
  !request.force && cache.isCurrent digest source.1 source.2 && hasOutput out source.1

/-- Finds out which sources there are, which have gone, and which have to be read, from the cache
that was loaded.  The declaration files of sources that have gone are removed. -/
def survey (digest : String → String) (request : Request) (loaded : RunCache × List Log.Entry)
    (sources : List (String × Option String)) (out : σ) : Survey σ :=
  let texts := Keyed.sorted (Keyed.ofList (readable sources))
  let paths := Keyed.keys texts
  let removed := loaded.1.outdated paths
  let kept := loaded.1.keepOnly paths
  let left := removeOutputs "Removed " removed out
  { texts := texts
    unreadable := unreadable sources
    cache := kept
    removed := removed
    removedExports := cachedExports loaded.1 fun p => !paths.contains p
    changed := Keyed.keys (texts.filter fun s => !isUpToDate digest request kept left.1 s)
    unchanged := Keyed.keys (texts.filter (isUpToDate digest request kept left.1))
    output := left.1
    log := loaded.2 ++ (unreadable sources).map unreadableMessage ++ left.2 }

/-! ### Reading -/

/-- The names of either list that are not in the other. -/
def exportDifference (before after : List String) : List String :=
  dropNames before after ++ dropNames after before

/-- The names of which the exporters may have changed because sources were read. -/
def changedExports (cache : RunCache) (parsed : List (String × SourceDeclarations)) :
    List String :=
  parsed.flatMap fun p =>
    exportDifference (((cache.entry? p.1).map (·.exports)).getD []) p.2.exportNames

/-- Whether a cached file uses a name of a list. -/
def usesAny (cache : RunCache) (names : List String) (path : String) : Bool :=
  match cache.entry? path with
  | some e => names.any fun n => e.imports.contains n || e.missing.contains n
  | none => false

/-- The declarations of all sources that had to be read. -/
structure Reading where
  parsed : List (String × SourceDeclarations)
  /-- The sources that failed, some perhaps twice. -/
  failed : List String
  /-- The sources that were not read. -/
  skipped : List String
  /-- The cache without the sources that failed at first. -/
  cache : RunCache
  log : List Log.Entry
deriving Repr, Inhabited

/-- The message before unchanged sources are read. -/
def dependentsMessage (paths : List String) : List Log.Entry :=
  if paths.isEmpty then []
  else [⟨.info, "Re-rendering " ++ toString paths.length ++ " dependent file(s)"⟩]

/-- Reads the changed sources, and then the unchanged ones that use a name whose exporter may have
changed. -/
def read (schedule : Schedule) (request : Request) (s : Survey σ) : Reading :=
  let first := readBatch schedule request.reader s.texts s.changed
  let failedExports := cachedExports s.cache fun p => first.failed.contains p
  let cache := s.cache.keepOnly (dropNames (Keyed.keys s.cache.entries) first.failed)
  let names := changedExports cache first.parsed ++ s.removedExports ++ failedExports
  let dependents := s.unchanged.filter (usesAny cache names)
  let second := readBatch schedule request.reader s.texts dependents
  { parsed := first.parsed ++ second.parsed
    failed := s.unreadable ++ first.failed ++ second.failed
    skipped := dropNames s.unchanged dependents
    cache := cache
    log := first.log ++ dependentsMessage dependents ++ second.log }

/-! ### Writing -/

/-- The state while declaration files are written. -/
structure Writing (σ : Type) where
  output : σ
  cache : RunCache
  log : List Log.Entry

/-- Writes a declaration file and records it in the cache. -/
def writeFile (digest : String → String) (texts : List (String × String)) (w : Writing σ)
    (file : Emission.DeclarationFile) : Writing σ :=
  let name := SourcePath.declaration file.path
  { output := OutputStore.write w.output name file.text
    cache := w.cache.record digest file.path ((Keyed.get? texts file.path).getD "") file.exports
      file.imports file.missing
    log := w.log ++ [⟨.debug, "Wrote " ++ OutputStore.shown w.output name⟩] }

/-- The line of the index for a source. -/
def indexLine (path : String) : String :=
  "export * from \"./" ++ SourcePath.specifier path ++ "\";\n"

/-- The text of the index: a line for every source that has a declaration file. -/
def indexText (out : σ) (paths : List String) : String :=
  Emission.concat ((paths.filter (hasOutput out)).map indexLine)

/-- The text of the file of exported names. -/
def symbolsText (cache : RunCache) : String :=
  let index := Emission.Exporters.build [] cache.graph
  Json.render (.record (index.owners.map fun o => (o.1, .string o.2)))

/-- The names of emitted files that no file exports. -/
def unresolvedNames (files : List Emission.DeclarationFile) : List Unresolved :=
  files.flatMap fun f => f.missing.map fun n => ⟨f.path, n⟩

/-- The warning about names that no file exports. -/
def unresolvedMessage (names : List Unresolved) : List Log.Entry :=
  if names.isEmpty then []
  else [⟨.warning, "Unresolved types (declared as local stubs):\n  " ++
    Text.joinWith "\n  " (names.map fun u => describeUnresolved u.path u.name)⟩]

/-- The closing message. -/
def summaryMessage (r : Result) : Log.Entry :=
  ⟨.info, "Generated " ++ toString r.written.length ++ " file(s), skipped " ++
    toString r.skipped.length ++ " unchanged, " ++ toString r.failed.length ++ " failed"⟩

/-- Writes declaration files one after the other, up to the first that something stands in the way
of. -/
def writeFiles (digest : String → String) (texts : List (String × String)) :
    List Emission.DeclarationFile → Writing σ → Except (Writing σ) (Writing σ)
  | [], w => .ok w
  | file :: rest, w =>
    if OutputStore.canWrite w.output (SourcePath.declaration file.path) then
      writeFiles digest texts rest (writeFile digest texts w file)
    else .error w

/-- Writes the index of the given sources. -/
def writeIndex (paths : List String) (out : σ) : Except σ σ :=
  if OutputStore.canWrite out indexName then
    .ok (OutputStore.write out indexName (indexText out paths))
  else .error out

/-- Writes the file of exported names, if asked to. -/
def writeSymbols (request : Request) (cache : RunCache) (out : σ) : Except σ σ :=
  if request.symbolIndex then
    if OutputStore.canReplace out symbolsName then
      .ok (OutputStore.replace out symbolsName (symbolsText cache))
    else .error out
  else .ok out

/-- Writes the cache, unless a source failed. -/
def saveCache (failed : List String) (cache : RunCache) (out : σ) : Except σ (σ × List Log.Entry) :=
  if failed.isEmpty then
    if OutputStore.canReplace out cacheName then
      .ok (OutputStore.replace out cacheName cache.render,
        [cache.savedMessage (OutputStore.shown out cacheName)])
    else .error out
  else .ok (out, [⟨.error, toString failed.length ++ " file(s) failed; cache not saved"⟩])

/-- What a run reports that has emitted the given files. -/
def report (s : Survey σ) (r : Reading) (emitted : List Emission.DeclarationFile) : Result :=
  let failed := sortNames r.failed
  { written := orderNames (emitted.map (·.path))
    skipped := r.skipped
    failed := failed
    removed := s.removed
    unresolved := unresolvedNames emitted
    cacheSaved := failed.isEmpty }

/-- Writes the declaration files, the index, the file of exported names and the cache. -/
def writeAll (digest : String → String) (request : Request) (s : Survey σ) (r : Reading)
    (out : σ) (emitted : List Emission.DeclarationFile) : Outcome σ :=
  let result := report s r emitted
  match writeFiles digest s.texts emitted ⟨out, r.cache, []⟩ with
  | .error w => ⟨w.output, w.log, .error .obstructed⟩
  | .ok w =>
    match writeIndex (Keyed.keys s.texts) w.output >>= writeSymbols request w.cache with
    | .error out => ⟨out, w.log, .error .obstructed⟩
    | .ok out =>
      let log := w.log ++ unresolvedMessage result.unresolved
      match saveCache result.failed w.cache out with
      | .error out => ⟨out, log, .error .obstructed⟩
      | .ok saved => ⟨saved.1, log ++ saved.2 ++ [summaryMessage result], .ok result⟩

/-! ### The run -/

/-- The rest of a run whose sources have been surveyed. -/
def finish (digest : String → String) (schedule : Schedule) (request : Request) (s : Survey σ) :
    Outcome σ :=
  let r := read schedule request s
  let left := removeOutputs "Removed stale output " (sortNames r.failed) s.output
  let emitted := Emission.produce request.settings.stubs (r.parsed.map (·.2)) r.cache.graph
  let log := s.log ++ r.log ++ left.2 ++ emitted.2
  match emitted.1 with
  | .error fault => ⟨left.1, log, .error fault⟩
  | .ok files =>
    let done := writeAll digest request s r left.1 files
    { done with log := log ++ done.log }

/-- A run on the given sources, of which those that cannot be read have no text. -/
def generate (digest : String → String) (schedule : Schedule) (request : Request)
    (sources : List (String × Option String)) (out : σ) : Outcome σ :=
  finish digest schedule request (survey digest request (loadCache request out) sources out)

end LuaAmbient.Generation
