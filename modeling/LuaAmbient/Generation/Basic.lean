/-
What a run of the generator works on and what it reports.

Main definitions:

* `LuaAmbient.OutputStore` — the files of an output directory, whatever they are kept in;
* `LuaAmbient.Generation.Setup` — what does not change from run to run;
* `LuaAmbient.Generation.Request` — what a run is asked to do;
* `LuaAmbient.Generation.Schedule` — the order in which the sources of a batch are finished;
* `LuaAmbient.Generation.Result` — what a run reports;
* `LuaAmbient.Generation.removeOutputs` — the declaration files of given sources are removed.
-/

import LuaAmbient.Declaration.OfSource
import LuaAmbient.Emission.Module
import LuaAmbient.RunCache
import LuaAmbient.Settings.Basic

set_option autoImplicit false

namespace LuaAmbient

/-- The files of an output directory, named by their paths from there. -/
class OutputStore (σ : Type) where
  /-- The content of a file, if there is one of that name. -/
  read? : σ → String → Option Content
  /-- Whether nothing stands in the way of a file that is to be written. -/
  canWrite : σ → String → Bool
  /-- The files after one has been written. -/
  write : σ → String → String → σ
  /-- Whether nothing stands in the way of a file that is to be put in the place of another. -/
  canReplace : σ → String → Bool
  /-- The files after one has been put in the place of whatever has its name. -/
  replace : σ → String → String → σ
  /-- The files after one has been removed. -/
  remove : σ → String → σ
  /-- How the user is shown a file. -/
  shown : σ → String → String

namespace Generation

/-! ### Names of output files -/

/-- The file of the cache. -/
def cacheName : String := "luats-meta.json"

/-- The file that exports all declarations. -/
def indexName : String := "index.d.ts"

/-- The file that tells which source exports which name. -/
def symbolsName : String := "symbols.json"

/-! ### Runs -/

/-- What does not change from run to run: the parser of the sources and what is to be written. -/
structure Setup where
  parser : Lua.Parser
  settings : Settings
  /-- Whether the file of exported names is written. -/
  symbolIndex : Bool

/-- How sources are read: with the repairs of the settings and those that are always made. -/
def Setup.reader (setup : Setup) : SourceReader :=
  ⟨setup.parser, Settings.allFixes setup.settings.fixes⟩

/-- What a run is asked to do. -/
structure Request extends Setup where
  /-- Whether all sources are read, whatever the cache says. -/
  force : Bool

/-- The order in which the sources of a batch are finished. -/
abbrev Schedule := List String → List String

/-- A name that no file exports, with the source that uses it. -/
structure Unresolved where
  path : String
  name : String
deriving Repr, DecidableEq, Inhabited

/-- What a run reports. -/
structure Result where
  /-- The sources whose declaration files were written. -/
  written : List String
  /-- The sources whose declaration files were left as they are. -/
  skipped : List String
  /-- The sources that could not be read. -/
  failed : List String
  /-- The sources that have gone since the last run. -/
  removed : List String
  unresolved : List Unresolved
  cacheSaved : Bool
deriving Repr, DecidableEq, Inhabited

/-- Whether no source failed. -/
def Result.isOk (r : Result) : Bool :=
  r.failed.isEmpty

/-- What a run leaves: the output files, the messages, and the report unless a declaration file
could not be imported or an output file could not be written. -/
structure Outcome (σ : Type) where
  output : σ
  log : List Log.Entry
  result : Except SourcePath.Fault Result

/-! ### Output files -/

variable {σ : Type} [OutputStore σ]

/-- Whether the declaration file of a source is there. -/
def hasOutput (out : σ) (path : String) : Bool :=
  (OutputStore.read? out (SourcePath.declaration path)).isSome

/-- Removes the declaration file of a source, if it is there, with a message. -/
def removeOutput (message : String) (state : σ × List Log.Entry) (path : String) :
    σ × List Log.Entry :=
  if hasOutput state.1 path then
    let file := SourcePath.declaration path
    (OutputStore.remove state.1 file,
      state.2 ++ [⟨.info, message ++ OutputStore.shown state.1 file⟩])
  else state

/-- Removes the declaration files of sources, one after the other. -/
def removeOutputs (message : String) (paths : List String) (out : σ) : σ × List Log.Entry :=
  paths.foldl (removeOutput message) (out, [])

end Generation

end LuaAmbient
