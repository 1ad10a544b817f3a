/-
Projects on a file tree.

A project is a directory with sources and, perhaps, a settings file.

Main definitions:

* `LuaAmbient.OutputDirectory` — an output directory in a file tree;
* `LuaAmbient.Project.generate` — **the declaration files of a project are brought up to date**;
* `LuaAmbient.Project.verify` — **whether the output directory of a project is what a run from
  scratch would leave**.
-/

import LuaAmbient.Generation.Run
import LuaAmbient.Scan.Sources
import LuaAmbient.Settings.Loading

set_option autoImplicit false

namespace LuaAmbient

/-! ### Output directories -/

/-- An output directory: its place in a file tree. -/
structure OutputDirectory where
  tree : FileTree
  place : Place
deriving Inhabited

namespace OutputDirectory

/-- The place of an output file. -/
def placeOf (out : OutputDirectory) (name : String) : Place :=
  out.place ++ Text.splitString '/' name

instance : OutputStore OutputDirectory where
  read? out name := out.tree.read? (out.placeOf name)
  canWrite out name := out.tree.canWrite (out.placeOf name)
  write out name text := { out with tree := out.tree.write (out.placeOf name) (.text text) }
  canReplace out name := out.tree.canReplace (out.placeOf name)
  replace out name text := { out with tree := out.tree.replace (out.placeOf name) (.text text) }
  remove out name := { out with tree := out.tree.unlink (out.placeOf name) }
  shown out name := Place.text (out.placeOf name)

end OutputDirectory

namespace Project

/-- Why a project cannot be worked on. -/
inductive Fault where
  | settings (fault : Settings.Fault)
  /-- A declaration file cannot be imported or written. -/
  | path (fault : SourcePath.Fault)
  /-- There is nothing at the place of the output directory. -/
  | outputMissing (place : String)
  /-- The output directory is not a directory. -/
  | outputNotDirectory (place : String)
  /-- There is no way to go on. -/
  | breakdown (cause : Breakdown)
deriving Repr, DecidableEq, Inhabited

/-- The wording of a fault. -/
def Fault.message : Fault → String
  | .settings fault => fault.message
  | .path fault => fault.message
  | .outputMissing place => "Output directory does not exist: " ++ place
  | .outputNotDirectory place => "Output path is not a directory: " ++ place
  | .breakdown cause => cause.message

/-- What stops a project whose settings cannot be used. -/
def Fault.ofSettings : Settings.Fault → Fault
  | .breakdown cause => .breakdown cause
  | fault => .settings fault

/-- What a run is asked to do; what is not said is taken from the settings, and the settings from
the project. -/
structure Options where
  settings : Option Settings := none
  output : Option Place := none
  force : Bool := false
  symbolIndex : Option Bool := none
deriving Inhabited

/-- What a project relies on: how digests are made, how batches are scheduled, how sources are
parsed, and how ignore files are read. -/
structure Engine where
  digest : String → String
  schedule : Generation.Schedule
  parser : Lua.Parser
  ignores : Scan.IgnoreReader

/-! ### Generation -/

/-- The sources of the project at a root, with their texts if they have one, when the output is at a
place.  The names on the way from the root to the output are read as a path again, in which
backslashes divide names too. -/
def sources (ignores : Scan.IgnoreReader) (tree : FileTree) (root : Place) (settings : Settings)
    (output : Place) : Except Breakdown (List (String × Option String)) := do
  let output ← tree.resolve output
  let root ← tree.resolve root
  let way := if root.isPrefixOf output then output.drop root.length else []
  let directory := (tree.get? root).getD (.directory [])
  let found ← Scan.sources ignores (Scan.outputPlace (Text.joinWith "/" way))
    settings.nestedIgnores settings.included settings.excluded directory
  return found.map fun f => (f.1, f.2.sourceText?)

/-- What a run leaves: the file tree, the messages, and the place of the output with the report. -/
structure Outcome where
  tree : FileTree
  log : List Log.Entry
  result : Except Fault (Place × Generation.Result)

/-- The settings of a run and the place of its output. -/
def prepare (tree : FileTree) (root : Place) (options : Options) :
    Except Settings.Fault (Settings × Place) := do
  let settings ← match options.settings with
    | some settings => pure settings
    | none => Settings.load tree root
  let output ← match options.output with
    | some place => pure place
    | none => Settings.locateOutput tree root settings.outputDir
  return (settings, output)

/-- Brings the declaration files of the project at a root up to date. -/
def generate (engine : Engine) (tree : FileTree) (root : Place) (options : Options) : Outcome :=
  let prepared : Except Fault _ := do
    let (settings, output) ← (prepare tree root options).mapError .ofSettings
    return (settings, output,
      ← (sources engine.ignores tree root settings output).mapError .breakdown)
  match prepared with
  | .error fault => ⟨tree, [], .error fault⟩
  | .ok (settings, output, sources) =>
    let request : Generation.Request :=
      ⟨⟨engine.parser, settings, options.symbolIndex.getD settings.symbolIndex⟩, options.force⟩
    let run := Generation.generate engine.digest engine.schedule request sources
      (OutputDirectory.mk tree output)
    ⟨run.output.tree, run.log, match run.result with
      | .ok result => .ok (output, result)
      | .error fault => .error (.path fault)⟩

/-! ### Verification -/

/-- How an output directory differs from what a run from scratch leaves. -/
structure Difference where
  /-- The files that differ. -/
  mismatches : List String
  /-- The files that a run from scratch does not write. -/
  missing : List String
  /-- The files that only a run from scratch writes. -/
  extra : List String
deriving Repr, DecidableEq, Inhabited

/-- Whether there is no difference. -/
def Difference.isEmpty (d : Difference) : Bool :=
  d.mismatches.isEmpty && d.missing.isEmpty && d.extra.isEmpty

/-- The files below a directory that are compared, with their paths from there: all but the cache.
Links to files count as files. -/
def comparedFiles (tree : FileTree) (place : Place) : List (String × Content) :=
  match tree.find? place with
  | some directory =>
    (directory.leaves.filterMap fun leaf =>
      (tree.read? (place ++ leaf.1)).map fun content => (Text.joinWith "/" leaf.1, content)).filter
        fun f => f.1 != Generation.cacheName
  | none => []

/-- How files differ from fresh ones. -/
def difference (files fresh : List (String × Content)) : Difference :=
  let names := orderNames (Keyed.keys files)
  { mismatches := names.filter fun n =>
      match Keyed.get? fresh n with
      | some content => Keyed.get? files n != some content
      | none => false
    missing := names.filter fun n => !Keyed.has fresh n
    extra := (orderNames (Keyed.keys fresh)).filter fun n => !Keyed.has files n }

/-- Compares the output directory of the project at a root with what a run from scratch leaves at a
place that is free. -/
def verify (engine : Engine) (scratch : Place) (tree : FileTree) (root : Place)
    (settings : Option Settings) (output : Place) : Except Fault Difference × List Log.Entry :=
  if !tree.exists? output then (.error (.outputMissing (Place.text output)), [])
  else if !tree.isDirectory output then (.error (.outputNotDirectory (Place.text output)), [])
  else
    let symbols := (tree.read? (output ++ [Generation.symbolsName])).isSome
    let run := generate engine tree root
      { settings := settings, output := some scratch, force := true, symbolIndex := some symbols }
    (run.result.map fun _ =>
      difference (comparedFiles run.tree output) (comparedFiles run.tree scratch), run.log)

end Project

end LuaAmbient
