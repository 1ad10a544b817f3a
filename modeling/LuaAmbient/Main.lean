/-
The program.

The files below the root of the project and below the output directory are read into a file tree,
the command is run on the tree, and what has changed is written back.

Main definitions:

* `LuaAmbient.Main.readBelow` — the files of a directory as a file tree;
* `LuaAmbient.Main.writeBack` — the files that a command has changed are written;
* `main` — **the program**.
-/

import LuaAmbient.CommandLine.Run
import LuaAmbient.Digest
import LuaAmbient.Lua.Parser
import LuaAmbient.Scan.Ignore

set_option autoImplicit false

namespace LuaAmbient.Main

/-- Whether the content of a file can matter to a command. -/
def isRelevant (name : String) : Bool :=
  name == Scan.ignoreName || name == Settings.fileName ||
    [SourcePath.sourceEnding, SourcePath.declarationEnding, ".json"].any fun suffix =>
      Text.endsWith name.toList suffix.toList

/-- The files at an absolute path as a file tree.  A link leads to the real path of its target. -/
partial def readBelow (path name : String) : IO FileTree := do
  let here := (← IO.currentDir) / path
  match (← here.symlinkMetadata).type with
  | .dir =>
    let members ← (← here.readDir).toList.mapM fun entry => do
      return (entry.fileName, ← readBelow (path ++ "/" ++ entry.fileName) entry.fileName)
    return .directory members
  | .symlink =>
    try return .link (← IO.FS.realPath path).toString
    catch _ => return .link ""
  | _ =>
    if isRelevant name then
      try return .file (Content.ofBytes (← IO.FS.readBinFile path))
      catch _ => return .file (.binary [])
    else return .file (.text "")

/-- Adds the files at a place to a tree.  If links lead elsewhere, the files are added there, and a
link at the place. -/
def addPlace (tree : FileTree) (place : Place) : IO FileTree := do
  try
    let real ← IO.FS.realPath (Place.text place)
    let target := Place.ofPath real.toString
    let found ← readBelow real.toString (target.getLast?.getD "")
    let tree := FileTree.put found target tree
    return if target == place then tree else FileTree.put (.link real.toString) place tree
  catch _ => return tree

/-- The places that a command line is about. -/
def placesOf (setting : CommandLine.Setting) (args : List String) : List Place :=
  match CommandLine.parse args with
  | .error _ => []
  | .ok command =>
    (command.outDir.toList ++ [command.root]).filterMap fun path =>
      (CommandLine.placeOf setting path).toOption.map Place.normal

/-- Writes the files that are new or have changed, and removes those that have gone. -/
def writeBack (before after : FileTree) : IO Unit := do
  let old := before.files.map fun f => (Place.text f.1, f.2)
  for (place, content) in after.files do
    let path := Place.text place
    unless Keyed.get? old path == some content do
      IO.FS.createDirAll (Place.text place.dropLast)
      if let some text := content.text? then IO.FS.writeFile path text
  let new := after.files.map fun f => Place.text f.1
  for (path, _) in old do
    unless new.contains path do IO.FS.removeFile path

/-- The setting of the program. -/
def currentSetting : IO CommandLine.Setting := do
  let directory := (← IO.currentDir).toString
  let home ← IO.getEnv "HOME"
  return {
    engine := ⟨Digest.hex, id, Lua.parse, IgnoreRule.readTest⟩
    workingDirectory := Place.ofPath directory
    home := fun user => if user.isEmpty then home else none
    scratch := ["luats-scratch"] }

/-- Tells the user how a command has ended, and gives its exit code. -/
def report : CommandLine.Ending → IO UInt32
  | .done code messages => do
    messages.forM fun message => IO.eprintln message
    return UInt32.ofNat code
  | .stopped .help => do
    IO.println CommandLine.usage
    return 0
  | .stopped .usage => do
    IO.eprintln CommandLine.usage
    return 2
  | .failed fault => do
    IO.eprintln ("error: " ++ fault.message)
    return 1

end LuaAmbient.Main

open LuaAmbient in
/-- Runs the command line of the program. -/
def main (args : List String) : IO UInt32 := do
  let setting ← Main.currentSetting
  let tree ← (Main.placesOf setting args).foldlM Main.addPlace (.directory [])
  let outcome := CommandLine.run setting tree args
  Main.writeBack tree outcome.tree
  Main.report outcome.ending
