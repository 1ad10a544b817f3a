/-
The source files of a project.

What an ignore file means is not part of this library: an ignore reader is any function from the
contents of ignore files to tests of paths.  Which files count as ignore files, in which order they
are asked, and for which places, is said here.

Main definitions:

* `LuaAmbient.Scan.IgnoreReader` — **what makes a test of an ignore file**;
* `LuaAmbient.Scan.walk` — the regular files below a directory whose names end like those of
  sources, without the directories that never hold sources;
* `LuaAmbient.Scan.isIgnored` — whether the ignore files of a project ignore a place;
* `LuaAmbient.Scan.sources` — **the source files of a project, sorted by their paths**.
-/

import LuaAmbient.FileTree.Basic
import LuaAmbient.Scan.Glob
import LuaAmbient.SourcePath

set_option autoImplicit false

namespace LuaAmbient.Scan

/-! ### The walk -/

/-- The directories that never hold sources. -/
def toolDirectories : List String :=
  [".git", ".hg", ".svn", ".luarocks", "lua_modules"]

/-- Whether a name is that of a source file. -/
def isSourceName (name : String) : Bool :=
  Text.endsWith name.toList SourcePath.sourceEnding.toList

/-- Whether the walk goes into the directory of the given name at a place.  The place of the output,
if it is not the root, is left out. -/
def entersDirectory (output : Place) (place : Place) (name : String) : Bool :=
  !toolDirectories.contains name && (output.isEmpty || place ++ [name] != output)

mutual

/-- The sources in a member of a directory at a place. -/
def walkMember (output : Place) (place : Place) (name : String) :
    FileTree → List (Place × Content)
  | .file content => if isSourceName name then [(place ++ [name], content)] else []
  | .link _ => []
  | .directory ms =>
    if entersDirectory output place name then walk output (place ++ [name]) ms else []

/-- The sources in the members of a directory at a place. -/
def walk (output : Place) (place : Place) : List (String × FileTree) → List (Place × Content)
  | [] => []
  | (name, member) :: rest => walkMember output place name member ++ walk output place rest

end

/-! ### Ignore files -/

/-- Whether a path from the directory of an ignore file is ignored.  There may be no answer. -/
abbrev IgnoreTest := String → Except Breakdown Bool

/-- What makes a test of the content of an ignore file, if it can be read. -/
abbrev IgnoreReader := Content → Except Breakdown IgnoreTest

/-- The name of ignore files. -/
def ignoreName : String := ".gitignore"

/-- The ignore file of a tree, or, if those below count too, all of them, sorted by path. -/
def ignoreFiles (nested : Bool) (tree : FileTree) : List (Place × Content) :=
  let found := tree.files.filter fun f =>
    f.1.getLast? == some ignoreName && (nested || f.1.length == 1)
  (Keyed.sorted (found.map fun f => (Text.joinWith "/" f.1, f.1.dropLast, f.2))).map (·.2)

/-- The tests of ignore files, with the directories that they are for. -/
def ignoreTests (reader : IgnoreReader) (files : List (Place × Content)) :
    Except Breakdown (List (Place × IgnoreTest)) :=
  files.mapM fun f => do return (f.1, ← reader f.2)

/-- Whether the test of a directory ignores a place.  It is not asked about places elsewhere. -/
def ignoredBelow (directory : Place) (test : IgnoreTest) (place : Place) : Except Breakdown Bool :=
  if directory.isPrefixOf place then test (Text.joinWith "/" (place.drop directory.length))
  else .ok false

/-- Whether any ignore file ignores a place; they are asked one after the other. -/
def isIgnored (tests : List (Place × IgnoreTest)) (place : Place) : Except Breakdown Bool :=
  tests.anyM fun f => ignoredBelow f.1 f.2 place

/-! ### Sources -/

/-- The names on the way to the output directory, from its text in the settings. -/
def outputPlace (text : String) : Place :=
  let slashed := text.toList.map fun c => if c == '\\' then '/' else c
  ((Text.splitOn '/' slashed).map String.ofList).filter fun p => !p.isEmpty && p != "."

/-- Whether a path is among those that patterns include and not among those they exclude.  Without
patterns to include, all are included. -/
def isSelected (included excluded : List String) (path : String) : Bool :=
  (included.isEmpty || included.any fun p => Glob.isMatch p path) &&
    !excluded.any fun p => Glob.isMatch p path

/-- The source files below a root, with their paths from there, sorted by path. -/
def select (ignored : Place → Bool) (output : Place) (included excluded : List String)
    (tree : FileTree) : List (String × Content) :=
  let found := (walk output [] tree.members).filter fun f => !ignored f.1
  let named := found.map fun f => (Text.joinWith "/" f.1, f.2)
  Keyed.sorted (named.filter fun f => isSelected included excluded f.1)

/-- The source files of a project, sorted by their paths. -/
def sources (reader : IgnoreReader) (output : Place) (nested : Bool)
    (included excluded : List String) (tree : FileTree) :
    Except Breakdown (List (String × Content)) := do
  let tests ← ignoreTests reader (ignoreFiles nested tree)
  let ignored ← ((walk output [] tree.members).map (·.1)).filterM (isIgnored tests)
  return select ignored.contains output included excluded tree

end LuaAmbient.Scan
