/-
Paths of source files and of the declaration files made from them.

Main definitions:

* `LuaAmbient.SourcePath.normalize` — a path with slashes and without drive, dots and empty
  segments;
* `LuaAmbient.SourcePath.declaration`, `LuaAmbient.SourcePath.specifier` — the declaration file of a
  source file, and the text by which it is imported;
* `LuaAmbient.SourcePath.importPath` — **how one declaration file names another**.
-/

import LuaAmbient.Text.Search

set_option autoImplicit false

namespace LuaAmbient.SourcePath

open LuaAmbient.Text

/-- The end of the name of a source file. -/
def sourceEnding : String := ".lua"

/-- The end of the name of a declaration file. -/
def declarationEnding : String := ".d.ts"

/-- The path without a drive letter and its colon. -/
def dropDrive (s : List Char) : List Char :=
  match s with
  | _ :: ':' :: rest => rest
  | _ => s

/-- The segments of a path that name something; backslashes count as slashes. -/
def segments (path : String) : List String :=
  let s := path.toList.map fun c => if c == '\\' then '/' else c
  ((splitOn '/' (dropDrive s)).map String.ofList).filter fun p => !p.isEmpty && p != "."

/-- The path with slashes and without drive, dots and empty segments. -/
def normalize (path : String) : String :=
  joinWith "/" (segments path)

/-- The text by which the declarations of a source file are imported: its path without the end. -/
def specifier (path : String) : String :=
  String.ofList (dropSuffix (normalize path).toList sourceEnding.toList)

/-- The declaration file of a source file. -/
def declaration (path : String) : String :=
  specifier path ++ declarationEnding

/-! ### Relative imports -/

/-- Goes from a directory to one of its members: nowhere for a dot, up for two dots. -/
def enter (directory : List String) (segment : String) : List String :=
  if segment.isEmpty || segment == "." then directory
  else if segment == ".." then
    match directory.getLast? with
    | none => directory ++ [segment]
    | some last => if last == ".." then directory ++ [segment] else directory.dropLast
  else directory ++ [segment]

/-- The place that a sequence of segments leads to, without dots; double dots stay at its start
only. -/
def resolve (path : List String) : List String :=
  path.foldl enter []

/-- Two lists without the segments that they start with in common. -/
def dropCommon : List String → List String → List String × List String
  | a :: as, b :: bs => if a == b then dropCommon as bs else (a :: as, b :: bs)
  | as, bs => (as, bs)

/-- The way from a directory to a place: up to the last common directory and down again. -/
def relative (start target : List String) : List String :=
  let (up, down) := dropCommon start target
  up.map (fun _ => "..") ++ down

/-- Why a declaration file cannot be imported or written. -/
inductive Fault where
  /-- Nothing is left of its path. -/
  | noPath
  /-- A file stands where a directory is needed, or a directory where the file is to go. -/
  | obstructed
deriving Repr, DecidableEq, Inhabited

/-- The wording of a fault. -/
def Fault.message : Fault → String
  | .noPath => "no path specified"
  | .obstructed => "something else stands in the way"

/-- The segments of the directory of a declaration file. -/
def directory (path : String) : List String :=
  (splitString '/' (declaration path)).dropLast

/-- How the declaration file of `consumer` names that of `provider`.  Both paths are taken from one
place, and that of `consumer` does not lead out of it: a directory above that place is named by double
dots only, so a way down from it would have to name the place itself, which is not known here.  No file
below a root has such a path. -/
def importPath (consumer provider : String) : Except Fault String :=
  let target := specifier provider
  if target.isEmpty then .error .noPath
  else
    let way := relative (resolve (directory consumer)) (resolve (splitString '/' target))
    let text := if way.isEmpty then "." else joinWith "/" way
    .ok (if text.toList.head? == some '.' then text else "./" ++ text)

end LuaAmbient.SourcePath
