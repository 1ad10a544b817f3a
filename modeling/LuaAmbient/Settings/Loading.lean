/-
The settings file of a project, and its output directory.

Main definitions:

* `LuaAmbient.Settings.Fault` — why settings cannot be used, with its wording;
* `LuaAmbient.Settings.load` — the settings of a project;
* `LuaAmbient.Settings.locateOutput` — **where the output of a project goes**.
-/

import LuaAmbient.Data.TomlReader
import LuaAmbient.FileTree.Basic
import LuaAmbient.Settings.Validation

set_option autoImplicit false

namespace LuaAmbient.Settings

/-- Why settings cannot be used. -/
inductive Fault where
  /-- The file at a place is no TOML. -/
  | toml (place : String)
  /-- The file at a place holds wrong settings. -/
  | schema (place : String) (issues : List Check.Issue)
  /-- The output directory is the empty text. -/
  | noOutput
  /-- The output directory starts at the root of the file system or at a home directory. -/
  | outputNotRelative
  /-- The output directory is not below the root of the project. -/
  | outputEscapes (text : String)
  /-- The output directory is the root of the project. -/
  | outputIsRoot
  /-- There is no way to go on. -/
  | breakdown (cause : Breakdown)
deriving Repr, DecidableEq, Inhabited

/-- The wording of a fault. -/
def Fault.message : Fault → String
  | .toml place => "Invalid TOML in " ++ place
  | .schema place _ => "Invalid config in " ++ place
  | .noOutput => "output_dir must be a non-empty relative path"
  | .outputNotRelative => "output_dir must be a relative path within the project root"
  | .outputEscapes text => "output_dir '" ++ text ++ "' escapes the project root"
  | .outputIsRoot => "output_dir must not be the project root itself"
  | .breakdown cause => cause.message

/-- The name of the settings file. -/
def fileName : String := "luats.toml"

/-- What is wrong with the file at a place that cannot be read. -/
def Fault.ofToml (place : String) : Toml.Fault → Fault
  | .malformed => .toml place
  | .oversizedInteger digits => .breakdown (.oversizedInteger digits)

/-- The settings that the content of a file at a place describes. -/
def ofContent (place : String) (content : Content) : Except Fault Settings := do
  let text ← content.decode.mapError .breakdown
  let data ← (Toml.parse text.toList).mapError (Fault.ofToml place)
  (ofData data).mapError (.schema place)

/-- The settings of the project at a root; without a file they are those that hold unset. -/
def load (tree : FileTree) (root : Place) : Except Fault Settings :=
  let place := root ++ [fileName]
  match tree.read? place with
  | some content => ofContent (Place.text place) content
  | none => .ok {}

/-- Where the output of the project at a root goes, from the text in its settings. -/
def locateOutput (tree : FileTree) (root : Place) (text : String) : Except Fault Place :=
  match text.toList with
  | [] => .error .noOutput
  | c :: _ =>
    if c == '~' || c == '/' then .error .outputNotRelative
    else do
      let root ← (tree.resolve root).mapError .breakdown
      let output ← (tree.resolve (root ++ Place.ofPath text)).mapError .breakdown
      if !root.isPrefixOf output then .error (.outputEscapes text)
      else if output == root then .error .outputIsRoot
      else return output

end LuaAmbient.Settings
