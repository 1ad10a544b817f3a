/-
Repairs of sources that are known to be malformed.

Main definitions:

* `LuaAmbient.SourceFix` — a repair and the files it is for;
* `LuaAmbient.SourceFix.builtin` — the repairs that are always made;
* `LuaAmbient.SourceFix.applyAll` — a source after all repairs that are for it.
-/

import LuaAmbient.Text.Search

set_option autoImplicit false

namespace LuaAmbient

open LuaAmbient.Text

/-- What a repair does to a text. -/
inductive SourceFix.Action where
  /-- Replaces every occurrence of a text. -/
  | replace (find replacement : String)
  /-- Drops every line that contains a text. -/
  | dropLines (marker : String)
deriving Repr, DecidableEq, Inhabited

/-- A repair.  With a file name it is only for the paths that end in that name. -/
structure SourceFix where
  name : String
  action : SourceFix.Action
  fileName : Option String
deriving Repr, DecidableEq, Inhabited

namespace SourceFix

/-- The text after a repair. -/
def Action.run : Action → List Char → List Char
  | .replace find replacement, s => replaceAll find.toList replacement.toList s
  | .dropLines marker, s =>
    ['\n'].intercalate ((splitOn '\n' s).filter fun line => !contains marker.toList line)

/-- Whether a repair is for a path. -/
def isFor (fix : SourceFix) (path : String) : Bool :=
  match fix.fileName with
  | some name => endsWith path.toList name.toList
  | none => true

/-- The repairs that are always made. -/
def builtin : List SourceFix :=
  [⟨"empty-self-parameter", .replace "function(self, )" "function(self)", none⟩,
    ⟨"flora-pod-entries", .dropLines "['Pod  |", some "BP_Flora_InteractibleObjects.lua"⟩]

/-- The repairs of a list that are for a path. -/
def applicable (fixes : List SourceFix) (path : String) : List SourceFix :=
  fixes.filter fun f => f.isFor path

/-- A source after all repairs that are for it, in order. -/
def applyAll (fixes : List SourceFix) (path : String) (s : List Char) : List Char :=
  (applicable fixes path).foldl (fun s f => f.action.run s) s

end SourceFix

end LuaAmbient
