/-
The settings of a project.

Main definitions:

* `LuaAmbient.Settings` — what a project may set, and what holds if it sets nothing;
* `LuaAmbient.FixRule` — a repair that a project asks for;
* `LuaAmbient.Settings.allFixes` — the repairs that are made.
-/

import LuaAmbient.SourceFix

set_option autoImplicit false

namespace LuaAmbient

/-- A repair that a project asks for: a text to replace in all files, or in those of a name. -/
structure FixRule where
  fileName : Option String
  find : String
  replacement : String
deriving Repr, DecidableEq, Inhabited

/-- The settings of a project. -/
structure Settings where
  outputDir : String := "types"
  /-- Patterns of which a source has to match one, if there are any. -/
  included : List String := []
  /-- Patterns of which a source must match none. -/
  excluded : List String := []
  /-- Whether ignore files below the root count too. -/
  nestedIgnores : Bool := false
  workers : Nat := 4
  /-- Whether the index of exported names is written. -/
  symbolIndex : Bool := false
  /-- The stubs of names that no file exports. -/
  stubs : List (String × String) := []
  fixes : List FixRule := []
deriving Repr, DecidableEq, Inhabited

namespace Settings

/-- The repairs of a project: those that are always made and then its own. -/
def allFixes (rules : List FixRule) : List SourceFix :=
  SourceFix.builtin ++ rules.zipIdx.map fun p =>
    ⟨"config:" ++ toString p.2, .replace p.1.find p.1.replacement, p.1.fileName⟩

end Settings

end LuaAmbient
