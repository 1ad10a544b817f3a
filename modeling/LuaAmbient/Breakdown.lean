/-
What stops a command on the spot.

A command reports what is wrong with sources, settings and the output directory in words of its own.
A few causes leave it no way to go on: links that lead in a circle, ignore files that cannot be
read or applied, and numbers or bytes beyond what can be read.

Main definitions:

* `LuaAmbient.Breakdown` — such a cause;
* `LuaAmbient.Breakdown.message` — its wording.
-/

import LuaAmbient.Text.Utf8

set_option autoImplicit false

namespace LuaAmbient

/-- What stops a command on the spot. -/
inductive Breakdown where
  /-- Links lead in a circle. -/
  | linkCircle
  /-- The home directory that a path starts at is not known. -/
  | unknownHome
  /-- A path holds the null character. -/
  | nullCharacter
  /-- A line of an ignore file leaves no pattern. -/
  | emptyPattern
  /-- A pattern of an ignore file has a class that stands for no characters. -/
  | badClass
  /-- The bytes of a file are no text. -/
  | undecodable (fault : Utf8.Fault)
  /-- An integer has too many digits. -/
  | oversizedInteger (digits : Nat)
deriving Repr, DecidableEq, Inhabited

/-- The wording of a cause. -/
def Breakdown.message : Breakdown → String
  | .linkCircle => "Symlink loop"
  | .unknownHome => "Could not determine home directory."
  | .nullCharacter => "embedded null byte"
  | .emptyPattern => "string index out of range"
  | .badClass => "bad character range"
  | .undecodable fault => fault.message
  | .oversizedInteger digits =>
    "Exceeds the limit (4300 digits) for integer string conversion: value has " ++
      toString digits ++ " digits; use sys.set_int_max_str_digits() to increase the limit"

end LuaAmbient
