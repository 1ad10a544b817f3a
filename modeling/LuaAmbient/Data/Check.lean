/-
Reading values out of data, with all that is wrong reported at once.

Main definitions:

* `LuaAmbient.Check.Complaint`, `LuaAmbient.Check.Issue` — what is wrong with a value, and where;
* `LuaAmbient.Checked` — a value, or all that is wrong with it;
* `LuaAmbient.Check.readString`, `LuaAmbient.Check.readList`, `LuaAmbient.Check.readField` —
  strings, lists and the fields of records.
-/

import LuaAmbient.Data.Basic
import LuaAmbient.Keyed

set_option autoImplicit false

namespace LuaAmbient

namespace Check

/-! ### Complaints -/

/-- What is wrong with a value. -/
inductive Complaint where
  | missing
  | unknownKey
  | notATable
  | notAList
  | notAString
  | emptyString
  | notABool
  | unreadableBool
  | notAnInteger
  | unreadableInteger
  | fractionalInteger
  | oversizedInteger
  | notFinite
  | tooSmall
  | tooLarge
  /-- The stubs are not given by a table. -/
  | stubsNotATable
  /-- A stub is not given by a string. -/
  | stubNotAString
  /-- A stub is given for a name that cannot name a type. -/
  | stubName (name : String)
deriving Repr, DecidableEq, Inhabited

/-- What is wrong with a value, and the path to it. -/
structure Issue where
  path : List String
  complaint : Complaint
deriving Repr, DecidableEq, Inhabited

/-- What the user is told of a wrong stub; of other complaints the kind says all. -/
def Complaint.detail : Complaint → String
  | .stubsNotATable => "fallback_types must be a mapping of type name -> declaration"
  | .stubNotAString => "fallback_types must be a mapping of str -> str"
  | .stubName name => "Invalid fallback type name '" ++ name ++ "'"
  | _ => ""

end Check

/-- A value, or all that is wrong with it. -/
abbrev Checked (α : Type) := Except (List Check.Issue) α

namespace Check

/-- A single complaint about the value itself. -/
def refuse {α : Type} (complaint : Complaint) : Checked α :=
  .error [⟨[], complaint⟩]

/-- Places the complaints about a part below its key. -/
def below {α : Type} (key : String) (part : Checked α) : Checked α :=
  part.mapError fun issues => issues.map fun i => { i with path := key :: i.path }

/-- The complaints about a part. -/
def issuesOf {α : Type} : Checked α → List Issue
  | .ok _ => []
  | .error issues => issues

/-- The values of all parts, or all complaints. -/
def all {α : Type} (parts : List (Checked α)) : Checked (List α) :=
  match parts.flatMap issuesOf with
  | [] => .ok (parts.filterMap Except.toOption)
  | issues => .error issues

/-! ### Values -/

/-- A string. -/
def readString : Data → Checked String
  | .string s => .ok s
  | _ => refuse .notAString

/-- A list, every item of which is read on its own. -/
def readList {α : Type} (read : Data → Checked α) : Data → Checked (List α)
  | .list items => all (items.zipIdx.map fun p => below (toString p.2) (read p.1))
  | _ => refuse .notAList

/-- The value under a key, or what holds if there is none. -/
def readField {α : Type} (fields : List (String × Data)) (key : String) (read : Data → Checked α)
    (unset : Checked α) : Checked α :=
  below key (match Keyed.get? fields key with
    | some d => read d
    | none => unset)

/-- The complaints about keys that are not known. -/
def unknownKeys (known : List String) (fields : List (String × Data)) : List Issue :=
  (fields.filter fun f => !known.contains f.1).map fun f => ⟨[f.1], .unknownKey⟩

end Check

end LuaAmbient
