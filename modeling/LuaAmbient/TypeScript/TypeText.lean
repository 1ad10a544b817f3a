/-
Types written as TypeScript.

Main definitions:

* `LuaAmbient.TypeScript.text` — the TypeScript text of a type;
* `LuaAmbient.TypeScript.names` — the names that this text refers to and that have to be imported
  or stubbed;
* `LuaAmbient.TypeScript.restText` — the type of the rest of the arguments;
* `LuaAmbient.TypeScript.indexSignatures` — a table shape as index signatures of a class.
-/

import LuaAmbient.DocType.Basic
import LuaAmbient.Text.Blank
import LuaAmbient.Text.Search
import LuaAmbient.TypeScript.Name

set_option autoImplicit false

namespace LuaAmbient.TypeScript

open LuaAmbient.Text

/-- Whether the type is put in parentheses as a member of a union. -/
def groupsInUnion : DocType → Bool
  | .function .. => true
  | _ => false

/-- Puts a string in parentheses if asked to. -/
def group (grouped : Bool) (s : String) : String :=
  if grouped then "(" ++ s ++ ")" else s

/-- A parameter name without the question marks at its end. -/
def bareName (name : String) : String :=
  String.ofList (dropEndWhile (· == '?') name.toList)

/-- Whether a parameter name marks an optional parameter. -/
def isOptionalName (name : String) : Bool :=
  name.toList.getLast? == some '?'

/-- The label of the parameter at position `i`, up to the colon. -/
def labelText (i : Nat) : DocType.Label → String
  | .rest => "...args"
  | .named name => parameterName (bareName name) ++ (if isOptionalName name then "?" else "")
  | .unnamed => "arg" ++ toString i

mutual

/-- The TypeScript text of a type. -/
def text : DocType → String
  | .plain n => n
  | .generic base args => base ++ "<" ++ joinWith ", " (texts args) ++ ">"
  | .union options => joinWith " | " (optionTexts options)
  | .optional inner => group (groupsInUnion inner) (text inner) ++ " | undefined"
  | .function params result =>
    "(" ++ joinWith ", " (paramTexts 0 params) ++ ") => " ++ text result
  | .table fields => if fields.isEmpty then "\x7b\x7d" else joinWith " & " (fieldTexts fields)
  | .array element => "Array<" ++ text element ++ ">"
  | .tuple elements => "[" ++ joinWith ", " (texts elements) ++ "]"

/-- The texts of several types. -/
def texts : List DocType → List String
  | [] => []
  | t :: ts => text t :: texts ts

/-- The texts of the members of a union; functions are put in parentheses. -/
def optionTexts : List DocType → List String
  | [] => []
  | t :: ts => group (groupsInUnion t) (text t) :: optionTexts ts

/-- The texts of parameters, the first of which stands at position `i`. -/
def paramTexts (i : Nat) : List (DocType.Label × DocType) → List String
  | [] => []
  | (label, t) :: ps =>
    (labelText i label ++ ": " ++
      (match label with
        | .rest => "Array<" ++ text t ++ ">"
        | _ => text t)) :: paramTexts (i + 1) ps

/-- The texts of table fields. -/
def fieldTexts : List (DocType × DocType) → List String
  | [] => []
  | (k, v) :: fs => ("Record<" ++ text k ++ ", " ++ text v ++ ">") :: fieldTexts fs

end

mutual

/-- Every name that stands in a type, in the order of reading. -/
def mentioned : DocType → List String
  | .plain n => [n]
  | .generic base args => base :: mentionedList args
  | .union ts | .tuple ts => mentionedList ts
  | .optional t | .array t => mentioned t
  | .function params result => mentionedParams params ++ mentioned result
  | .table fields => mentionedFields fields

/-- Every name that stands in one of several types. -/
def mentionedList : List DocType → List String
  | [] => []
  | t :: ts => mentioned t ++ mentionedList ts

/-- Every name that stands in the type of a parameter. -/
def mentionedParams : List (DocType.Label × DocType) → List String
  | [] => []
  | (_, t) :: ps => mentioned t ++ mentionedParams ps

/-- Every name that stands in a table field. -/
def mentionedFields : List (DocType × DocType) → List String
  | [] => []
  | (k, v) :: fs => mentioned k ++ mentioned v ++ mentionedFields fs

end

/-- The names in a type that have to be imported or stubbed. -/
def names (t : DocType) : List String :=
  (mentioned t).filter mayBeForeign

/-- The type of the rest of the arguments: a list of the given type. -/
def restText (t : DocType) : String :=
  "Array<" ++ text t ++ ">"

/-- A table shape as index signatures: number keys stay numbers, all others are strings. -/
def indexSignatures (fields : List (DocType × DocType)) : List String :=
  fields.map fun f =>
    let key := if text f.1 == "number" then "number" else "string"
    "[key: " ++ key ++ "]: " ++ text f.2 ++ ";"

/-- The names in a table shape that have to be imported or stubbed. -/
def shapeNames (fields : List (DocType × DocType)) : List String :=
  (mentionedFields fields).filter mayBeForeign

end LuaAmbient.TypeScript
