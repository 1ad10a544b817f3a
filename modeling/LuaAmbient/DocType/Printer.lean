/-
Types written back as annotation text.

Main definitions:

* `LuaAmbient.DocType.print` — the annotation text of a type;
* `LuaAmbient.DocType.format` — the same as a string.
-/

import LuaAmbient.DocType.Basic

set_option autoImplicit false

namespace LuaAmbient.DocType

/-- Whether the type is put in parentheses in front of a question mark. -/
def groupsInOptional : DocType → Bool
  | .union _ | .function .. => true
  | _ => false

/-- Whether the type is put in parentheses in front of square brackets. -/
def groupsInArray : DocType → Bool
  | .union _ | .function .. | .tuple _ | .optional _ => true
  | _ => false

/-- Puts a text in parentheses if asked to. -/
def group (grouped : Bool) (s : List Char) : List Char :=
  if grouped then '(' :: s ++ [')'] else s

/-- The texts with a comma and a space between neighbours. -/
def commas (texts : List (List Char)) : List Char :=
  [',', ' '].intercalate texts

mutual

/-- The annotation text of a type. -/
def print : DocType → List Char
  | .plain text => text.toList
  | .optional inner => group inner.groupsInOptional (print inner) ++ ['?']
  | .generic base args => base.toList ++ '<' :: commas (printList args) ++ ['>']
  | .union options => ['|'].intercalate (printList options)
  | .function params result =>
    "fun(".toList ++ commas (printParams params) ++ [')'] ++
      (if result = void then [] else ':' :: ' ' :: print result)
  | .table fields => '{' :: commas (printFields fields) ++ ['}']
  | .array element => group element.groupsInArray (print element) ++ ['[', ']']
  | .tuple elements => commas (printList elements)

/-- The annotation texts of several types. -/
def printList : List DocType → List (List Char)
  | [] => []
  | t :: ts => print t :: printList ts

/-- The annotation texts of parameters; the rest of the arguments shows no type if it is any. -/
def printParams : List (Label × DocType) → List (List Char)
  | [] => []
  | (label, t) :: ps =>
    (match label with
      | .rest => if t = any then "...".toList else "...: ".toList ++ print t
      | .named name => name.toList ++ ':' :: ' ' :: print t
      | .unnamed => print t) :: printParams ps

/-- The annotation texts of table fields. -/
def printFields : List (DocType × DocType) → List (List Char)
  | [] => []
  | (key, value) :: fs =>
    ('[' :: print key ++ [']', ':', ' '] ++ print value) :: printFields fs

end

/-- The annotation text of a type as a string. -/
def format (t : DocType) : String :=
  String.ofList t.print

end LuaAmbient.DocType
