/-
The directives of annotation comments.

Main definitions:

* `LuaAmbient.Directive` — one annotation or one line of documentation, with its line number;
* `LuaAmbient.Directive.ClassHeader` — what a class annotation declares;
* `LuaAmbient.Directive.Problem` — why an annotation cannot be read, and where it stands.
-/

import LuaAmbient.DocType.Parser
import LuaAmbient.Report

set_option autoImplicit false

namespace LuaAmbient

/-- What stands behind the colon of a class annotation. -/
inductive Directive.Parent where
  /-- Nothing. -/
  | none
  /-- The names of the parents, as written. -/
  | named (text : String)
  /-- The shape of a table. -/
  | shape (fields : List (DocType × DocType))
deriving Repr, DecidableEq, Inhabited

/-- What a class annotation declares. -/
structure Directive.ClassHeader where
  name : String
  generics : List String
  parent : Directive.Parent
deriving Repr, DecidableEq, Inhabited

/-- What a directive says. -/
inductive Directive.Body where
  | param (name : String) (type : DocType) (description : Option String)
  | returns (type : DocType) (description : Option String)
  | field (name : String) (type : DocType) (description : Option String)
  | classHeader (header : Directive.ClassHeader)
  | aliasOf (name : String) (type : DocType)
  | enum (name : String)
  | generic (names : List String)
  | metaFile
  | comment (text : String)
deriving Repr, DecidableEq, Inhabited

/-- A directive with the number of its line. -/
structure Directive where
  line : Int
  body : Directive.Body
deriving Repr, DecidableEq, Inhabited

namespace Directive

/-- Why an annotation cannot be read. -/
inductive Fault where
  /-- The type of a result, of an alias or of a class shape is no type. -/
  | type (fault : DocType.Fault)
  /-- A parameter or a field has no name. -/
  | missingName (tag : String)
  /-- The type of a parameter or of a field is no type. -/
  | memberType (tag name : String) (fault : DocType.Fault)
  /-- A class annotation does not start with a name. -/
  | classHeader (text : String)
  /-- A class annotation has a brace behind its colon but no table shape. -/
  | classShape (text : String)
deriving Repr, DecidableEq, Inhabited

/-- The wording of a fault. -/
def Fault.message : Fault → String
  | .type fault => fault.message
  | .missingName tag => "Missing name in @" ++ tag ++ " directive"
  | .memberType tag name fault =>
    "Invalid type in @" ++ tag ++ " '" ++ name ++ "': " ++ fault.message
  | .classHeader text => "Invalid @class declaration: " ++ text
  | .classShape text => "Invalid table shape in @class: " ++ text

/-- A fault with the line it was found on. -/
structure Problem where
  fault : Fault
  line : Int
  text : String
deriving Repr, DecidableEq, Inhabited

/-- What the user is told of a problem. -/
def Problem.report (p : Problem) : Report :=
  { message := p.fault.message, line := some p.line, text := some p.text, path := none }

/-- The text of a directive that is a line of documentation. -/
def commentText? (d : Directive) : Option String :=
  match d.body with
  | .comment text => some text
  | _ => none

end Directive

end LuaAmbient
