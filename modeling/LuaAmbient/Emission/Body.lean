/-
The declarations of one file as TypeScript.

A file is written in sections of fixed order: enumerations, aliases, functions without an owner,
objects, classes and default exports.  Functions with an owner are written inside of it.

Main definitions:

* `LuaAmbient.Emission.commentText` — documentation lines as a comment;
* `LuaAmbient.Emission.signature` — a function with its parameters and its result;
* `LuaAmbient.Emission.body` — **the sections of a file**;
* `LuaAmbient.Emission.Draft` — a written file with the names it exports and refers to.
-/

import LuaAmbient.Declaration.Overload
import LuaAmbient.Log
import LuaAmbient.Text.Quoted

set_option autoImplicit false

namespace LuaAmbient.Emission

open LuaAmbient.Text

/-- The space in front of a member. -/
def indentation : String := "    "

/-! ### Documentation -/

/-- A line of a documentation comment, without blanks at its end. -/
def docLine (indent comment : String) : String :=
  String.ofList (stripRight (indent ++ " * " ++ comment).toList)

/-- Documentation lines as a comment; nothing if there are none. -/
def commentText (indent : String) (comments : List String) : String :=
  if comments.isEmpty then ""
  else
    joinWith "\n" ([indent ++ "/**"] ++ comments.map (docLine indent) ++ [indent ++ " */"]) ++ "\n"

/-- A description that says something. -/
def saidOf (description : Option String) : Option String :=
  description.bind fun d => if d.isEmpty then none else some d

/-- The documentation of a function: its own and that of its parameters. -/
def functionComment (f : FunctionDecl) : List String :=
  f.comments ++ f.params.filterMap fun p =>
    (saidOf p.2.description).map fun d => "@param " ++ TypeScript.bareName p.1 ++ " " ++ d

/-! ### Members and signatures -/

/-- The name of a member; a name that is no identifier is quoted. -/
def memberName (name : String) : String :=
  let bare := TypeScript.bareName name
  if isIdentifier bare.toList then name
  else quote bare ++ (if TypeScript.isOptionalName name then "?" else "")

/-- Type parameters in angle brackets; nothing if there are none. -/
def typeParameters (generics : List String) : String :=
  if generics.isEmpty then "" else "<" ++ joinWith ", " generics ++ ">"

/-- The type parameters of a class, which are unknown if they are not given. -/
def classGenericClause (generics : List String) : String :=
  typeParameters (generics.map fun g => g ++ " = unknown")

/-- A function with its parameters and its result; a static one has no object. -/
def signature (f : FunctionDecl) (name : String) (isStatic : Bool) : String :=
  let this := if isStatic then ["this: void"] else []
  let params := this ++ f.params.map fun p => p.1 ++ ": " ++ p.2.type
  name ++ typeParameters f.generics ++ "(" ++ joinWith ", " params ++ "): " ++
    FunctionDecl.resultText f.returnType

/-- A function inside of its owner. -/
def member (inClass : Bool) (f : FunctionDecl) : String :=
  commentText indentation (functionComment f) ++ indentation ++
    (if inClass && f.isStatic then "static " else "") ++
    signature f (memberName f.memberName) f.isStatic ++ ";\n"

/-- The texts one after the other. -/
def concat (texts : List String) : String :=
  joinWith "" texts

/-! ### Sections -/

/-- An enumeration. -/
def enumText (d : EnumDecl) : String :=
  commentText "" d.comments ++ "export enum " ++ d.name ++ " \x7b\n" ++
    concat (d.entries.map fun e => indentation ++ e.1 ++ " = " ++ e.2 ++ ",\n") ++ "\x7d\n\n"

/-- An alias. -/
def aliasText (d : AliasDecl) : String :=
  commentText "" d.comments ++ "export type " ++ d.name ++ " = " ++ d.type ++ ";\n"

/-- A function without an owner. -/
def functionText (f : FunctionDecl) : String :=
  commentText "" (functionComment f) ++ "export function " ++ signature f f.qualifiedName false ++
    ";\n"

/-- The functions of an owner. -/
def classMembers (functions : List FunctionDecl) (owner : String) : List FunctionDecl :=
  functions.filter fun f => f.owner? == some owner

/-- An object with its functions; without any it is a value of any type. -/
def objectText (functions : List FunctionDecl) (d : ObjectDecl) : String :=
  let members := classMembers functions d.name
  commentText "" d.comments ++ "declare const " ++ d.name ++
    (if members.isEmpty then ": any;\n"
    else ": \x7b\n" ++ concat (members.map (member false)) ++ "\x7d;\n\n")

/-- A field of a class. -/
def fieldText (f : FieldDecl) : String :=
  (match saidOf f.description with
    | some d => indentation ++ "/** " ++ d ++ " */\n"
    | none => "") ++
    indentation ++ memberName f.name ++ ": " ++ f.type ++ ";\n"

/-- The parent of a class that has one. -/
def extendsClause (parent : Option String) : String :=
  match saidOf parent with
  | some p => " extends " ++ p
  | none => ""

/-- A class with its index signatures, its functions and its fields.  A class whose parent is a
primitive type is an alias of it; the word `None` stands for a parent that is not known. -/
def classText (functions : List FunctionDecl) (d : ClassDecl) : String :=
  commentText "" d.comments ++
    if d.isAliasLike then
      "export type " ++ d.name ++ typeParameters d.generics ++ " = " ++ d.parent.getD "None" ++
        ";\n"
    else
      "export class " ++ d.name ++ classGenericClause d.generics ++ extendsClause d.parent ++
        " \x7b\n" ++
        concat (d.tableShape.map fun line => indentation ++ line ++ "\n") ++
        concat ((classMembers functions d.name).map (member true)) ++
        concat (d.fields.map fieldText) ++ "\x7d\n\n"

/-- The functions among declarations. -/
def functionsOf (declarations : List Declaration) : List FunctionDecl :=
  declarations.filterMap Declaration.function?

/-- The texts of the declarations for which there is one, in order. -/
def sectionText (text? : Declaration → Option String) (declarations : List Declaration) : String :=
  concat (declarations.filterMap text?)

/-- The text of an enumeration. -/
def enumText? : Declaration → Option String
  | .enum d => some (enumText d)
  | _ => none

/-- The text of an alias. -/
def aliasText? : Declaration → Option String
  | .aliasOf d => some (aliasText d)
  | _ => none

/-- The text of a function without an owner. -/
def functionText? : Declaration → Option String
  | .function f => if f.owner?.isNone then some (functionText f) else none
  | _ => none

/-- The text of an object with its functions. -/
def objectText? (functions : List FunctionDecl) : Declaration → Option String
  | .object d => some (objectText functions d)
  | _ => none

/-- The text of a class with its functions. -/
def classText? (functions : List FunctionDecl) : Declaration → Option String
  | .class_ d => some (classText functions d)
  | _ => none

/-- The text of a default export. -/
def exportText? : Declaration → Option String
  | .export_ name => some ("export default " ++ name ++ ";\n\n")
  | _ => none

/-- The sections of a file. -/
def body (file : SourceDeclarations) : String :=
  let ds := file.declarations
  let functions := functionsOf ds
  sectionText enumText? ds ++ sectionText aliasText? ds ++ sectionText functionText? ds ++
    sectionText (objectText? functions) ds ++ sectionText (classText? functions) ds ++
    sectionText exportText? ds

/-- The names of the objects and the classes that functions are written inside of. -/
def owners (declarations : List Declaration) : List String :=
  declarations.filterMap fun d =>
    match d with
    | .object o => some o.name
    | .class_ c => if c.isAliasLike then none else some c.name
    | _ => none

/-- The functions whose owner is not written. -/
def ownerless (file : SourceDeclarations) : List (String × FunctionDecl) :=
  (functionsOf file.declarations).filterMap fun f =>
    f.owner?.bind fun o => if (owners file.declarations).contains o then none else some (o, f)

/-- The notes about functions whose owner is not written. -/
def notes (file : SourceDeclarations) : List Log.Entry :=
  (ownerless file).map fun p =>
    ⟨.debug, file.path ++ ": no class or object '" ++ p.1 ++ "' for " ++ p.2.qualifiedName⟩

/-! ### Files -/

/-- A written file with the names that it exports and the names of other files that it refers to,
both sorted. -/
structure Draft where
  path : String
  body : String
  exported : List String
  foreign : List String
deriving Repr, DecidableEq, Inhabited

/-- Writes a file. -/
def Draft.ofFile (file : SourceDeclarations) : Draft :=
  let exported := file.exportNames
  { path := file.path
    body := Emission.body file
    exported := exported
    foreign := sortNames
      (file.usedNames.filter fun n => !exported.contains n && !TypeScript.isInternal n) }

end LuaAmbient.Emission
