/-
What a source file declares.

Types and signatures are held as the TypeScript text they are written as.

Main definitions:

* `LuaAmbient.Declaration` — a declared class, enumeration, alias, function, object or export;
* `LuaAmbient.FunctionDecl.owner?`, `LuaAmbient.FunctionDecl.memberName` — the two halves of a
  qualified name;
* `LuaAmbient.SourceDeclarations` — the declarations of one file and the names they refer to;
* `LuaAmbient.SourceDeclarations.exportNames` — the names that other files may import.
-/

import LuaAmbient.Keyed
import LuaAmbient.NameSet
import LuaAmbient.Text.Search

set_option autoImplicit false

namespace LuaAmbient

/-- The type of a parameter and what is said of it. -/
structure ParamDecl where
  type : String
  description : Option String
deriving Repr, DecidableEq, Inhabited

/-- A field of a class. -/
structure FieldDecl where
  name : String
  type : String
  description : Option String
deriving Repr, DecidableEq, Inhabited

/-- A class. -/
structure ClassDecl where
  name : String
  generics : List String
  parent : Option String
  fields : List FieldDecl
  /-- The index signatures of a class that is declared by the shape of a table. -/
  tableShape : List String
  /-- Whether the parent is a primitive type, so that the class is an alias of it. -/
  isAliasLike : Bool
  comments : List String
deriving Repr, DecidableEq, Inhabited

/-- An enumeration with the texts of its keys and values. -/
structure EnumDecl where
  name : String
  entries : List (String × String)
  comments : List String
deriving Repr, DecidableEq, Inhabited

/-- An alias of a type. -/
structure AliasDecl where
  name : String
  type : String
  comments : List String
deriving Repr, DecidableEq, Inhabited

/-- A function.  Its name is qualified by its owner: with a colon for a method, with a dot for a
static member. -/
structure FunctionDecl where
  qualifiedName : String
  isStatic : Bool
  generics : List String
  params : List (String × ParamDecl)
  returnType : Option String
  comments : List String
deriving Repr, DecidableEq, Inhabited

/-- A table that is a value of its own. -/
structure ObjectDecl where
  name : String
  comments : List String
deriving Repr, DecidableEq, Inhabited

/-- The kinds of declarations. -/
inductive DeclKind where
  | class_
  | enum
  | aliasOf
  | function
  | object
  | export_
deriving Repr, DecidableEq, Inhabited

/-- The word for a kind. -/
def DeclKind.word : DeclKind → String
  | .class_ => "class"
  | .enum => "enum"
  | .aliasOf => "alias"
  | .function => "function"
  | .object => "object"
  | .export_ => "export"

/-- A declaration. -/
inductive Declaration where
  | class_ (decl : ClassDecl)
  | enum (decl : EnumDecl)
  | aliasOf (decl : AliasDecl)
  | function (decl : FunctionDecl)
  | object (decl : ObjectDecl)
  /-- The mark that a file returns the named value. -/
  | export_ (name : String)
deriving Repr, DecidableEq, Inhabited

/-! ### Qualified names -/

/-- The marks between an owner and its member. -/
def isMemberMark (c : Char) : Bool :=
  c == ':' || c == '.'

/-- The part of a qualified name before its last mark. -/
def FunctionDecl.owner? (f : FunctionDecl) : Option String :=
  (Text.splitLast? isMemberMark f.qualifiedName.toList).map fun p => String.ofList p.1

/-- The part of a qualified name behind its last mark; the whole name if there is none. -/
def FunctionDecl.memberName (f : FunctionDecl) : String :=
  match Text.splitLast? isMemberMark f.qualifiedName.toList with
  | some p => String.ofList p.2
  | none => f.qualifiedName

/-! ### Views of a declaration -/

namespace Declaration

/-- The kind of a declaration. -/
def kind : Declaration → DeclKind
  | .class_ _ => .class_
  | .enum _ => .enum
  | .aliasOf _ => .aliasOf
  | .function _ => .function
  | .object _ => .object
  | .export_ _ => .export_

/-- The name of a declaration; qualified for a function. -/
def name : Declaration → String
  | .class_ d => d.name
  | .enum d => d.name
  | .aliasOf d => d.name
  | .function d => d.qualifiedName
  | .object d => d.name
  | .export_ n => n

/-- The name of a declaration that declares a type. -/
def typeName? : Declaration → Option String
  | .class_ d => some d.name
  | .enum d => some d.name
  | .aliasOf d => some d.name
  | _ => none

/-- The declared function. -/
def function? : Declaration → Option FunctionDecl
  | .function f => some f
  | _ => none

/-- The declared class. -/
def class? : Declaration → Option ClassDecl
  | .class_ c => some c
  | _ => none

/-- The name that other files may import: that of a type or of a function without an owner. -/
def exportedName? : Declaration → Option String
  | .function f => if f.owner?.isNone then some f.qualifiedName else none
  | d => d.typeName?

end Declaration

/-! ### Files -/

/-- The declarations of a source file in order, and the names that they refer to. -/
structure SourceDeclarations where
  path : String
  declarations : List Declaration
  usedNames : List String
deriving Repr, DecidableEq, Inhabited

namespace SourceDeclarations

/-- The declarations of a kind. -/
def declaredAs (f : SourceDeclarations) (kind : DeclKind) : List Declaration :=
  f.declarations.filter fun d => d.kind == kind

/-- The names that other files may import, sorted. -/
def exportNames (f : SourceDeclarations) : List String :=
  sortNames (f.declarations.filterMap Declaration.exportedName?)

end SourceDeclarations

end LuaAmbient
