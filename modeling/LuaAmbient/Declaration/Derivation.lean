/-
Declarations drawn from statements and their comment blocks.

A statement and its block are read together.  A statement that defines a function declares that
function.  Otherwise a class annotation counts before an enumeration, an enumeration before a plain
table, and a plain table before aliases.  A block without a statement declares its classes and its
aliases.

Main definitions:

* `LuaAmbient.Derivation` — the declarations of a statement and the names that they refer to;
* `LuaAmbient.Derivation.ofStatement`, `LuaAmbient.Derivation.ofOrphan` — the declarations of a
  statement with its block, and of a block alone;
* `LuaAmbient.Derivation.Collecting` — the declarations collected so far, with the functions by name
  and the names of the types beside them;
* `LuaAmbient.Derivation.collapse` — declarations with repeated names put together;
* `LuaAmbient.SourceDeclarations.ofAttachment` — **the declarations of a file**.
-/

import LuaAmbient.Declaration.Overload
import LuaAmbient.DocBlock
import LuaAmbient.Log
import LuaAmbient.Text.Quoted

set_option autoImplicit false

namespace LuaAmbient

/-! ### What a block says -/

namespace DocBlock

/-- The class annotations of a block with their lines. -/
def classes (b : DocBlock) : List (Int × Directive.ClassHeader) :=
  b.directives.filterMap fun d =>
    match d.body with
    | .classHeader h => some (d.line, h)
    | _ => none

/-- The names of the enumeration annotations of a block. -/
def enums (b : DocBlock) : List String :=
  b.directives.filterMap fun d =>
    match d.body with
    | .enum name => some name
    | _ => none

/-- The alias annotations of a block. -/
def aliases (b : DocBlock) : List (String × DocType) :=
  b.directives.filterMap fun d =>
    match d.body with
    | .aliasOf name t => some (name, t)
    | _ => none

/-- A field annotation: its line, its name, its type and its description. -/
structure FieldNote where
  line : Int
  name : String
  type : DocType
  description : Option String
deriving Repr, DecidableEq, Inhabited

/-- The field annotations of a block. -/
def fields (b : DocBlock) : List FieldNote :=
  b.directives.filterMap fun d =>
    match d.body with
    | .field name t description => some ⟨d.line, name, t, description⟩
    | _ => none

/-- The parameter annotations of a block. -/
def params (b : DocBlock) : List (String × DocType × Option String) :=
  b.directives.filterMap fun d =>
    match d.body with
    | .param name t description => some (name, t, description)
    | _ => none

/-- The types of the result annotations of a block. -/
def returns (b : DocBlock) : List DocType :=
  b.directives.filterMap fun d =>
    match d.body with
    | .returns t _ => some t
    | _ => none

/-- The type parameters that a block declares. -/
def generics (b : DocBlock) : List String :=
  b.directives.flatMap fun d =>
    match d.body with
    | .generic names => names
    | _ => []

end DocBlock

/-! ### What a literal says -/

namespace Lua.Expr

/-- The first table literal among several values. -/
def firstTable? : List Expr → Option (List Entry)
  | [] => none
  | .table entries :: _ => some entries
  | _ :: rest => firstTable? rest

/-- The type of a value of a table entry, as far as its form shows it. -/
def shapeType : Expr → String
  | .string _ => "string"
  | .number _ => "number"
  | .bool _ => "boolean"
  | .function _ => "(...args: Array<any>) => any"
  | .table _ => "Record<string, any>"
  | .unary operator _ =>
    if operator == "not" then "boolean"
    else if operator == "-" || operator == "#" || operator == "~" then "number"
    else "any"
  | _ => "any"

/-- The text that stands for a value in an enumeration. -/
def valueText : Expr → String
  | .string value => value
  | .number raw => raw
  | .bool value => if value then "true" else "false"
  | .nil => "nil"
  | .vararg => "..."
  | .unary operator argument => operator ++ argument.valueText
  | .other _ text => text
  | .table _ | .function _ => ""
  | .name n => n
  | .member base access field => ((Expr.member base access field).path?).getD ""
  | .index base key => ((Expr.index base key).path?).getD ""

/-- The value of an enumeration entry: a number, which may be negative, as it is, and anything else
as a quoted string. -/
def entryValue : Expr → String
  | .number raw => raw
  | .unary "-" (.number raw) => "-" ++ raw
  | e => Text.quote e.valueText

/-- The key of an enumeration entry that has only a literal string key. -/
def entryKey? : Option Expr → Option String
  | some (.string value) =>
    some (if Text.isIdentifier value.toList then value else Text.quote value)
  | _ => none

end Lua.Expr

/-- The key and the value of a table entry as an entry of an enumeration. -/
def Lua.Entry.enumEntry? (e : Lua.Entry) : Option (String × String) :=
  let key := match e.name with
    | some name => if name.isEmpty then Lua.Expr.entryKey? e.key else some name
    | none => Lua.Expr.entryKey? e.key
  key.map fun k => (k, e.value.entryValue)

/-! ### Declarations of one statement -/

/-- Declarations with the names that they refer to, in any order. -/
structure Derivation where
  declarations : List Declaration
  usedNames : List String
deriving Repr, DecidableEq, Inhabited

namespace Derivation

/-- The parents that make a class an alias. -/
def primitiveParents : List String :=
  ["string", "number", "integer", "float", "boolean", "any", "unknown", "nil", "userdata",
    "lightuserdata"]

/-- The first of a list of parents, read as a type. -/
def readParent (line : Int) (parents : String) : Except Directive.Problem DocType :=
  match DocType.parse parents.toList with
  | .ok (.tuple (t :: _)) => .ok t
  | .ok t => .ok t
  | .error fault => .error ⟨.type fault, line, parents⟩

/-- The name that stands before the first comma of a list of parents. -/
def firstParent (parents : String) : String :=
  String.ofList (Text.strip (parents.toList.takeWhile (· != ',')))

/-- The fields that a table literal adds to the annotated ones: its named entries of other names,
each name once. -/
def literalFields (declared : List String) : List Lua.Entry → List FieldDecl
  | [] => []
  | e :: es =>
    match e.name with
    | none => literalFields declared es
    | some name =>
      if declared.contains name then literalFields declared es
      else ⟨name, e.value.shapeType, none⟩ :: literalFields (name :: declared) es

/-- An annotated field. -/
def fieldInfo (f : DocBlock.FieldNote) : FieldDecl :=
  ⟨f.name, TypeScript.text f.type, f.description⟩

/-- The first list that is not empty. -/
def firstNonEmpty : List (List String) → List String
  | [] => []
  | l :: ls => if l.isEmpty then firstNonEmpty ls else l

/-- The text and the names of the parent of a class, and whether it is primitive. -/
def parentParts (line : Int) (parent : Directive.Parent) :
    Except Directive.Problem (Option String × Bool × List String) :=
  match parent with
  | .named text => do
    let t ← readParent line text
    return (some (TypeScript.text t), primitiveParents.contains (firstParent text),
      TypeScript.names t)
  | _ => .ok (none, false, [])

/-- The index signatures and the names of the shape of a class. -/
def shapeParts : Directive.Parent → List String × List String
  | .shape fields => (TypeScript.indexSignatures fields, TypeScript.shapeNames fields)
  | _ => ([], [])

/-- The class of an annotation with the given fields and, if there is one, a table literal.  Type
parameters are its own, or else those of the block, or else those of the file. -/
def ofClass (fileGenerics : List String) (block : DocBlock) (line : Int)
    (header : Directive.ClassHeader) (fields : List DocBlock.FieldNote)
    (table : Option (List Lua.Entry)) : Except Directive.Problem Derivation := do
  let generics := firstNonEmpty [header.generics, block.generics, fileGenerics]
  let (parent, isAliasLike, parentNames) ← parentParts line header.parent
  let (shape, shapeNames) := shapeParts header.parent
  let annotated := fields.map fieldInfo
  let added := literalFields (annotated.map (·.name)) (table.getD [])
  let used := parentNames ++ shapeNames ++ fields.flatMap fun f => TypeScript.names f.type
  return {
    declarations := [.class_ {
      name := header.name, generics := generics, parent := parent, fields := annotated ++ added,
      tableShape := shape, isAliasLike := isAliasLike, comments := block.comments }]
    usedNames := dropNames used generics }

/-- The enumeration of a table literal. -/
def ofEnum (name : String) (entries : List Lua.Entry) (block : DocBlock) : Derivation :=
  { declarations := [.enum ⟨name, entries.filterMap Lua.Entry.enumEntry?, block.comments⟩]
    usedNames := [] }

/-- The aliases of a block. -/
def ofAliases (block : DocBlock) : Derivation :=
  { declarations := block.aliases.map fun a =>
      .aliasOf ⟨a.1, TypeScript.text a.2, block.comments⟩
    usedNames := block.aliases.flatMap fun a => TypeScript.names a.2 }

/-! ### Functions -/

/-- A parameter as an annotation gives it. -/
def annotatedParam (p : String × DocType × Option String) : String × ParamDecl :=
  if p.1 == "..." then (FunctionDecl.restName, ⟨TypeScript.restText p.2.1, p.2.2⟩)
  else (TypeScript.parameterName p.1, ⟨TypeScript.text p.2.1, p.2.2⟩)

/-- A parameter of which only the name is known. -/
def plainParam (name : String) : String × ParamDecl :=
  if name == "..." then (FunctionDecl.restName, ⟨TypeScript.restText DocType.any, none⟩)
  else (TypeScript.parameterName name, ⟨"any", none⟩)

/-- Replaces the last dot of a name by a colon, if the name has no colon. -/
def methodName (name : String) : String :=
  if name.toList.contains ':' then name
  else
    match Text.splitLast? (· == '.') name.toList with
    | some (owner, member) => String.ofList (owner ++ ':' :: member)
    | none => name

/-- The result of a function: the annotated one, or the sequence of several. -/
def resultType : List DocType → Option String
  | [] => none
  | [t] => some (TypeScript.text t)
  | ts => some ("[" ++ Text.joinWith ", " (ts.map TypeScript.text) ++ "]")

/-- The function of the given name.  Its parameters are the annotated ones, or, if there are none,
those of the definition; a parameter `self` makes it a method. -/
def ofFunction (name : String) (params : List String) (block : DocBlock) : Derivation :=
  let notes := block.params
  let given := if notes.isEmpty then params else notes.map (·.1)
  let annotated := notes.filter fun p => p.1 != "self"
  let infos := if notes.isEmpty then (params.filter (· != "self")).map plainParam
    else annotated.map annotatedParam
  let fullName := if given.contains "self" then methodName name else name
  let used := (annotated.flatMap fun p => TypeScript.names p.2.1) ++
    block.returns.flatMap TypeScript.names
  { declarations := [.function {
      qualifiedName := fullName
      isStatic := !fullName.toList.contains ':' && fullName.toList.contains '.'
      generics := block.generics
      params := Keyed.ofList infos
      returnType := resultType block.returns
      comments := block.comments }]
    usedNames := dropNames used block.generics }

/-! ### Statements and orphans -/

/-- The field annotations between a class annotation and the next one. -/
def ownedFields (line : Int) (next : Option Int) (fields : List DocBlock.FieldNote) :
    List DocBlock.FieldNote :=
  fields.filter fun f => line < f.line &&
    match next with
    | some n => decide (f.line < n)
    | none => true

/-- The classes of a block without a statement.  Each has the fields below its annotation, up to the
next one; the first also has the fields above it. -/
def ofClasses (fileGenerics : List String) (block : DocBlock) (isFirst : Bool) :
    List (Int × Directive.ClassHeader) → Except Directive.Problem (List Derivation)
  | [] => .ok []
  | (line, header) :: rest => do
    let above := if isFirst then block.fields.filter fun f => f.line < line else []
    let below := ownedFields line (rest.head?.map (·.1)) block.fields
    let first ← ofClass fileGenerics block line header (above ++ below) none
    let others ← ofClasses fileGenerics block false rest
    return first :: others

/-- Several derivations as one. -/
def concat (parts : List Derivation) : Derivation :=
  ⟨parts.flatMap (·.declarations), parts.flatMap (·.usedNames)⟩

/-- The classes and the aliases of a block without a statement. -/
def ofOrphan (fileGenerics : List String) (block : DocBlock) :
    Except Directive.Problem Derivation := do
  let classes ← ofClasses fileGenerics block true block.classes
  return concat (classes ++ [ofAliases block])

/-- The name and the parameters of the function that an assignment of these values to this target
defines. -/
def assignedFunction? (target : Option String) (init : List Lua.Expr) :
    Option (String × List String) :=
  match target, init with
  | some name, [.function params] => some (name, params)
  | _, _ => none

/-- A string that is not empty. -/
def nonEmpty? (s : String) : Option String :=
  if s.isEmpty then none else some s

/-- The name of the enumeration that a block declares for a table: the annotated one or, if that is
empty, the name of the target. -/
def enumName? (target : Option String) (block : DocBlock) : Option String :=
  match block.enums with
  | [] => none
  | name :: _ => (nonEmpty? name).or (target.bind nonEmpty?)

/-- The declarations of a table that is assigned to a target.  `isPlain` says whether the target is
a single name. -/
def ofTable (target : Option String) (isPlain : Bool) (entries : List Lua.Entry)
    (block : DocBlock) : Derivation :=
  match enumName? target block, target with
  | some name, _ => ofEnum name entries block
  | none, some name => if isPlain then ⟨[.object ⟨name, block.comments⟩], []⟩ else ofAliases block
  | none, none => ofAliases block

/-- The declarations of an assignment. -/
def ofAssignment (fileGenerics : List String) (target : Option String) (isPlain : Bool)
    (init : List Lua.Expr) (block : DocBlock) : Except Directive.Problem Derivation :=
  let table := Lua.Expr.firstTable? init
  match block.classes, assignedFunction? target init, table with
  | (line, header) :: _, _, _ => ofClass fileGenerics block line header block.fields table
  | [], some (name, params), _ => .ok (ofFunction name params block)
  | [], none, some entries => .ok (ofTable target isPlain entries block)
  | [], none, none => .ok (ofAliases block)

/-- Whether an expression is a single name. -/
def isPlainTarget : List Lua.Expr → Bool
  | .name _ :: _ => true
  | _ => false

/-- The names among returned values. -/
def returnedNames (arguments : List Lua.Expr) : List String :=
  arguments.filterMap fun e =>
    match e with
    | .name n => some n
    | _ => none

/-- The declarations of a statement with its block. -/
def ofStatement (fileGenerics : List String) (statement : Lua.Statement) (block : DocBlock) :
    Except Directive.Problem Derivation :=
  match statement.action with
  | .function target params _ =>
    match target.path? with
    | some name => .ok (ofFunction name params block)
    | none => .ok ⟨[], []⟩
  | .local_ names init => ofAssignment fileGenerics names.head? true init block
  | .assign targets init =>
    ofAssignment fileGenerics (targets.head?.bind Lua.Expr.path?) (isPlainTarget targets) init
      block
  | .return_ arguments =>
    if block.isAnnotated then ofOrphan fileGenerics block
    else .ok ⟨(returnedNames arguments).map .export_, []⟩
  | .other _ => ofOrphan fileGenerics block

/-! ### Files -/

/-- What is known of a file while its declarations are collected. -/
structure Collecting where
  /-- The declarations so far, in order. -/
  declarations : List Declaration
  /-- The functions among them by name, each with all of its definitions so far merged. -/
  functions : List (String × FunctionDecl)
  /-- The names of the types among them. -/
  typeNames : List String
  /-- The types that were left out. -/
  repeated : List Declaration
deriving Repr, DecidableEq, Inhabited

namespace Collecting

/-- Nothing is collected yet. -/
def empty : Collecting := ⟨[], [], [], []⟩

/-- Adds a definition of a function.  A further one is merged into the function of its name, which is
sought by its value in the list and keeps its place there. -/
def addFunction (c : Collecting) (g : FunctionDecl) : Collecting :=
  match Keyed.get? c.functions g.qualifiedName with
  | none =>
    { c with
      declarations := c.declarations ++ [.function g]
      functions := Keyed.put c.functions g.qualifiedName g }
  | some f =>
    let merged := f.merge g
    { c with
      declarations := c.declarations.replace (.function f) (.function merged)
      functions := Keyed.put c.functions g.qualifiedName merged }

/-- Adds a type unless its name is known. -/
def addType (c : Collecting) (name : String) (d : Declaration) : Collecting :=
  if c.typeNames.contains name then { c with repeated := c.repeated ++ [d] }
  else { c with declarations := c.declarations ++ [d], typeNames := name :: c.typeNames }

/-- Adds a declaration. -/
def add (c : Collecting) (d : Declaration) : Collecting :=
  match d with
  | .function g => c.addFunction g
  | _ =>
    match d.typeName? with
    | some name => c.addType name d
    | none => { c with declarations := c.declarations ++ [d] }

end Collecting

/-- Collects declarations one after the other. -/
def collect (declarations : List Declaration) : Collecting :=
  declarations.foldl Collecting.add .empty

/-- Declarations with repeated names put together. -/
def collapse (declarations : List Declaration) : List Declaration :=
  (collect declarations).declarations

/-- The owner of a derivation that declares one member and nothing else. -/
def soleOwner? (s : Derivation) : Option String :=
  match s.declarations with
  | [.function f] => f.owner?
  | _ => none

/-- The type parameters of the class of the given name that has a body. -/
def genericsOfClass (declarations : List Declaration) (name : String) : List String :=
  (declarations.filterMap Declaration.class?).flatMap fun c =>
    if c.name == name && !c.isAliasLike then c.generics else []

/-- The names that a derivation refers to outside of the class that it is written in. -/
def foreignNames (declarations : List Declaration) (s : Derivation) : List String :=
  match s.soleOwner? with
  | some owner => dropNames s.usedNames (genericsOfClass declarations owner)
  | none => s.usedNames

/-- The warning that a type repeats the name of an earlier one. -/
def repeatedWarning (path : String) (d : Declaration) : Log.Entry :=
  ⟨.warning, path ++ ": duplicate " ++ d.kind.word ++ " '" ++ d.name ++ "' ignored"⟩

end Derivation

/-- The type parameters that the orphaned blocks of a file declare, each once. -/
def Attachment.fileGenerics (a : Attachment) : List String :=
  (a.orphaned.flatMap DocBlock.generics).eraseDups

/-- The derivations of all statements in order, and then of the orphaned blocks. -/
def Attachment.derivations (a : Attachment) : Except Directive.Problem (List Derivation) := do
  let attached ← a.attached.mapM fun p => Derivation.ofStatement a.fileGenerics p.1 p.2
  let orphaned ← a.orphaned.mapM (Derivation.ofOrphan a.fileGenerics)
  return attached ++ orphaned

/-- The declarations of a file and the warnings about repeated types. -/
def SourceDeclarations.ofAttachment (path : String) (a : Attachment) :
    Except Directive.Problem (SourceDeclarations × List Log.Entry) := do
  let parts ← a.derivations
  let all := parts.flatMap (·.declarations)
  let declarations := Derivation.collapse all
  let used := parts.flatMap (Derivation.foreignNames declarations)
  return (⟨path, declarations, sortNames used⟩,
    (Derivation.collect all).repeated.map (Derivation.repeatedWarning path))

end LuaAmbient
