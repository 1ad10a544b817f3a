/-
The chunk of a syntax tree.

Only the outermost statements of a tree are lifted, with the expressions that they assign or return.
A kind of statement or expression that declarations are not drawn from is kept by its name alone.
What the parser could not make sense of is reported and left out.

Main definitions:

* `LuaAmbient.Lua.Node.expr` — the expression that a node stands for;
* `LuaAmbient.Lua.Node.statement` — the statement that a node stands for;
* `LuaAmbient.Lua.Source` — a chunk and the pieces that are part of no statement;
* `LuaAmbient.Lua.Node.source` — the chunk of a tree;
* `LuaAmbient.Lua.readChunk` — **the chunk that a parser finds in a text**.
-/

import LuaAmbient.Lua.Tree
import LuaAmbient.Report
import LuaAmbient.Sorting

set_option autoImplicit false

namespace LuaAmbient.Lua

/-- A piece of source that is part of no statement. -/
structure Unrecognized where
  line : Nat
  text : String
deriving Repr, DecidableEq, Inhabited

/-- What the user is told of a piece of source that is part of no statement. -/
def Unrecognized.describe (u : Unrecognized) : String :=
  describeUnrecognized "statement" u.line u.text

/-- The chunk of a source and the pieces that are part of no statement. -/
structure Source where
  chunk : Chunk
  unrecognized : List Unrecognized
deriving Inhabited

namespace Node

/-! ### Strings and parameters -/

/-- A text without the quotes around it, if they are the same. -/
def unquote (raw : List Char) : List Char :=
  match raw with
  | quote :: rest =>
    if (quote == '\'' || quote == '"') && rest.getLast? == some quote then rest.dropLast else raw
  | [] => []

/-- The value of a string: its content, or, if it has none, its text without the quotes. -/
def stringValue (source : List Char) (node : Node) : String :=
  match node.child? "content" with
  | some content => content.text source
  | none => String.ofList (unquote (node.text source).toList)

/-- The parameter that a node is. -/
def param? (source : List Char) (node : Node) : Option String :=
  if node.kind == "identifier" then some (node.text source)
  else if node.kind == "vararg_expression" then some "..."
  else none

/-- The parameters of a function. -/
def params (source : List Char) (node : Node) : List String :=
  match node.child? "parameters" with
  | some list => list.parts.filterMap (param? source)
  | none => []

/-- The text of the member that a node reaches. -/
def memberText (source : List Char) (node : Node) : String :=
  (((node.child? "field").or (node.child? "method")).map (text source)).getD ""

/-- The text of the operator that a node starts with. -/
def operatorText (source : List Char) (node : Node) : String :=
  (node.children.head?.map (text source)).getD ""

/-! ### Expressions -/

/-- What stands for an expression that is not there. -/
def missing : Expr :=
  .other "missing" ""

mutual

/-- The expression that a node stands for. -/
def expr (source : List Char) : Node → Expr
  | mk kind isNamed field start stop children =>
    let node := mk kind isNamed field start stop children
    match kind with
    | "identifier" => .name (node.text source)
    | "dot_index_expression" =>
      .member ((exprIn? source "table" children).getD missing) .field (node.memberText source)
    | "method_index_expression" =>
      .member ((exprIn? source "table" children).getD missing) .method (node.memberText source)
    | "bracket_index_expression" =>
      .index ((exprIn? source "table" children).getD missing)
        ((exprIn? source "field" children).getD missing)
    | "string" => .string (node.stringValue source)
    | "number" => .number (node.text source)
    | "true" => .bool true
    | "false" => .bool false
    | "nil" => .nil
    | "vararg_expression" => .vararg
    | "unary_expression" =>
      .unary (node.operatorText source)
        (((exprIn? source "operand" children).or (exprs source children).getLast?).getD missing)
    | "table_constructor" => .table (entries source children)
    | "function_definition" => .function (node.params source)
    | "parenthesized_expression" =>
      match exprs source children with
      | [inner] => inner
      | _ => .other kind (node.text source)
    | _ => .other kind (node.text source)

/-- The expression in a field. -/
def exprIn? (source : List Char) (field : String) : List Node → Option Expr
  | [] => none
  | node :: rest =>
    if node.field == some field then some (expr source node) else exprIn? source field rest

/-- The expressions that the parts of a node stand for. -/
def exprs (source : List Char) : List Node → List Expr
  | [] => []
  | node :: rest => if node.isPart then expr source node :: exprs source rest else exprs source rest

/-- The entries of a table. -/
def entries (source : List Char) : List Node → List Entry
  | [] => []
  | node :: rest =>
    if node.isPart && node.kind == "field" then entry source node :: entries source rest
    else entries source rest

/-- The entry that a node stands for.  A name in brackets is a key. -/
def entry (source : List Char) : Node → Entry
  | mk kind isNamed field start stop children =>
    let node := mk kind isNamed field start stop children
    let value := (exprIn? source "value" children).getD missing
    match node.child? "name" with
    | none => .mk value none none
    | some name =>
      if node.hasChild "[" then .mk value none (exprIn? source "name" children)
      else .mk value (some (name.text source)) none

end

/-! ### Statements -/

/-- The expressions in the lists of a kind. -/
def listed (source : List Char) (kind : String) (node : Node) : List Expr :=
  (node.parts.filter fun c => c.kind == kind).flatMap fun c => c.parts.map (expr source)

/-- The name that an expression is. -/
def name? : Expr → Option String
  | .name n => some n
  | _ => none

/-- The declaration of a function. -/
def functionStatement (source : List Char) (isLocal : Bool) (node : Node) : Statement :=
  ⟨node.span, .function (((node.child? "name").map (expr source)).getD missing)
    (node.params source) (isLocal || node.hasChild "local")⟩

/-- What a part of a local declaration makes of it.  A local function has the place of the part. -/
def localStatement? (source : List Char) (whole part : Node) : Option Statement :=
  match part.kind with
  | "assignment_statement" =>
    some ⟨whole.span, .local_ ((part.listed source "variable_list").filterMap name?)
      (part.listed source "expression_list")⟩
  | "attribute_name_list" | "variable_list" =>
    let names := part.parts.filter fun c => c.kind == "identifier"
    some ⟨whole.span, .local_ (names.map (text source)) []⟩
  | "function_declaration" | "local_function_declaration" =>
    some (part.functionStatement source true)
  | _ => none

/-- The values of a return, in a list or without one. -/
def returned (source : List Char) (node : Node) : List Expr :=
  node.parts.flatMap fun c =>
    if c.kind == "expression_list" then c.parts.map (expr source) else [expr source c]

/-- The statement that a node stands for, unless the parser could not make sense of it. -/
def statement (source : List Char) (node : Node) : Except Unrecognized Statement :=
  match node.kind with
  | "ERROR" => .error ⟨node.start.row + 1, node.text source⟩
  | "variable_declaration" =>
    .ok ((node.parts.findSome? (localStatement? source node)).getD ⟨node.span, .other node.kind⟩)
  | "assignment_statement" =>
    .ok ⟨node.span, .assign (node.listed source "variable_list")
      (node.listed source "expression_list")⟩
  | "function_declaration" | "local_function_declaration" =>
    .ok (node.functionStatement source false)
  | "return_statement" => .ok ⟨node.span, .return_ (node.returned source)⟩
  | kind => .ok ⟨node.span, .other kind⟩

/-! ### Chunks -/

/-- The chunk of a tree, with all its comments in order.  A first line that names an interpreter is no
statement. -/
def source (text : List Char) (root : Node) : Source :=
  let read := (root.parts.filter fun c => c.kind != "hash_bang_line").map (statement text)
  { chunk :=
      { body := read.filterMap Except.toOption
        comments := sortBy Comment.precedes (root.comments text) }
    unrecognized := read.filterMap fun
      | .error u => some u
      | .ok _ => none }

end Node

/-- The chunk that a parser finds in a text. -/
def readChunk (parser : Parser) (text : List Char) : Source :=
  (parser text).source text

end LuaAmbient.Lua
