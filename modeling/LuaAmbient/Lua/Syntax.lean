/-
The parts of a Lua chunk that declarations are drawn from.

Only the outermost statements of a chunk are kept, with the expressions that they assign or return;
bodies of functions and blocks are not looked into.  Comments are kept from everywhere.

Main definitions:

* `LuaAmbient.Lua.Expr`, `LuaAmbient.Lua.Entry` — expressions and the entries of table literals;
* `LuaAmbient.Lua.Statement` — a statement with its place;
* `LuaAmbient.Lua.Comment`, `LuaAmbient.Lua.Comment.precedes` — a comment with its lines, and the
  order of comments;
* `LuaAmbient.Lua.Chunk` — a chunk;
* `LuaAmbient.Lua.Expr.path?` — the dotted name of a chain of members.
-/

set_option autoImplicit false

namespace LuaAmbient.Lua

/-- Where a statement starts and ends: lines from one, columns in bytes from one, the end
exclusive. -/
structure Span where
  startLine : Int
  startColumn : Int
  endLine : Int
  endColumn : Int
deriving Repr, DecidableEq, Inhabited

/-- How a member is reached: as a field or as a method. -/
inductive Access where
  | field
  | method
deriving Repr, DecidableEq, Inhabited

/-- The mark between a base and its member. -/
def Access.mark : Access → String
  | .field => "."
  | .method => ":"

mutual

/-- An expression. -/
inductive Expr where
  | name (name : String)
  | member (base : Expr) (access : Access) (field : String)
  | index (base key : Expr)
  /-- A string literal with the text between its delimiters. -/
  | string (value : String)
  /-- A number as written. -/
  | number (raw : String)
  | bool (value : Bool)
  | nil
  | vararg
  | unary (operator : String) (argument : Expr)
  | table (entries : List Entry)
  /-- A function with the names of its parameters. -/
  | function (params : List String)
  /-- Any other expression with its kind and its text. -/
  | other (kind text : String)

/-- An entry of a table literal: its value, and its name or its key if it has one. -/
inductive Entry where
  | mk (value : Expr) (name : Option String) (key : Option Expr)

end

instance : Inhabited Expr := ⟨.nil⟩

instance : Inhabited Entry := ⟨.mk .nil none none⟩

/-- The value of an entry. -/
def Entry.value : Entry → Expr
  | .mk value _ _ => value

/-- The name of an entry. -/
def Entry.name : Entry → Option String
  | .mk _ name _ => name

/-- The key of an entry. -/
def Entry.key : Entry → Option Expr
  | .mk _ _ key => key

/-- What a statement does. -/
inductive Action where
  | local_ (names : List String) (init : List Expr)
  | assign (targets init : List Expr)
  | function (target : Expr) (params : List String) (isLocal : Bool)
  | return_ (arguments : List Expr)
  /-- Any other statement with its kind. -/
  | other (kind : String)
deriving Inhabited

/-- A statement with its place. -/
structure Statement where
  span : Span
  action : Action
deriving Inhabited

/-- A comment with its dashes, its first and its last line. -/
structure Comment where
  raw : String
  line : Int
  endLine : Int
deriving Repr, DecidableEq, Inhabited

/-- The order of comments by their first and then by their last line. -/
def Comment.precedes (a b : Comment) : Bool :=
  a.line < b.line || (a.line == b.line && a.endLine ≤ b.endLine)

/-- The outermost statements and all comments of a source file. -/
structure Chunk where
  body : List Statement
  comments : List Comment
deriving Inhabited

/-- The dotted name of a name, of a member, or of an element under a literal string key. -/
def Expr.path? : Expr → Option String
  | .name n => some n
  | .member base access field => base.path?.map fun b => b ++ access.mark ++ field
  | .index base (.string key) => base.path?.map fun b => b ++ "." ++ key
  | _ => none

end LuaAmbient.Lua
