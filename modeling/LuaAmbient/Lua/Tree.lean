/-
Syntax trees of Lua sources.

What makes a tree of a source is not part of this library: a parser is any function from texts to
trees.  A tree is read by the kinds of its nodes and by the fields that they stand in, and a node has
no text of its own but only a place in the source.

Main definitions:

* `LuaAmbient.Lua.Position` — a place in a source;
* `LuaAmbient.Lua.Node` — a node with its place and its children;
* `LuaAmbient.Lua.Parser` — **what makes a tree of a source**;
* `LuaAmbient.Lua.Node.parts`, `LuaAmbient.Lua.Node.child?` — the children that count, and the one in
  a field;
* `LuaAmbient.Lua.Node.comments` — the comments anywhere in a tree.
-/

import LuaAmbient.Lua.Syntax

set_option autoImplicit false

namespace LuaAmbient.Lua

/-- A place in a source: the characters before it, and its row and its column in bytes, both from
zero. -/
structure Position where
  offset : Nat
  row : Nat
  column : Nat
deriving Repr, DecidableEq, Inhabited

/-- The text of a source between two places. -/
def textBetween (source : List Char) (start stop : Position) : String :=
  String.ofList ((source.drop start.offset).take (stop.offset - start.offset))

/-- A node of a syntax tree. -/
inductive Node where
  /-- A node of a kind, whether it stands for more than a symbol or a keyword, the field of its parent
  that it stands in, where it starts and stops, and its children. -/
  | mk (kind : String) (isNamed : Bool) (field : Option String) (start stop : Position)
    (children : List Node)
deriving Repr, Inhabited

/-- What makes a tree of a source. -/
abbrev Parser := List Char → Node

namespace Node

/-! ### The parts of a node -/

/-- The kind of a node. -/
def kind : Node → String
  | mk kind _ _ _ _ _ => kind

/-- Whether a node stands for more than a symbol or a keyword. -/
def isNamed : Node → Bool
  | mk _ isNamed _ _ _ _ => isNamed

/-- The field of its parent that a node stands in. -/
def field : Node → Option String
  | mk _ _ field _ _ _ => field

/-- Where a node starts. -/
def start : Node → Position
  | mk _ _ _ start _ _ => start

/-- Where a node stops. -/
def stop : Node → Position
  | mk _ _ _ _ stop _ => stop

/-- The children of a node. -/
def children : Node → List Node
  | mk _ _ _ _ _ children => children

/-- The text of a node. -/
def text (source : List Char) (node : Node) : String :=
  textBetween source node.start node.stop

/-- The span of a node: its places counted from one. -/
def span (node : Node) : Span :=
  ⟨node.start.row + 1, node.start.column + 1, node.stop.row + 1, node.stop.column + 1⟩

/-! ### Children -/

/-- Whether a node counts among the children of another: comments may stand anywhere. -/
def isPart (node : Node) : Bool :=
  node.isNamed && node.kind != "comment"

/-- The children of a node that count. -/
def parts (node : Node) : List Node :=
  node.children.filter isPart

/-- The child of a node in a field. -/
def child? (node : Node) (field : String) : Option Node :=
  node.children.find? fun c => c.field == some field

/-- Whether a node has a child of a kind. -/
def hasChild (node : Node) (kind : String) : Bool :=
  node.children.any fun c => c.kind == kind

/-! ### Comments -/

/-- The comment that a node is. -/
def comment (source : List Char) (node : Node) : Comment :=
  ⟨node.text source, node.start.row + 1, node.stop.row + 1⟩

mutual

/-- The comments of a tree.  What is in a comment belongs to it. -/
def comments (source : List Char) : Node → List Comment
  | mk kind isNamed field start stop children =>
    if kind == "comment" then [comment source (mk kind isNamed field start stop children)]
    else commentsIn source children

/-- The comments of trees. -/
def commentsIn (source : List Char) : List Node → List Comment
  | [] => []
  | node :: rest => comments source node ++ commentsIn source rest

end

end Node

end LuaAmbient.Lua
