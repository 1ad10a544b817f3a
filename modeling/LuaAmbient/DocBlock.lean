/-
Comment blocks and the statements that they document.

Comments on adjacent lines form a block.  A block that ends on the line above a statement belongs
to that statement; a block that belongs to none is an orphan.

Main definitions:

* `LuaAmbient.DocBlock` — the directives of a run of comments;
* `LuaAmbient.DocBlock.groups` — the runs of adjacent comments;
* `LuaAmbient.DocBlock.byLastLine` — the places of the blocks by the lines on which they end;
* `LuaAmbient.DocBlock.forLine`, `LuaAmbient.DocBlock.orphans` — the block of a statement,
  and the blocks without a statement;
* `LuaAmbient.Attachment` — the blocks of a chunk, attached and orphaned.
-/

import LuaAmbient.Directive.Parser
import LuaAmbient.Lua.Syntax
import LuaAmbient.Sorting

set_option autoImplicit false

namespace LuaAmbient

/-- The directives of a run of comments, with its first and its last line. -/
structure DocBlock where
  directives : List Directive
  firstLine : Int
  lastLine : Int
deriving Repr, DecidableEq, Inhabited

namespace DocBlock

/-- The block of a statement without comments. -/
def empty : DocBlock :=
  ⟨[], 0, 0⟩

/-- The documentation lines of a block. -/
def comments (b : DocBlock) : List String :=
  b.directives.filterMap Directive.commentText?

/-- Whether a block says more than documentation. -/
def isAnnotated (b : DocBlock) : Bool :=
  b.directives.any fun d => d.commentText?.isNone

/-! ### Runs of adjacent comments -/

/-- Puts a comment in front of the first run if that run starts on the line below it. -/
def consGroup (c : Lua.Comment) : List (List Lua.Comment) → List (List Lua.Comment)
  | (d :: g) :: gs => if d.line == c.endLine + 1 then (c :: d :: g) :: gs else [c] :: (d :: g) :: gs
  | gs => [c] :: gs

/-- The runs of comments of which each starts on the line below the one before it. -/
def groups : List Lua.Comment → List (List Lua.Comment)
  | [] => []
  | c :: cs => consGroup c (groups cs)

/-- The lines of a comment, numbered; an empty comment has one. -/
def commentLines (c : Lua.Comment) : List Directive.Line :=
  let texts := match Text.stringLines c.raw with
    | [] => [""]
    | ls => ls
  texts.zipIdx.map fun p => Directive.Line.ofString (c.line + p.2) p.1

/-- The block of a run of comments. -/
def ofGroup (group : List Lua.Comment) : Except Directive.Problem DocBlock := do
  let directives ← Directive.parseLines (group.flatMap commentLines)
  return ⟨directives, (group.head?.map (·.line)).getD 0, (group.getLast?.map (·.endLine)).getD 0⟩

/-- The blocks of all comments in source order. -/
def ofComments (comments : List Lua.Comment) : Except Directive.Problem (List DocBlock) :=
  (groups (sortBy Lua.Comment.precedes comments)).mapM ofGroup

/-! ### Attachment -/

/-- The places of blocks by the lines on which they end.  A later block stands in front of the earlier
ones, so that of several blocks that end on one line the last one is found. -/
def byLastLine (blocks : List DocBlock) : List (Int × Nat) :=
  blocks.zipIdx.foldl (fun index p => (p.1.lastLine, p.2) :: index) []

/-- The place of the block that ends on the line above `line`. -/
def placeAbove? (line : Int) (blocks : List DocBlock) : Option Nat :=
  (byLastLine blocks).lookup (line - 1)

/-- The block of a statement that starts on the given line, or the empty block. -/
def forLine (line : Int) (blocks : List DocBlock) : DocBlock :=
  match placeAbove? line blocks with
  | some place => blocks.getD place empty
  | none => empty

/-- The places of the blocks that belong to statements that start on the given lines. -/
def used (starts : List Int) (blocks : List DocBlock) : List Nat :=
  starts.filterMap fun line => placeAbove? line blocks

/-- The blocks that say something and belong to none of the statements that start on the given
lines. -/
def orphans (starts : List Int) (blocks : List DocBlock) : List DocBlock :=
  let taken := used starts blocks
  (blocks.zipIdx.filter fun p => !taken.contains p.2 && !p.1.directives.isEmpty).map Prod.fst

end DocBlock

/-- The statements of a chunk with their blocks, and the blocks without a statement. -/
structure Attachment where
  attached : List (Lua.Statement × DocBlock)
  orphaned : List DocBlock
deriving Inhabited

/-- Attaches each block of comments to the statement below it. -/
def Attachment.ofChunk (chunk : Lua.Chunk) : Except Directive.Problem Attachment := do
  let blocks ← DocBlock.ofComments chunk.comments
  return {
    attached := chunk.body.map fun s => (s, DocBlock.forLine s.span.startLine blocks)
    orphaned := DocBlock.orphans (chunk.body.map (·.span.startLine)) blocks }

end LuaAmbient
