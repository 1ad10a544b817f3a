/-
Long brackets and the comments in them.

A long bracket opens with two brackets and any number of equals signs between them, and closes with
as many.  Behind two dashes it makes a comment that may go over several lines.

Main definitions:

* `LuaAmbient.Lua.isSourceBlank`, `LuaAmbient.Lua.isCommentBlank` — the blanks of a source, and
  those that may stand before a block comment;
* `LuaAmbient.Lua.takeBracket?` — the long bracket at the start of a text;
* `LuaAmbient.Lua.takeBlockComment?` — **the block comment at the start of a text**.
-/

set_option autoImplicit false

namespace LuaAmbient.Lua

/-- The blanks of a source. -/
def isSourceBlank (c : Char) : Bool :=
  ('\t' ≤ c && c ≤ '\r') || c == ' '

/-- The blanks before a block comment: those of a source, and the spaces and line separators of
Unicode that allow a break. -/
def isCommentBlank (c : Char) : Bool :=
  let n := c.toNat
  isSourceBlank c || n == 0x1680 || (0x2000 ≤ n && n ≤ 0x2006) || (0x2008 ≤ n && n ≤ 0x200a) ||
    n == 0x2028 || n == 0x2029 || n == 0x205f || n == 0x3000

/-- The longest start of a text in a class, and the rest. -/
def spanOf (p : Char → Bool) (s : List Char) : List Char × List Char :=
  (s.takeWhile p, s.dropWhile p)

/-- The number of equals signs in the opening of a long bracket, and the text behind it. -/
def openLong? (s : List Char) : Option (Nat × List Char) :=
  match s with
  | '[' :: rest =>
    let (equals, rest) := spanOf (· == '=') rest
    match rest with
    | '[' :: rest => some (equals.length, rest)
    | _ => none
  | _ => none

/-- The text up to a closing long bracket, and the rest behind the bracket. -/
def takeLong (closing : List Char) : List Char → Option (List Char × List Char)
  | [] => none
  | c :: rest =>
    match List.isPrefixOf? closing (c :: rest) with
    | some behind => some ([], behind)
    | none => (takeLong closing rest).map fun r => (c :: r.1, r.2)

/-- The closing of a long bracket. -/
def closeLong (equals : Nat) : List Char :=
  ']' :: List.replicate equals '=' ++ [']']

/-- The text in the long bracket at the start of a text, the whole bracket, and the rest. -/
def takeBracket? (s : List Char) : Option (List Char × List Char × List Char) := do
  let (equals, inside) ← openLong? s
  let (value, rest) ← takeLong (closeLong equals) inside
  return (value, s.take (s.length - rest.length), rest)

/-- A block comment with the blanks before it. -/
structure BlockComment where
  blanks : List Char
  text : List Char
deriving Repr, DecidableEq, Inhabited

/-- All that a block comment takes of a source. -/
def BlockComment.extent (c : BlockComment) : List Char :=
  c.blanks ++ c.text

/-- The block comment at the start of a text, and the rest. -/
def takeBlockComment? (s : List Char) : Option (BlockComment × List Char) :=
  let (blanks, rest) := spanOf isCommentBlank s
  match rest with
  | '-' :: '-' :: inside =>
    (takeBracket? inside).map fun r => (⟨blanks, '-' :: '-' :: r.2.1⟩, r.2.2)
  | _ => none

end LuaAmbient.Lua
