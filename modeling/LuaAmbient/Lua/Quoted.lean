/-
Strings between quotes.

The text between two quotes consists of escapes and of runs of other characters.  Where a run may
start, a block comment may stand as well: right behind the opening quote, behind an escape, and
behind another comment.  Everything up to its closing bracket belongs to the comment, quotes
included.

Main definitions:

* `LuaAmbient.Lua.Quoted.Part` — a part of the text between quotes;
* `LuaAmbient.Lua.Quoted.takeEscape` — an escape;
* `LuaAmbient.Lua.Quoted.take?` — the parts up to the closing quote;
* `LuaAmbient.Lua.Quoted.content` — **the content of a string**.
-/

import LuaAmbient.Lua.LongBracket
import LuaAmbient.Text.Blank

set_option autoImplicit false

namespace LuaAmbient.Lua

/-- A hexadecimal digit. -/
def isHexDigit (c : Char) : Bool :=
  c.isDigit || ('a' ≤ c && c ≤ 'f') || ('A' ≤ c && c ≤ 'F')

namespace Quoted

/-- A part of the text between quotes. -/
inductive Part where
  /-- An escape or a run of other characters. -/
  | plain (text : List Char)
  | comment (comment : BlockComment)
deriving Repr, DecidableEq, Inhabited

/-- What a part takes of a source. -/
def Part.text : Part → List Char
  | .plain text => text
  | .comment c => c.extent

/-- Whether a part is a comment. -/
def Part.isComment : Part → Bool
  | .plain _ => false
  | .comment _ => true

/-- At most so many characters of a class at the start of a text, and the rest. -/
def spanUpTo (most : Nat) (p : Char → Bool) (s : List Char) : List Char × List Char :=
  let taken := (s.take most).takeWhile p
  (taken, s.drop taken.length)

/-- A code point between braces, and the rest. -/
def takeCodePoint (s : List Char) : List Char × List Char :=
  match s with
  | '{' :: inside =>
    let (digits, rest) := spanOf isHexDigit inside
    match rest with
    | '}' :: rest => ('{' :: digits ++ ['}'], rest)
    | _ => ([], s)
  | _ => ([], s)

/-- What an escape holds behind its backslash, and the rest: a line break or a letter alone, blanks
behind a `z`, two hexadecimal digits, a code point, or up to three decimal digits. -/
def takeEscape (s : List Char) : List Char × List Char :=
  match s with
  | [] => ([], [])
  | c :: rest =>
    let (taken, rest) :=
      if c == 'z' then spanOf isSourceBlank rest
      else if c == 'x' then spanUpTo 2 isHexDigit rest
      else if c == 'u' then takeCodePoint rest
      else if c.isDigit then spanUpTo 2 Char.isDigit rest
      else ([], rest)
    (c :: taken, rest)

/-- The parts up to the closing quote, and the rest behind it.  Every part takes one step of the
bound. -/
def takeWithin (quote : Char) : Nat → List Char → Option (List Part × List Char)
  | 0, _ => none
  | bound + 1, s =>
    match takeBlockComment? s, s with
    | some (c, rest), _ => (takeWithin quote bound rest).map fun r => (.comment c :: r.1, r.2)
    | none, [] => none
    | none, '\\' :: inside =>
      let (escape, rest) := takeEscape inside
      (takeWithin quote bound rest).map fun r => (.plain ('\\' :: escape) :: r.1, r.2)
    | none, c :: behind =>
      if c == quote then some ([], behind)
      else
        let (run, rest) := spanOf (fun d => d != quote && d != '\\') s
        (takeWithin quote bound rest).map fun r => (.plain run :: r.1, r.2)

/-- The parts of a string whose opening quote has been read, and the rest behind its closing
quote. -/
def take? (quote : Char) (s : List Char) : Option (List Part × List Char) :=
  takeWithin quote (s.length + 1) s

/-- The text of parts. -/
def textOf (parts : List Part) : List Char :=
  parts.flatMap Part.text

/-- The content of a string: its parts from the first to the last that is no comment. -/
def content (parts : List Part) : List Part :=
  Text.dropEndWhile Part.isComment (parts.dropWhile Part.isComment)

end Quoted

end LuaAmbient.Lua
