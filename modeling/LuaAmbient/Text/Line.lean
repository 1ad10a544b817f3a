/-
Cutting a text into lines.

Comments are cut at every Unicode line boundary, source files at line feeds only, after every
carriage return has been turned into a line feed.

Main definitions:

* `LuaAmbient.Text.isLineEnd` — the characters that end a line of a comment;
* `LuaAmbient.Text.lines` — the lines of a comment, without their ends;
* `LuaAmbient.Text.chomp` — a text without a line feed at its end;
* `LuaAmbient.Text.normalizeNewlines` — a source text with line feeds as its only line ends.
-/

set_option autoImplicit false

namespace LuaAmbient.Text

/-- The characters that end a line of a comment. -/
def isLineEnd (c : Char) : Bool :=
  let n := c.toNat
  (0x0a ≤ n && n ≤ 0x0d) || (0x1c ≤ n && n ≤ 0x1e) || n == 0x85 || n == 0x2028 || n == 0x2029

/-- Puts a character in front of the first piece; a text without pieces gets one. -/
def consFirst (c : Char) : List (List Char) → List (List Char)
  | [] => [[c]]
  | l :: ls => (c :: l) :: ls

/-- The lines of a text without their ends.  A carriage return followed by a line feed ends one
line, and a line end at the end of the text opens no further line. -/
def lines : List Char → List (List Char)
  | [] => []
  | '\r' :: '\n' :: cs => [] :: lines cs
  | c :: cs => if isLineEnd c then [] :: lines cs else consFirst c (lines cs)

/-- The lines of a string without their ends. -/
def stringLines (s : String) : List String :=
  (lines s.toList).map String.ofList

/-- The text without a line feed at its end; of several, only the last goes. -/
def chomp (s : List Char) : List Char :=
  if s.getLast? == some '\n' then s.dropLast else s

/-- Every carriage return, alone or before a line feed, becomes one line feed. -/
def normalizeNewlines : List Char → List Char
  | [] => []
  | '\r' :: '\n' :: cs => '\n' :: normalizeNewlines cs
  | c :: cs => (if c == '\r' then '\n' else c) :: normalizeNewlines cs

end LuaAmbient.Text
