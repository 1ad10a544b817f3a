/-
White space and its removal from the ends of a text.

Annotation lines are trimmed at every stage of reading, always with respect to the full Unicode
class of white space together with the four information separators.  Numbers in settings and
arguments are trimmed without the separators.  Zero-width characters are not white space.

Main definitions:

* `LuaAmbient.Text.isSpace` — the white space of Unicode;
* `LuaAmbient.Text.isBlank` — white space and the information separators;
* `LuaAmbient.Text.stripLeft`, `LuaAmbient.Text.stripRight`, `LuaAmbient.Text.strip` — a text
  without the blanks at its ends;
* `LuaAmbient.Text.trim` — a text without the white space at its ends;
* `LuaAmbient.Text.dropEndWhile` — a list without its longest tail in a class.
-/

set_option autoImplicit false

namespace LuaAmbient.Text

/-- White space: the ASCII blanks, the next-line and no-break characters, and the spaces and line
separators of Unicode. -/
def isSpace (c : Char) : Bool :=
  let n := c.toNat
  (0x09 ≤ n && n ≤ 0x0d) || n == 0x20 || n == 0x85 || n == 0xa0 || n == 0x1680 ||
    (0x2000 ≤ n && n ≤ 0x200a) || n == 0x2028 || n == 0x2029 || n == 0x202f || n == 0x205f ||
    n == 0x3000

/-- The four information separators of ASCII. -/
def isSeparator (c : Char) : Bool :=
  0x1c ≤ c.toNat && c.toNat ≤ 0x1f

/-- White space or an information separator. -/
def isBlank (c : Char) : Bool :=
  isSpace c || isSeparator c

/-- The list without its longest tail whose members all satisfy `p`. -/
def dropEndWhile {α : Type} (p : α → Bool) (l : List α) : List α :=
  (l.reverse.dropWhile p).reverse

/-- The text between its first and its last character that are not white space. -/
def trim (s : List Char) : List Char :=
  dropEndWhile isSpace (s.dropWhile isSpace)

/-- The text from its first character that is not blank. -/
def stripLeft (s : List Char) : List Char :=
  s.dropWhile isBlank

/-- The text up to its last character that is not blank. -/
def stripRight (s : List Char) : List Char :=
  dropEndWhile isBlank s

/-- The text between its first and its last character that are not blank. -/
def strip (s : List Char) : List Char :=
  stripRight (stripLeft s)

/-- The string between its first and its last character that are not blank. -/
def stripString (s : String) : String :=
  String.ofList (strip s.toList)

end LuaAmbient.Text
