/-
Words and identifiers.

A word character is a letter, a digit or an underscore of any script; an identifier starts with a
letter or an underscore and goes on with letters, digits, marks and connectors.  The ASCII part of
each class is decided by comparison and the rest by a table.

Main definitions:

* `LuaAmbient.Text.isWord` — the class of word characters;
* `LuaAmbient.Text.isIdentifier` — the texts that are one identifier;
* `LuaAmbient.Text.isNameStart`, `LuaAmbient.Text.isNamePart` — the characters of a parameter
  name, which may also hold dollar signs.
-/

import LuaAmbient.Text.Alphanumeric
import LuaAmbient.Text.IdentifierContinue
import LuaAmbient.Text.IdentifierStart

set_option autoImplicit false

namespace LuaAmbient.Text

/-- Whether a code point lies in one of the closed ranges. -/
def inRanges (ranges : Array (Nat × Nat)) (n : Nat) : Bool :=
  ranges.any fun r => r.1 ≤ n && n ≤ r.2

/-- A letter, digit or numeral of any script, or an underscore. -/
def isWord (c : Char) : Bool :=
  if c.toNat < 0x80 then c.isAlphanum || c == '_' else inRanges alphanumericRanges c.toNat

/-- A character that may start an identifier. -/
def isIdentifierStart (c : Char) : Bool :=
  if c.toNat < 0x80 then c.isAlpha || c == '_' else inRanges identifierStartRanges c.toNat

/-- A character that may stand inside an identifier. -/
def isIdentifierContinue (c : Char) : Bool :=
  if c.toNat < 0x80 then c.isAlphanum || c == '_' else inRanges identifierContinueRanges c.toNat

/-- A text that is one identifier. -/
def isIdentifier : List Char → Bool
  | [] => false
  | c :: cs => isIdentifierStart c && cs.all isIdentifierContinue

/-- The first character of a parameter name: an ASCII letter, an underscore or a dollar sign. -/
def isNameStart (c : Char) : Bool :=
  c.isAlpha || c == '_' || c == '$'

/-- A later character of a parameter name: a word character or a dollar sign. -/
def isNamePart (c : Char) : Bool :=
  isWord c || c == '$'

/-- A character of a dotted name: a word character, a dollar sign or a dot. -/
def isDottedPart (c : Char) : Bool :=
  isWord c || c == '$' || c == '.'

end LuaAmbient.Text
