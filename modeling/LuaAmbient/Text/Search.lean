/-
Looking for fixed texts inside other texts.

Main definitions:

* `LuaAmbient.Text.endsWith` — whether a text ends in another;
* `LuaAmbient.Text.splitOn` — the pieces of a text between the occurrences of a character;
* `LuaAmbient.Text.splitLast?` — a text cut at the last occurrence of a class of characters;
* `LuaAmbient.Text.replaceAll` — a text with every occurrence of another replaced, from the left
  and without overlaps;
* `LuaAmbient.Text.joinWith` — texts put together with a separator between them.
-/

import LuaAmbient.Text.Line

set_option autoImplicit false

namespace LuaAmbient.Text

/-- Whether the text ends in `tail`. -/
def endsWith (s tail : List Char) : Bool :=
  tail.isSuffixOf s

/-- The text without its last `n` characters. -/
def dropEnd (s : List Char) (n : Nat) : List Char :=
  s.take (s.length - n)

/-- The text without `tail` at its end, if it ends in it. -/
def dropSuffix (s tail : List Char) : List Char :=
  if endsWith s tail then dropEnd s tail.length else s

/-- The pieces between the occurrences of `sep`; always at least one. -/
def splitOn (sep : Char) : List Char → List (List Char)
  | [] => [[]]
  | c :: cs => if c == sep then [] :: splitOn sep cs else consFirst c (splitOn sep cs)

/-- The pieces of a string between the occurrences of `sep`. -/
def splitString (sep : Char) (s : String) : List String :=
  (splitOn sep s.toList).map String.ofList

/-- The parts before and after the first character in the class, which is dropped. -/
def splitFirst? (p : Char → Bool) (s : List Char) : Option (List Char × List Char) :=
  match s.dropWhile (fun c => !p c) with
  | [] => none
  | _ :: rest => some (s.takeWhile (fun c => !p c), rest)

/-- The parts before and after the last character in the class, which is dropped. -/
def splitLast? (p : Char → Bool) (s : List Char) : Option (List Char × List Char) :=
  (splitFirst? p s.reverse).map fun r => (r.2.reverse, r.1.reverse)

/-- Replaces occurrences from the left; `skip` characters still belong to the last one found. -/
def replaceFrom (find replacement : List Char) : Nat → List Char → List Char
  | _, [] => []
  | skip + 1, _ :: cs => replaceFrom find replacement skip cs
  | 0, c :: cs =>
    if find.isPrefixOf (c :: cs) then
      replacement ++ replaceFrom find replacement (find.length - 1) cs
    else
      c :: replaceFrom find replacement 0 cs

/-- The text with every occurrence of `find` replaced.  An empty `find` occurs before every
character and at the end. -/
def replaceAll (find replacement s : List Char) : List Char :=
  if find.isEmpty then s.flatMap (fun c => replacement ++ [c]) ++ replacement
  else replaceFrom find replacement 0 s

/-- The string with every occurrence of `find` replaced. -/
def replaceString (find replacement s : String) : String :=
  String.ofList (replaceAll find.toList replacement.toList s.toList)

/-- Whether `part` occurs in the text. -/
def contains (part : List Char) : List Char → Bool
  | [] => part.isEmpty
  | c :: cs => part.isPrefixOf (c :: cs) || contains part cs

/-- The strings put together with `sep` between neighbours. -/
def joinWith (sep : String) : List String → String
  | [] => ""
  | [s] => s
  | s :: rest => s ++ sep ++ joinWith sep rest

end LuaAmbient.Text
