/-
Bracket depth and cuts at the outermost level.

Type expressions nest angle brackets, braces and parentheses.  Everything that reads them cuts only
at depth zero: unions at bars, tuples and parameter lists at commas, and annotation lines at the
blank that ends the type and starts the description.  Depth counts all three kinds of bracket
alike and may become negative on a text that closes more than it opens; `balanced` is the stricter
notion that pairs brackets by kind.

Main definitions:

* `LuaAmbient.Nesting.depths` — each character with its depth;
* `LuaAmbient.Nesting.balanced` — every bracket is closed by its partner, in order;
* `LuaAmbient.Nesting.pieces`, `LuaAmbient.Nesting.split`, `LuaAmbient.Nesting.partition` — cuts at
  the occurrences of a separator at depth zero;
* `LuaAmbient.Nesting.closingIndex?`, `LuaAmbient.Nesting.enclosesAll` — the partner of a bracket;
* `LuaAmbient.Nesting.splitDescription` — a type expression and the description after it.
-/

import LuaAmbient.Text.Blank
import LuaAmbient.Text.Line

set_option autoImplicit false

namespace LuaAmbient.Nesting

open LuaAmbient.Text

/-! ### Depth -/

/-- The bracket that closes the given one, for the three opening brackets. -/
def closer? (c : Char) : Option Char :=
  if c == '<' then some '>' else if c == '{' then some '}' else if c == '(' then some ')' else none

/-- The three opening brackets. -/
def isOpener (c : Char) : Bool :=
  c == '<' || c == '{' || c == '('

/-- The three closing brackets. -/
def isCloser (c : Char) : Bool :=
  c == '>' || c == '}' || c == ')'

/-- The depth of a character that follows text of depth `d`: a bracket stands at the depth outside
of the pair it belongs to. -/
def depthAt (d : Int) (c : Char) : Int :=
  if isCloser c then d - 1 else d

/-- The depth behind a character that follows text of depth `d`. -/
def depthAfter (d : Int) (c : Char) : Int :=
  if isOpener c then d + 1 else if isCloser c then d - 1 else d

/-- Every character with its depth, the text standing at depth `d`. -/
def depthsFrom (d : Int) : List Char → List (Char × Int)
  | [] => []
  | c :: cs => (c, depthAt d c) :: depthsFrom (depthAfter d c) cs

/-- Every character of the text with its depth. -/
def depths (s : List Char) : List (Char × Int) :=
  depthsFrom 0 s

/-- Whether the text closes the brackets awaited on the stack, and all of its own, in order. -/
def closes : List Char → List Char → Bool
  | awaited, [] => awaited.isEmpty
  | awaited, c :: cs =>
    match closer? c with
    | some k => closes (k :: awaited) cs
    | none =>
      if isCloser c then
        match awaited with
        | [] => false
        | k :: ks => k == c && closes ks cs
      else closes awaited cs

/-- Whether every bracket of the text is closed by its partner, in order. -/
def balanced (s : List Char) : Bool :=
  closes [] s

/-! ### Cuts at depth zero -/

/-- Whether a character that follows text of depth `d` is a separator of the outermost level. -/
def isCut (sep : Char → Bool) (d : Int) (c : Char) : Bool :=
  sep c && depthAt d c == 0

/-- The pieces between the separators at depth zero, the text standing at depth `d`. -/
def piecesFrom (sep : Char → Bool) (d : Int) : List Char → List (List Char)
  | [] => [[]]
  | c :: cs =>
    if isCut sep d c then [] :: piecesFrom sep (depthAfter d c) cs
    else consFirst c (piecesFrom sep (depthAfter d c) cs)

/-- The pieces between the separators at depth zero; always at least one. -/
def pieces (sep : Char → Bool) (s : List Char) : List (List Char) :=
  piecesFrom sep 0 s

/-- The stripped pieces between the separators at depth zero, without the empty ones. -/
def split (sep : Char → Bool) (s : List Char) : List (List Char) :=
  ((pieces sep s).map strip).filter fun p => !p.isEmpty

/-- The parts before and behind the first separator at depth zero. -/
def breakFrom (sep : Char → Bool) (d : Int) : List Char → Option (List Char × List Char)
  | [] => none
  | c :: cs =>
    if isCut sep d c then some ([], cs)
    else (breakFrom sep (depthAfter d c) cs).map fun p => (c :: p.1, p.2)

/-- The stripped parts before and behind the first separator at depth zero; without one, the whole
text and nothing. -/
def partition (sep : Char → Bool) (s : List Char) : List Char × List Char :=
  match breakFrom sep 0 s with
  | some (a, b) => (strip a, strip b)
  | none => (strip s, [])

/-! ### Partners of brackets -/

/-- The position of the first closing bracket at depth `target`, the text standing at depth `d`. -/
def closingFrom (target d : Int) : List Char → Option Nat
  | [] => none
  | c :: cs =>
    if isCloser c && depthAt d c == target then some 0
    else (closingFrom target (depthAfter d c) cs).map (· + 1)

/-- The position of the closing bracket at the same depth as the character at position `i`, behind
it.  Only the depth between the two matters, so the text before `i` is not looked at. -/
def closingIndex? (s : List Char) (i : Nat) : Option Nat :=
  match s.drop i with
  | [] => none
  | c :: cs => (closingFrom (depthAt 0 c) (depthAfter 0 c) cs).map fun k => i + 1 + k

/-- Whether the text is one bracket pair whose opening bracket satisfies `opener`. -/
def enclosesAll (opener : Char → Bool) (s : List Char) : Bool :=
  match s with
  | [] => false
  | c :: _ => opener c && closingIndex? s 0 == some (s.length - 1)

/-! ### Type and description -/

/-- The characters that keep a type expression going across a blank. -/
def isJoiner (c : Char) : Bool :=
  c == ',' || c == '|'

/-- Whether the first character of a text that is not blank satisfies `p`. -/
def leadsWith (p : Char → Bool) (s : List Char) : Bool :=
  match stripLeft s with
  | [] => false
  | c :: _ => p c

/-- Whether a blank between `before`, read from its end, and `rest` keeps the type going: a joiner
stands on either side of it, or a colon before it. -/
def continues (before rest : List Char) : Bool :=
  leadsWith isJoiner before || leadsWith isJoiner rest || leadsWith (· == ':') before

/-- Cuts in front of the first space at depth zero that does not keep the type going.  The text
read so far is given from its end. -/
def cutFrom (before : List Char) (d : Int) : List Char → List Char × List Char
  | [] => ([], [])
  | c :: cs =>
    if c == ' ' && depthAt d c == 0 && !continues before (c :: cs) then ([], c :: cs)
    else
      let r := cutFrom (c :: before) (depthAfter d c) cs
      (c :: r.1, r.2)

/-- Drops one number sign in front of a description. -/
def dropMark (s : List Char) : List Char :=
  match s with
  | '#' :: rest => strip rest
  | _ => s

/-- The type expression at the start of a text and the description behind it. -/
def splitDescription (s : List Char) : List Char × List Char :=
  let r := cutFrom [] 0 (strip s)
  (strip r.1, dropMark (strip r.2))

end LuaAmbient.Nesting
