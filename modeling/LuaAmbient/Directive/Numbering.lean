/-
Directives of lines with given numbers.

The numbers of lines may be given beside them.  A line that is read needs one; the lines behind the
last number can only be variants that an alias passes over.

Main definitions:

* `LuaAmbient.Directive.NumberingFault` — why such lines give no directives;
* `LuaAmbient.Directive.parseNumbered` — **the directives of lines with given numbers**.
-/

import LuaAmbient.Directive.Parser

set_option autoImplicit false

namespace LuaAmbient.Directive

/-- Why lines with given numbers give no directives. -/
inductive NumberingFault where
  /-- A line that is read has no number. -/
  | unnumbered
  | problem (problem : Problem)
deriving Repr, DecidableEq, Inhabited

/-- Whether a line is an alias. -/
def Line.isAlias (l : Line) : Bool :=
  (l.tagged?.map (·.1)) == some "alias"

/-- Reads an alias some of whose variants have no number.  Those that have one are read first. -/
def readCutAlias (l : Line) (numbered : List Line) : NumberingFault :=
  match numbered.filter Line.isDescribed with
  | [] => .unnumbered
  | described =>
    match readLine l described with
    | .ok _ => .unnumbered
    | .error p => .problem p

/-- The directives of lines of which the first `numbered` ones have numbers.  An alias with variants
takes them all. -/
def readNumbered (numbered : Nat) (lines : List Line) :
    Except NumberingFault (List Directive) :=
  match lines with
  | [] => .ok []
  | l :: ls => do
    if numbered == 0 then throw .unnumbered
    let variants := ls.takeWhile Line.isVariant
    if l.isAlias && (variants.drop (numbered - 1)).any Line.isDescribed then
      throw (readCutAlias l (variants.take (numbered - 1)))
    let taken := if l.isAlias && variants.any Line.isDescribed then variants.length else 0
    let d ← (readLine l variants).mapError .problem
    let ds ← readNumbered (numbered - 1 - taken) (ls.drop taken)
    return d.toList ++ ds
termination_by lines.length

/-- The directives of lines with given numbers; numbers behind the last line do not count. -/
def parseNumbered (numbers : List Int) (texts : List String) :
    Except NumberingFault (List Directive) :=
  readNumbered numbers.length
    (texts.zipIdx.map fun p => Line.ofString (numbers[p.2]?.getD 0) p.1)

end LuaAmbient.Directive
