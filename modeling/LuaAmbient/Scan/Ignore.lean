/-
Ignore files.

Every line of an ignore file is a rule for paths below the directory of the file.  A star stands for
any characters but slashes, two stars between slashes for any directories, a question mark for one
character, and brackets for one character of a class.

Main definitions:

* `LuaAmbient.IgnoreRule` — a rule;
* `LuaAmbient.IgnoreRule.Symbol`, `LuaAmbient.IgnoreRule.symbols` — the signs of a line;
* `LuaAmbient.IgnoreRule.ofLine` — the rule that a line is;
* `LuaAmbient.IgnoreRule.isMatch` — whether a rule is about a path;
* `LuaAmbient.IgnoreRule.ignores` — whether rules ignore a path;
* `LuaAmbient.IgnoreRule.readTest` — **the test that an ignore file makes**.

A line that leaves no pattern, or has a class without members, stops the reading of the file.  A
class whose range ends before it starts only stops the rule from being applied.
-/

import LuaAmbient.FileTree.Content
import LuaAmbient.Scan.Glob
import LuaAmbient.Text.Blank
import LuaAmbient.Text.Search

set_option autoImplicit false

namespace LuaAmbient

open LuaAmbient.Glob

/-- A rule of an ignore file. -/
structure IgnoreRule where
  /-- Whether the paths that match are kept. -/
  negated : Bool
  /-- Whether only directories match. -/
  directoryOnly : Bool
  /-- Whether a match starts at the start of the path. -/
  anchored : Bool
  /-- What the pattern consists of; nothing if one of its classes makes no sense. -/
  pieces : Option (List Piece)

namespace IgnoreRule

/-! ### Normal forms of lines -/

/-- Makes one star of several behind a character that is no slash. -/
def mergeStarsBehind : Nat → List Char → List Char
  | 0, s => s
  | bound + 1, s =>
    match s with
    | [] => []
    | c :: rest =>
      match c, rest with
      | '/', rest => '/' :: mergeStarsBehind bound rest
      | c, '*' :: '*' :: rest => c :: '*' :: mergeStarsBehind bound (rest.dropWhile (· == '*'))
      | c, rest => c :: mergeStarsBehind bound rest

/-- Makes one star of several before a character that is no slash, and two of more than two
elsewhere. -/
def mergeStarsBefore : Nat → List Char → List Char
  | 0, s => s
  | bound + 1, s =>
    match s with
    | [] => []
    | '*' :: '*' :: rest =>
      match rest.dropWhile (· == '*') with
      | [] => ['*', '*']
      | '/' :: rest => '*' :: '*' :: mergeStarsBefore bound ('/' :: rest)
      | c :: rest => '*' :: c :: mergeStarsBefore bound rest
    | c :: rest => c :: mergeStarsBefore bound rest

/-- Drops a slash at the start. -/
def dropSlash : List Char → List Char
  | '/' :: rest => rest
  | s => s

/-- Drops a backslash at the start that makes a hash or an exclamation mark a plain character. -/
def dropEscape : List Char → List Char
  | '\\' :: '#' :: rest => '#' :: rest
  | '\\' :: '!' :: rest => '!' :: rest
  | s => s

/-- Drops blanks at the end up to one behind a backslash, and the backslash of each that has one.
The line is given from its end, and its first two characters stay. -/
def dropBlanks : Nat → Bool → List Char → List Char
  | 0, _, s => s
  | bound + 1, dropping, s =>
    match s with
    | ' ' :: '\\' :: rest =>
      if 1 ≤ rest.length then ' ' :: dropBlanks bound false rest else s
    | ' ' :: rest =>
      if rest.length < 2 then s
      else if dropping then dropBlanks bound true rest
      else ' ' :: dropBlanks bound false rest
    | _ => s

/-- The line without blanks at its end. -/
def dropEndBlanks (s : List Char) : List Char :=
  (dropBlanks s.length true s.reverse).reverse

/-! ### Signs -/

/-- A sign of a line. -/
inductive Symbol where
  /-- Two stars and a slash. -/
  | directories
  /-- Two stars. -/
  | doubleStar
  | star
  | question
  /-- The text between two brackets. -/
  | brackets (text : List Char)
  | plain (char : Char)
deriving Repr, DecidableEq, Inhabited

/-- The signs of a line.  A bracket that is never closed is a plain character.  Each sign takes one
step of the bound. -/
def symbolsWithin : Nat → List Char → List Symbol
  | 0, _ => []
  | bound + 1, s =>
    match s with
    | [] => []
    | '*' :: '*' :: '/' :: rest => .directories :: symbolsWithin bound rest
    | '*' :: '*' :: rest => .doubleStar :: symbolsWithin bound rest
    | '*' :: rest => .star :: symbolsWithin bound rest
    | '?' :: rest => .question :: symbolsWithin bound rest
    | '[' :: rest =>
      match splitClass? rest with
      | some (text, rest) => .brackets (text.filter (· != '/')) :: symbolsWithin bound rest
      | none => .plain '[' :: symbolsWithin bound rest
    | c :: rest => .plain c :: symbolsWithin bound rest

/-- The signs of a line.  Slashes between brackets do not count. -/
def symbols (s : List Char) : List Symbol :=
  symbolsWithin s.length s

/-- The ranges of a class; a single character is a range of its own. -/
def classRanges : List Char → List (Char × Char)
  | a :: '-' :: b :: rest => (a, b) :: classRanges rest
  | a :: rest => (a, a) :: classRanges rest
  | [] => []

/-- The test of a class, unless one of its ranges ends before it starts. -/
def classTest? (excluded : Bool) (ranges : List (Char × Char)) : Option (Char → Bool) :=
  if ranges.any fun r => r.2 < r.1 then none
  else some fun c => (ranges.any fun r => r.1 ≤ c && c ≤ r.2) != excluded

/-- What a sign takes away of a path. -/
def Symbol.piece? : Symbol → Option Piece
  | .directories => some .deep
  | .doubleStar => some (.many (· != '\n'))
  | .star => some (.many (· != '/'))
  | .question => some (.one (· != '/'))
  | .brackets ('!' :: text) => (classTest? true (classRanges text)).map .one
  | .brackets text => (classTest? false (classRanges text)).map .one
  | .plain c => some (literal c)

/-- The text of the class that a sign stands for, with a caret before the characters that are
excluded. -/
def Symbol.classText? : Symbol → Option (List Char)
  | .star => some ['^', '/']
  | .question => some ['^', '/']
  | .brackets ('!' :: text) => some ('^' :: text)
  | .brackets text => some text
  | .plain '/' => some ['/']
  | _ => none

/-- What signs take away of a path.  A class that excludes nothing has no end of its own: it
excludes its closing bracket and all that follows, up to the end of the next class, and a star that
ends it repeats it.  The ranges that it excludes so far are given while it is open. -/
def piecesFrom : Option (List (Char × Char)) → List Symbol → Option (List Piece)
  | none, [] => some []
  | some _, [] => none
  | none, .brackets ['!'] :: rest => piecesFrom (some [(']', ']')]) rest
  | none, sign :: rest => do return (← sign.piece?) :: (← piecesFrom none rest)
  | some _, .directories :: _ => none
  | some ranges, .doubleStar :: rest => piecesFrom (some (ranges ++ [('.', '.'), ('*', '*')])) rest
  | some ranges, sign :: rest =>
    match sign.classText?, sign with
    | some text, _ => do
      let test ← classTest? true (ranges ++ classRanges ('[' :: text))
      return (if sign == .star then .many test else .one test) :: (← piecesFrom none rest)
    | none, .plain c => piecesFrom (some (ranges ++ [(c, c)])) rest
    | none, _ => none

/-- What the signs of a line take away of a path, unless one of the classes makes no sense. -/
def pieces? (signs : List Symbol) : Option (List Piece) :=
  piecesFrom none signs

/-! ### Rules -/

/-- The rule that the text of a line is when it is not negated. -/
def ofPattern (negated : Bool) (line : List Char) : Except Breakdown (Option IgnoreRule) :=
  let s := mergeStarsBehind line.length line
  let s := mergeStarsBefore s.length s
  if Text.stripRight s == ['/'] then .ok none
  else
    let directoryOnly := s.getLast? == some '/'
    let anchored := s.dropLast.contains '/'
    let s := dropSlash s
    let (s, anchored) := match s with
      | '*' :: '*' :: rest => (rest, false)
      | s => (s, anchored)
    let s := dropSlash s
    let s := if s.getLast? == some '/' then s.dropLast else s
    let signs := symbols (dropEndBlanks (dropEscape s))
    if s.isEmpty || s == ['\\'] || signs.contains (.brackets []) then .error .emptyPattern
    else .ok (some ⟨negated, directoryOnly, anchored, pieces? signs⟩)

/-- The rule that a line is.  Blank lines and lines that start with a hash are none. -/
def ofLine (line : List Char) : Except Breakdown (Option IgnoreRule) :=
  if (Text.strip line).isEmpty then .ok none
  else
    match line with
    | '#' :: _ => .ok none
    | '!' :: rest => ofPattern true rest
    | _ => ofPattern false line

/-- The rules of an ignore file. -/
def ofText (text : String) : Except Breakdown (List IgnoreRule) := do
  return (← (Text.splitOn '\n' text.toList).mapM ofLine).filterMap id

/-- Whether the end of a path is accepted behind a match. -/
def acceptsEnd (rule : IgnoreRule) (rest : List Char) : Bool :=
  let atEnd := rest.isEmpty || rest == ['\n']
  if !rule.directoryOnly then atEnd
  else if rule.negated then rest == ['/'] || rest == ['/', '\n']
  else atEnd || rest.head? == some '/'

/-- Where a match may start: at the start, or behind any slash. -/
def starts (anchored : Bool) (s : List Char) : List (List Char) :=
  if anchored then [s] else s :: (restsAfter (fun _ => true) s).filterMap afterSlash?

/-- Whether a rule is about a path. -/
def isMatch (rule : IgnoreRule) (path : String) : Except Breakdown Bool :=
  match rule.pieces with
  | some pieces => .ok (matchPieces rule.acceptsEnd pieces (starts rule.anchored path.toList))
  | none => .error .badClass

/-- The first rule that is about a path. -/
def firstMatch (path : String) : List IgnoreRule → Except Breakdown (Option IgnoreRule)
  | [] => .ok none
  | rule :: rules => do if ← rule.isMatch path then return some rule else firstMatch path rules

/-- Whether rules ignore a path: the last rule that is about it decides.  Without a negated rule it
does not matter which one is found, and they are tried in their order. -/
def ignores (rules : List IgnoreRule) (path : String) : Except Breakdown Bool := do
  match ← firstMatch path (if rules.any (·.negated) then rules.reverse else rules) with
  | some rule => return !rule.negated
  | none => return false

/-- The test that an ignore file makes. -/
def readTest (content : Content) : Except Breakdown (String → Except Breakdown Bool) := do
  return ignores (← ofText (← content.readLines))

end IgnoreRule

end LuaAmbient
