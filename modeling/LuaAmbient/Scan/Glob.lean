/-
Patterns with wildcards.

A pattern is a sequence of pieces, each of which takes a part of the text away.  In the patterns of
this module a star stands for any characters, slashes included, a question mark for one character,
and brackets for one character of a class.

Main definitions:

* `LuaAmbient.Glob.Piece`, `LuaAmbient.Glob.Piece.rests` — pieces, and what they may leave of a
  text;
* `LuaAmbient.Glob.restsOf`, `LuaAmbient.Glob.matchPieces` — what several pieces may leave, and
  whether that can be a rest that is accepted;
* `LuaAmbient.Glob.splitClass?` — the text of a class between brackets;
* `LuaAmbient.Glob.signsOf`, `LuaAmbient.Glob.inClass` — the signs of that text, and whether a
  character is in the class;
* `LuaAmbient.Glob.isMatch` — **whether a text matches a pattern**.
-/

set_option autoImplicit false

namespace LuaAmbient.Glob

/-! ### Pieces -/

/-- A part of a pattern. -/
inductive Piece where
  /-- One character that passes a test. -/
  | one (test : Char → Bool)
  /-- Any number of characters that pass a test. -/
  | many (test : Char → Bool)
  /-- Nothing, or characters up to a slash. -/
  | deep

/-- The texts that are left behind any number of characters that pass a test. -/
def restsAfter (test : Char → Bool) : List Char → List (List Char)
  | [] => [[]]
  | c :: cs => (c :: cs) :: if test c then restsAfter test cs else []

/-- The text behind a slash at its start. -/
def afterSlash? : List Char → Option (List Char)
  | '/' :: rest => some rest
  | _ => none

/-- What a piece may leave of a text. -/
def Piece.rests : Piece → List Char → List (List Char)
  | .one test, c :: cs => if test c then [cs] else []
  | .one _, [] => []
  | .many test, s => restsAfter test s
  | .deep, s => s :: (restsAfter (· != '\n') s).filterMap afterSlash?

/-- What pieces, one after the other, may leave of some texts.  Every rest is followed only once. -/
def restsOf : List Piece → List (List Char) → List (List Char)
  | [], texts => texts
  | p :: ps, texts => restsOf ps (texts.flatMap p.rests).eraseDups

/-- Whether pieces can take one of some texts away up to a rest that is accepted. -/
def matchPieces (accepted : List Char → Bool) (pieces : List Piece) (texts : List (List Char)) :
    Bool :=
  (restsOf pieces texts).any accepted

/-- The piece for a character that stands for itself. -/
def literal (c : Char) : Piece :=
  .one (· == c)

/-! ### Classes -/

/-- The text of a class behind its opening bracket, and what follows its closing bracket.  A
bracket at the start, or behind an exclamation mark at the start, does not close the class. -/
def splitClass? (s : List Char) : Option (List Char × List Char) :=
  let (bang, s) := match s with
    | '!' :: rest => (['!'], rest)
    | _ => ([], s)
  let (bracket, s) := match s with
    | ']' :: rest => ([']'], rest)
    | _ => ([], s)
  match s.dropWhile (· != ']') with
  | ']' :: rest => some (bang ++ bracket ++ s.takeWhile (· != ']'), rest)
  | _ => none

/-- The text before and behind the first hyphen that has at least so many characters before it. -/
def cutAtHyphen? (least : Nat) (s : List Char) : Option (List Char × List Char) :=
  match (s.drop least).dropWhile (· != '-') with
  | '-' :: rest => some (s.take least ++ (s.drop least).takeWhile (· != '-'), rest)
  | _ => none

/-- Cuts the text of a class at the hyphens that make ranges.  A hyphen at the end makes none. -/
def cutRanges : Nat → Nat → List Char → List (List Char)
  | 0, _, s => [s]
  | bound + 1, least, s =>
    match cutAtHyphen? least s with
    | none => [s]
    | some (chunk, []) => [chunk ++ ['-']]
    | some (chunk, rest) => chunk :: cutRanges bound 2 rest

/-- Drops the ranges that end before they start, with both their ends. -/
def dropEmptyRanges : List (List Char) → List (List Char)
  | [] => []
  | chunk :: rest =>
    match dropEmptyRanges rest with
    | [] => [chunk]
    | next :: others =>
      match chunk.getLast?, next.head? with
      | some low, some high =>
        if high < low then (chunk.dropLast ++ next.tail) :: others else chunk :: next :: others
      | _, _ => chunk :: next :: others

/-- A sign of a class: a character that stands for itself, or the hyphen of a range. -/
inductive ClassSign where
  | char (char : Char)
  | hyphen
deriving Repr, DecidableEq, Inhabited

/-- The signs of a class, of which the chunks are joined by the hyphens of ranges. -/
def signsOf : List (List Char) → List ClassSign
  | [] => []
  | [chunk] => chunk.map .char
  | chunk :: rest => chunk.map .char ++ .hyphen :: signsOf rest

/-- Whether a character is among those of signs that are read from the left.  A hyphen without a
character in front of it stands for itself. -/
def inSigns (c : Char) : List ClassSign → Bool
  | .char low :: .hyphen :: .char high :: rest => (low ≤ c && c ≤ high) || inSigns c rest
  | .char a :: rest => c == a || inSigns c rest
  | .hyphen :: rest => c == '-' || inSigns c rest
  | [] => false

/-- Whether a character is in a class.  An exclamation mark at the start makes it the others that
are. -/
def inClass (text : List Char) (c : Char) : Bool :=
  let least := if text.head? == some '!' then 2 else 1
  match signsOf (dropEmptyRanges (cutRanges text.length least text)) with
  | .char '!' :: rest => !inSigns c rest
  | signs => inSigns c signs

/-! ### Patterns -/

/-- The pieces of a pattern.  A bracket that is never closed stands for itself. -/
def pieces : Nat → List Char → List Piece
  | 0, _ => []
  | bound + 1, s =>
    match s with
    | [] => []
    | '*' :: rest => .many (fun _ => true) :: pieces bound (rest.dropWhile (· == '*'))
    | '?' :: rest => .one (fun _ => true) :: pieces bound rest
    | '[' :: rest =>
      match splitClass? rest with
      | some (text, rest) => .one (inClass text) :: pieces bound rest
      | none => literal '[' :: pieces bound rest
    | c :: rest => literal c :: pieces bound rest

/-- Whether a text matches a pattern. -/
def isMatch (pattern text : String) : Bool :=
  matchPieces List.isEmpty (pieces pattern.toList.length pattern.toList) [text.toList]

end LuaAmbient.Glob
