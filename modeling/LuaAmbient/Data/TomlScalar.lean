/-
Strings, numbers and dates of settings files.

Main definitions:

* `LuaAmbient.Toml.basicString`, `LuaAmbient.Toml.literalString`, `LuaAmbient.Toml.multilineString`
  — the kinds of strings;
* `LuaAmbient.Toml.date`, `LuaAmbient.Toml.time` — dates and times;
* `LuaAmbient.Toml.number` — integers and reals;
* `LuaAmbient.Toml.scalar` — a value that is neither a list nor a table;
* `LuaAmbient.Toml.Fault` — why a text cannot be read.

Every reader takes the text from where the value starts and gives the value and the rest.
-/

import LuaAmbient.Data.JsonReader

set_option autoImplicit false

namespace LuaAmbient.Toml

/-- Why a text cannot be read. -/
inductive Fault where
  | malformed
  /-- An integer has too many digits. -/
  | oversizedInteger (digits : Nat)
deriving Repr, DecidableEq, Inhabited

/-- What a reader of parts does not find makes the whole malformed. -/
instance : MonadLift Option (Except Fault) where
  monadLift part := part.elim (.error .malformed) .ok

/-- A reader of parts: the part at the start of a text, and the rest. -/
abbrev Reader (α : Type) := List Char → Option (α × List Char)

/-- A reader of values: the value at the start of a text, and the rest. -/
abbrev ValueReader (α : Type) := List Char → Except Fault (α × List Char)

/-- A blank within a line. -/
def isInlineBlank (c : Char) : Bool :=
  c == ' ' || c == '\t'

/-- A control character other than a tab, which stands in no comment and in no string of one line.
-/
def isControl (c : Char) : Bool :=
  (c.toNat < 0x20 && c != '\t') || c.toNat == 0x7f

/-- A control character other than a tab and a line feed. -/
def isMultilineControl (c : Char) : Bool :=
  isControl c && c != '\n'

/-- The text from its first character that is no blank of a line. -/
def skipInlineBlanks (s : List Char) : List Char :=
  s.dropWhile isInlineBlank

/-! ### Strings -/

/-- The character of a code point that is a scalar value. -/
def scalarValue? (n : Nat) : Option Char :=
  if n < 0xd800 || (0xe000 ≤ n && n < 0x110000) then some (Char.ofNat n) else none

/-- The character of an escape by a code point of the given number of digits. -/
def hexEscape (digits : Nat) : Reader Char := fun s => do
  if s.length < digits then none
  let c ← (Json.hexNumber? (s.take digits)).bind scalarValue?
  return (c, s.drop digits)

/-- The character of an escape of one letter. -/
def shortEscape? (c : Char) : Option Char :=
  match c with
  | 'b' => some (Char.ofNat 0x08)
  | 't' => some '\t'
  | 'n' => some '\n'
  | 'f' => some (Char.ofNat 0x0c)
  | 'r' => some '\r'
  | '"' => some '"'
  | '\\' => some '\\'
  | _ => none

/-- The text behind a backslash, blanks, a line break and all blank lines after it. -/
def foldLines (s : List Char) : Option (List Char) :=
  match skipInlineBlanks s with
  | [] => some []
  | '\n' :: rest => some (rest.dropWhile fun c => isInlineBlank c || c == '\n')
  | _ => none

/-- What an escape stands for, its backslash having been read: a character, or nothing for a folded
line break in a string of several lines. -/
def escape (multiline : Bool) : Reader (List Char) := fun s =>
  match s with
  | 'u' :: rest => (hexEscape 4 rest).map fun r => ([r.1], r.2)
  | 'U' :: rest => (hexEscape 8 rest).map fun r => ([r.1], r.2)
  | c :: rest =>
    if multiline && (isInlineBlank c || c == '\n') then (foldLines s).map fun r => ([], r)
    else (shortEscape? c).map fun d => ([d], rest)
  | [] => none

/-- The characters of a string with escapes up to its closing quotes.  Each character takes one step
of the bound. -/
def basicBody (multiline : Bool) : Nat → Reader (List Char)
  | 0, _ => none
  | _, [] => none
  | bound + 1, '\\' :: rest => do
    let (first, rest) ← escape multiline rest
    let (others, rest) ← basicBody multiline bound rest
    return (first ++ others, rest)
  | bound + 1, '"' :: rest =>
    if !multiline then some ([], rest)
    else
      match rest with
      | '"' :: '"' :: behind => some ([], behind)
      | _ => (basicBody multiline bound rest).map fun r => ('"' :: r.1, r.2)
  | bound + 1, c :: rest =>
    if (if multiline then isMultilineControl c else isControl c) then none
    else (basicBody multiline bound rest).map fun r => (c :: r.1, r.2)

/-- A string of one line with escapes, its opening quote having been read. -/
def basicString : Reader (List Char) := fun s =>
  basicBody false (s.length + 1) s

/-- A string of one line without escapes, its opening quote having been read. -/
def literalString : Reader (List Char) := fun s =>
  let inside := s.takeWhile (· != '\'')
  match s.dropWhile (· != '\'') with
  | _ :: rest => if inside.any isControl then none else some (inside, rest)
  | [] => none

/-- The characters of a string of several lines without escapes up to its closing quotes. -/
def literalBody : Reader (List Char)
  | [] => none
  | '\'' :: '\'' :: '\'' :: rest => some ([], rest)
  | c :: rest =>
    if isMultilineControl c then none else (literalBody rest).map fun r => (c :: r.1, r.2)

/-- Up to two further quotes behind the closing quotes belong to a string of several lines. -/
def closingQuotes (quote : Char) (s : List Char) : List Char × List Char :=
  match s with
  | a :: b :: rest =>
    if a == quote then if b == quote then ([a, b], rest) else ([a], b :: rest) else ([], s)
  | [a] => if a == quote then ([a], []) else ([], s)
  | [] => ([], [])

/-- A string of several lines, its opening quotes having been read.  A line break behind them is
dropped. -/
def multilineString (quote : Char) : Reader (List Char) := fun s => do
  let s := match s with
    | '\n' :: rest => rest
    | _ => s
  let (body, rest) ← if quote == '"' then basicBody true (s.length + 1) s else literalBody s
  let (quotes, rest) := closingQuotes quote rest
  return (body ++ quotes, rest)

/-- A string of any kind. -/
def string : Reader (List Char) := fun s =>
  match s with
  | '"' :: '"' :: '"' :: rest => multilineString '"' rest
  | '\'' :: '\'' :: '\'' :: rest => multilineString '\'' rest
  | '"' :: rest => basicString rest
  | '\'' :: rest => literalString rest
  | _ => none

/-! ### Dates and times -/

/-- A number of two digits within bounds. -/
def twoDigits (low high : Nat) : Reader Nat := fun s =>
  match s with
  | a :: b :: rest =>
    let n := Json.digitsValue [a, b]
    if a.isDigit && b.isDigit && low ≤ n && n ≤ high then some (n, rest) else none
  | _ => none

/-- A fixed character. -/
def mark (c : Char) : Reader Unit := fun s =>
  match s with
  | d :: rest => if d == c then some ((), rest) else none
  | [] => none

/-- A point and digits, if they are there. -/
def secondsFraction (s : List Char) : List Char :=
  match s with
  | '.' :: c :: rest => if c.isDigit then rest.dropWhile Char.isDigit else s
  | _ => s

/-- The text behind a time of day. -/
def time (s : List Char) : Option (List Char) := do
  let (_, s) ← twoDigits 0 23 s
  let (_, s) ← mark ':' s
  let (_, s) ← twoDigits 0 59 s
  let (_, s) ← mark ':' s
  let (_, s) ← twoDigits 0 59 s
  return secondsFraction s

/-- The text behind an offset from universal time. -/
def offset (s : List Char) : Option (List Char) := do
  match s with
  | c :: rest =>
    if c == 'Z' || c == 'z' then return rest
    else if c == '+' || c == '-' then
      let (_, s) ← twoDigits 0 23 rest
      let (_, s) ← mark ':' s
      let (_, s) ← twoDigits 0 59 s
      return s
    else none
  | [] => none

/-- The number of days of a month. -/
def daysIn (year month : Nat) : Nat :=
  if month == 2 then
    if (year % 4 == 0 && year % 100 != 0) || year % 400 == 0 then 29 else 28
  else if month == 4 || month == 6 || month == 9 || month == 11 then 30
  else 31

/-- A date at the start of a text: whether it is in the calendar, and the rest. -/
def day : Reader Bool := fun s => do
  let year := s.take 4
  if year.length < 4 || !year.all Char.isDigit then none
  let (_, s) ← mark '-' (s.drop 4)
  let (month, s) ← twoDigits 1 12 s
  let (_, s) ← mark '-' s
  let (d, s) ← twoDigits 1 31 s
  let y := Json.digitsValue year
  return (1 ≤ y && d ≤ daysIn y month, s)

/-- The text behind the time of day that may follow a date, and behind its offset. -/
def afterDay (s : List Char) : List Char :=
  match s with
  | c :: rest =>
    if c == 'T' || c == 't' || c == ' ' then
      match time rest with
      | some behind => (offset behind).getD behind
      | none => s
    else s
  | [] => s

/-- A date with or without a time: whether it is in the calendar, and the rest. -/
def date : Reader Bool := fun s =>
  (day s).map fun r => (r.1, afterDay r.2)

/-! ### Numbers -/

/-- Digits of a class, single underscores between them; the digits without underscores. -/
def moreDigits (p : Char → Bool) : List Char → List Char × List Char
  | [] => ([], [])
  | c :: rest =>
    if p c then
      let r := moreDigits p rest
      (c :: r.1, r.2)
    else
      match c, rest with
      | '_', d :: behind =>
        if p d then
          let r := moreDigits p behind
          (d :: r.1, r.2)
        else ([], c :: rest)
      | _, _ => ([], c :: rest)

/-- At least one digit of a class, single underscores between them. -/
def digits (p : Char → Bool) : Reader (List Char) := fun s =>
  match s with
  | c :: rest =>
    if p c then
      let r := moreDigits p rest
      some (c :: r.1, r.2)
    else none
  | [] => none

/-- The value of digits in a base. -/
def valueIn (base : Nat) (ds : List Char) : Nat :=
  ds.foldl (fun n c => n * base + (Json.hexValue? c).getD 0) 0

/-- An integer with the mark of its base. -/
def basedInteger : Reader Data := fun s =>
  let read (base : Nat) (p : Char → Bool) (rest : List Char) :=
    (digits p rest).map fun r => (Data.int (valueIn base r.1), r.2)
  match s with
  | '0' :: 'x' :: rest => read 16 (fun c => (Json.hexValue? c).isSome) rest
  | '0' :: 'b' :: rest => read 2 (fun c => c == '0' || c == '1') rest
  | '0' :: 'o' :: rest => read 8 (fun c => '0' ≤ c && c ≤ '7') rest
  | _ => none

/-- The sign of a number, if there is one. -/
def sign (s : List Char) : Bool × List Char :=
  match s with
  | '-' :: rest => (true, rest)
  | '+' :: rest => (false, rest)
  | _ => (false, s)

/-- The part of a decimal number before its point: a zero, or digits without a zero in front. -/
def wholePart : Reader (List Char) := fun s =>
  match s with
  | '0' :: rest => some (['0'], rest)
  | _ => digits Char.isDigit s

/-- The digits behind a point. -/
def fractionPart (s : List Char) : List Char × List Char :=
  match s with
  | '.' :: rest => (digits Char.isDigit rest).getD ([], s)
  | _ => ([], s)

/-- The exponent of a number. -/
def exponentPart (s : List Char) : Option Int × List Char :=
  match s with
  | c :: rest =>
    if c == 'e' || c == 'E' then
      let (negative, behind) := sign rest
      match digits Char.isDigit behind with
      | some (ds, behind) =>
        let n : Int := Json.digitsValue ds
        (some (if negative then -n else n), behind)
      | none => (none, s)
    else (none, s)
  | [] => (none, s)

/-- The most digits of an integer. -/
def digitLimit : Nat := 4300

/-- A decimal number: an integer if it has neither a fraction nor an exponent. -/
def decimal : ValueReader Data := fun s => do
  let (negative, s) := sign s
  let (whole, s) ← wholePart s
  let (fraction, s) := fractionPart s
  let (exponent, s) := exponentPart s
  let n : Int := Json.digitsValue (whole ++ fraction)
  let signed := if negative then -n else n
  if !fraction.isEmpty || exponent.isSome then
    return (.real (.decimal signed (exponent.getD 0 - fraction.length)), s)
  else if digitLimit < whole.length then .error (.oversizedInteger whole.length)
  else return (.int signed, s)

/-- An infinite number, or the one that is no number. -/
def special : Reader Data := fun s =>
  let (negative, rest) := sign s
  match rest with
  | 'i' :: 'n' :: 'f' :: behind => some (.real (.infinite negative), behind)
  | 'n' :: 'a' :: 'n' :: behind => some (.real .nan, behind)
  | _ => none

/-- A number. -/
def number : ValueReader Data := fun s =>
  match (basedInteger s).or (special s) with
  | some r => .ok r
  | none => decimal s

/-- A value that is neither a list nor a table.  A date outside of the calendar is refused. -/
def scalar : ValueReader Data := fun s =>
  match s with
  | 't' :: 'r' :: 'u' :: 'e' :: rest => .ok (.bool true, rest)
  | 'f' :: 'a' :: 'l' :: 's' :: 'e' :: rest => .ok (.bool false, rest)
  | '"' :: _ | '\'' :: _ => do
    let (text, rest) ← string s
    return (.string (String.ofList text), rest)
  | _ =>
    let upTo (rest : List Char) := Data.date (String.ofList (s.take (s.length - rest.length)))
    match date s, time s with
    | some (true, rest), _ => .ok (upTo rest, rest)
    | some (false, _), _ => .error .malformed
    | none, some rest => .ok (upTo rest, rest)
    | none, none => number s

end LuaAmbient.Toml
