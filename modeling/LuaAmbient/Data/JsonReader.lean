/-
Reading JSON.

The reader is strict: one value and nothing behind it, no comments, no trailing commas, no control
characters in strings, no lone surrogates, no numbers beyond the range of doubles.  Of two fields
of one name the later value counts, in the place of the earlier one.

Main definitions:

* `LuaAmbient.Json.readValue` — a value at the start of a text, and the rest;
* `LuaAmbient.Json.parse` — **the value that a text is**.
-/

import LuaAmbient.Data.Basic
import LuaAmbient.Keyed

set_option autoImplicit false

namespace LuaAmbient.Json

/-! ### Strings -/

/-- The value of a hexadecimal digit. -/
def hexValue? (c : Char) : Option Nat :=
  if '0' ≤ c && c ≤ '9' then some (c.toNat - 0x30)
  else if 'a' ≤ c && c ≤ 'f' then some (c.toNat - 0x61 + 10)
  else if 'A' ≤ c && c ≤ 'F' then some (c.toNat - 0x41 + 10)
  else none

/-- The value of a sequence of hexadecimal digits. -/
def hexNumber? (digits : List Char) : Option Nat :=
  digits.foldl (fun n c => do return (← n) * 16 + (← hexValue? c)) (some 0)

/-- The character that an escape of one letter stands for. -/
def escape? (c : Char) : Option Nat :=
  match c with
  | '"' => some 0x22
  | '\\' => some 0x5c
  | '/' => some 0x2f
  | 'b' => some 0x08
  | 'f' => some 0x0c
  | 'n' => some 0x0a
  | 'r' => some 0x0d
  | 't' => some 0x09
  | _ => none

/-- The code points and code units up to the closing quote, and the text behind it. -/
def readUnits : List Char → Option (List Nat × List Char)
  | [] => none
  | '"' :: rest => some ([], rest)
  | '\\' :: 'u' :: a :: b :: c :: d :: rest => do
    let n ← hexNumber? [a, b, c, d]
    let (units, rest) ← readUnits rest
    return (n :: units, rest)
  | '\\' :: e :: rest => do
    let n ← escape? e
    let (units, rest) ← readUnits rest
    return (n :: units, rest)
  | c :: rest =>
    if c.toNat < 0x20 then none
    else do
      let (units, rest) ← readUnits rest
      return (c.toNat :: units, rest)

/-- Joins pairs of surrogates; a lone one is refused. -/
def joinUnits : List Nat → Option (List Char)
  | [] => some []
  | [n] => if 0xd800 ≤ n && n < 0xe000 then none else some [Char.ofNat n]
  | n :: m :: rest =>
    if 0xd800 ≤ n && n < 0xdc00 then
      if 0xdc00 ≤ m && m < 0xe000 then
        (joinUnits rest).map (Char.ofNat (0x10000 + (n - 0xd800) * 0x400 + (m - 0xdc00)) :: ·)
      else none
    else if 0xdc00 ≤ n && n < 0xe000 then none
    else (joinUnits (m :: rest)).map (Char.ofNat n :: ·)

/-- The string whose opening quote has been read, and the text behind it. -/
def readString (s : List Char) : Option (String × List Char) := do
  let (units, rest) ← readUnits s
  return (String.ofList (← joinUnits units), rest)

/-! ### Numbers -/

/-- The value of a sequence of decimal digits. -/
def digitsValue (digits : List Char) : Nat :=
  digits.foldl (fun n c => n * 10 + (c.toNat - 0x30)) 0

/-- The digits behind a point, if there is one. -/
def readFraction (s : List Char) : Option (List Char × List Char) :=
  match s with
  | '.' :: rest =>
    match rest.takeWhile Char.isDigit with
    | [] => none
    | digits => some (digits, rest.dropWhile Char.isDigit)
  | _ => some ([], s)

/-- The exponent, if there is one. -/
def readExponent (s : List Char) : Option (Option Int × List Char) :=
  match s with
  | c :: rest =>
    if c == 'e' || c == 'E' then
      let (negative, rest) := match rest with
        | '-' :: r => (true, r)
        | '+' :: r => (false, r)
        | r => (false, r)
      match rest.takeWhile Char.isDigit with
      | [] => none
      | digits =>
        let n : Int := digitsValue digits
        some (some (if negative then -n else n), rest.dropWhile Char.isDigit)
    else some (none, s)
  | [] => some (none, s)

/-- A number at the start of a text.  Numbers without a point and an exponent are integers. -/
def readNumber (s : List Char) : Option (Data × List Char) := do
  let (negative, s) := match s with
    | '-' :: rest => (true, rest)
    | rest => (false, rest)
  let whole := s.takeWhile Char.isDigit
  if whole.isEmpty || (whole.head? == some '0' && 1 < whole.length) then none
  let (fraction, s) ← readFraction (s.dropWhile Char.isDigit)
  let (exponent, s) ← readExponent s
  let n : Int := digitsValue (whole ++ fraction)
  let signed := if negative then -n else n
  let value := Data.Real.decimal signed (exponent.getD 0 - fraction.length)
  if !value.isFinite then none
  else if fraction.isEmpty && exponent.isNone then return (.int signed, s)
  else return (.real value, s)

/-! ### Values -/

/-- The text from its first character that is no JSON blank. -/
def skipBlanks (s : List Char) : List Char :=
  s.dropWhile fun c => c == ' ' || c == '\t' || c == '\n' || c == '\r'

mutual

/-- A value at the start of a text, and the text behind it.  At most `levels` lists and records are
open at a time.  Every level of nesting and every further member takes one step of the bound. -/
def readValue (levels : Nat) : Nat → List Char → Option (Data × List Char)
  | 0, _ => none
  | bound + 1, s =>
    match skipBlanks s with
    | 'n' :: 'u' :: 'l' :: 'l' :: rest => some (.null, rest)
    | 't' :: 'r' :: 'u' :: 'e' :: rest => some (.bool true, rest)
    | 'f' :: 'a' :: 'l' :: 's' :: 'e' :: rest => some (.bool false, rest)
    | '"' :: rest => (readString rest).map fun r => (.string r.1, r.2)
    | '[' :: rest =>
      if levels == 0 then none
      else
        match skipBlanks rest with
        | ']' :: rest => some (.list [], rest)
        | rest => (readItems (levels - 1) bound rest).map fun r => (.list r.1, r.2)
    | '{' :: rest =>
      if levels == 0 then none
      else
        match skipBlanks rest with
        | '}' :: rest => some (.record [], rest)
        | rest =>
          (readFields (levels - 1) bound rest).map fun r => (.record (Keyed.ofList r.1), r.2)
    | rest => readNumber rest

/-- The items of a list up to its closing bracket. -/
def readItems (levels : Nat) : Nat → List Char → Option (List Data × List Char)
  | 0, _ => none
  | bound + 1, s => do
    let (value, s) ← readValue levels bound s
    match skipBlanks s with
    | ']' :: rest => return ([value], rest)
    | ',' :: rest =>
      let (values, rest) ← readItems levels bound rest
      return (value :: values, rest)
    | _ => none

/-- The fields of a record up to its closing brace. -/
def readFields (levels : Nat) : Nat → List Char → Option (List (String × Data) × List Char)
  | 0, _ => none
  | bound + 1, s => do
    let '"' :: s := skipBlanks s | none
    let (key, s) ← readString s
    let ':' :: s := skipBlanks s | none
    let (value, s) ← readValue levels bound s
    match skipBlanks s with
    | '}' :: rest => return ([(key, value)], rest)
    | ',' :: rest =>
      let (fields, rest) ← readFields levels bound rest
      return ((key, value) :: fields, rest)
    | _ => none

end

/-- The value that a text is, if at most `levels` of its lists and records are open at a time. -/
def parse (levels : Nat) (s : List Char) : Option Data :=
  match readValue levels (2 * s.length + 2) s with
  | some (value, rest) => if (skipBlanks rest).isEmpty then some value else none
  | none => none

end LuaAmbient.Json
