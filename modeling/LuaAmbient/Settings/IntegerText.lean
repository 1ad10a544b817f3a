/-
Integers in strings.

A setting that is an integer may be written as a string.  Digits with an optional minus sign are
read as they stand.  What cannot be read that way is cleaned first: white space around it, a plus
sign, zeros in front, a fraction of zeros and single underscores between digits do not count.  An
integer has at most 4300 characters.

Main definitions:

* `LuaAmbient.IntegerText.plain` — an integer in digits;
* `LuaAmbient.IntegerText.clean?` — the digits behind an ornate spelling;
* `LuaAmbient.IntegerText.read` — **the integer in a string**.
-/

import LuaAmbient.Data.Check
import LuaAmbient.Data.JsonReader
import LuaAmbient.Text.Blank

set_option autoImplicit false

namespace LuaAmbient.IntegerText

open LuaAmbient.Check

/-- The most characters of an integer, its sign included. -/
def limit : Nat := 4300

/-- A minus sign in front, and the text behind it. -/
def cutSign (s : List Char) : List Char × List Char :=
  match s with
  | '-' :: rest => (['-'], rest)
  | _ => ([], s)

/-- An integer in digits, without zeros in front.  Its length is judged before what follows it. -/
def plain (s : List Char) : Except Complaint Int :=
  let (sign, rest) := cutSign s
  let digits := rest.takeWhile Char.isDigit
  let n : Int := Json.digitsValue digits
  if digits.isEmpty || (digits.head? == some '0' && digits != ['0']) then .error .unreadableInteger
  else if limit < sign.length + digits.length then .error .oversizedInteger
  else if digits.length < rest.length then .error .unreadableInteger
  else .ok (if sign.isEmpty then n else -n)

/-- The text without a plus sign in front; a minus sign may not follow it. -/
def dropPlus? (s : List Char) : Option (List Char) :=
  match s with
  | '+' :: '-' :: _ => none
  | '+' :: rest => some rest
  | _ => some s

/-- The text behind the zeros, and the underscores among them, in front of its digits.  The last of
the zeros stays if no digit follows. -/
def dropZeros? (s : List Char) : Option (List Char) :=
  match s with
  | '0' :: _ =>
    let zeros := s.takeWhile fun c => c == '0' || c == '_'
    let rest := s.dropWhile fun c => c == '0' || c == '_'
    match rest with
    | [] => zeros.getLast?.map fun c => [c]
    | '.' :: _ => zeros.getLast?.map fun c => c :: rest
    | c :: _ => if c.isDigit || c == '-' then some rest else none
  | c :: _ => if c.isDigit || c == '-' then some s else none
  | [] => none

/-- The text without a point and the zeros at its end; the point needs at least one zero. -/
def dropFraction? (s : List Char) : Option (List Char) :=
  match s.dropWhile (· != '.') with
  | [] => some s
  | _ :: zeros =>
    if !zeros.isEmpty && zeros.all (· == '0') then some (s.takeWhile (· != '.')) else none

/-- Whether two underscores stand side by side. -/
def hasDoubleMark : List Char → Bool
  | '_' :: '_' :: _ => true
  | _ :: rest => hasDoubleMark rest
  | [] => false

/-- The text without its underscores; they stand one by one and not at its ends. -/
def dropMarks? (s : List Char) : Option (List Char) :=
  if s.head? == some '_' || s.getLast? == some '_' || hasDoubleMark s then none
  else some (s.filter (· != '_'))

/-- The sign and the digits behind an ornate spelling. -/
def clean? (s : List Char) : Option (List Char) := do
  let (sign, rest) := cutSign (← dropPlus? (Text.trim s))
  let digits ← dropMarks? (← dropFraction? (← dropZeros? rest))
  return sign ++ digits

/-- The integer in a string. -/
def read (s : List Char) : Except Complaint Int :=
  match plain s with
  | .ok n => .ok n
  | .error .oversizedInteger => .error .oversizedInteger
  | .error _ =>
    match clean? s with
    | some t => plain t
    | none => .error .unreadableInteger

end LuaAmbient.IntegerText
