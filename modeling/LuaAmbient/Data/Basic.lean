/-
Values of data formats.

Main definitions:

* `LuaAmbient.Data` — a value as a settings file or a stored record holds it;
* `LuaAmbient.Data.Real` — a number that is not written as an integer;
* `LuaAmbient.Data.Real.wholeness` — the integer that such a number is in double precision, if it is
  one.
-/

set_option autoImplicit false

namespace LuaAmbient

/-- A number that is not written as an integer. -/
inductive Data.Real where
  /-- The number `mantissa * 10 ^ exponent`. -/
  | decimal (mantissa : Int) (exponent : Int)
  | infinite (negative : Bool)
  | nan
deriving Repr, DecidableEq, Inhabited

/-- A value of a data format.  The fields of a record stand in the order in which their names first
appeared. -/
inductive Data where
  | null
  | bool (value : Bool)
  | int (value : Int)
  | real (value : Data.Real)
  | string (value : String)
  /-- A date, a time or both, as written. -/
  | date (text : String)
  | list (items : List Data)
  | record (fields : List (String × Data))
deriving Repr, Inhabited

namespace Data.Real

/-- The double nearest to `mantissa * 10 ^ exponent`.  Exponents that leave no doubt are not worked
out. -/
def magnitude (mantissa : Nat) (exponent : Int) : Float :=
  if mantissa == 0 then 0.0
  else if 400 < exponent then 1.0 / 0.0
  else if exponent < -(400 + (mantissa.log2 : Int)) then 0.0
  else Float.ofScientific mantissa (exponent < 0) exponent.natAbs

/-- The double nearest to a number. -/
def toFloat : Real → Float
  | .decimal m e => if m < 0 then -(magnitude m.natAbs e) else magnitude m.natAbs e
  | .infinite negative => if negative then -(1.0 / 0.0) else 1.0 / 0.0
  | .nan => 0.0 / 0.0

/-- Whether the double nearest to a number is finite. -/
def isFinite (r : Real) : Bool :=
  r.toFloat.isFinite

/-- What the double nearest to a number is among the integers. -/
inductive Wholeness where
  | notFinite
  | fractional
  /-- An integer that does not fit in sixty-four bits. -/
  | tooLarge
  | whole (value : Int)
deriving Repr, DecidableEq, Inhabited

/-- What the double nearest to a number is among the integers. -/
def wholeness (r : Real) : Wholeness :=
  let x := r.toFloat
  if !x.isFinite then .notFinite
  else if x.floor != x then .fractional
  else if 9223372036854775808.0 ≤ x.abs then .tooLarge
  else .whole x.toInt64.toInt

end Data.Real

end LuaAmbient
