/-
Types as annotation comments write them.

Main definitions:

* `LuaAmbient.DocType` — a type expression;
* `LuaAmbient.DocType.Label` — how a function type names one of its parameters;
* `LuaAmbient.DocType.canonical` — the type that a plain name stands for.
-/

import LuaAmbient.Text.Search

set_option autoImplicit false

namespace LuaAmbient

/-- How a function type names a parameter: not at all, by a name that may end in a question mark,
or as the rest of the arguments. -/
inductive DocType.Label where
  | unnamed
  | named (name : String)
  | rest
deriving Repr, DecidableEq, Inhabited

/-- A type expression of an annotation comment. -/
inductive DocType where
  /-- A plain name. -/
  | plain (text : String)
  /-- A type whose value may be absent. -/
  | optional (inner : DocType)
  /-- A name applied to type arguments. -/
  | generic (base : String) (args : List DocType)
  /-- One of several types. -/
  | union (options : List DocType)
  /-- A function with its parameters and its result. -/
  | function (params : List (DocType.Label × DocType)) (result : DocType)
  /-- A table described by the types of its keys and values. -/
  | table (fields : List (DocType × DocType))
  /-- A list of values of one type. -/
  | array (element : DocType)
  /-- A fixed sequence of values. -/
  | tuple (elements : List DocType)
deriving Repr, Inhabited

namespace DocType

/-- The result of a function that returns nothing. -/
def void : DocType := .plain "void"

/-- The type of anything. -/
def any : DocType := .plain "any"

/-! ### Equality -/

mutual

/-- Equality of types is decidable. -/
def decEq : (a b : DocType) → Decidable (a = b)
  | .plain a, b => match b with
    | .plain b => if h : a = b then isTrue (h ▸ rfl) else isFalse (fun e => h (DocType.plain.inj e))
    | .optional _ | .generic .. | .union _ | .function .. | .table _ | .array _ | .tuple _ =>
      isFalse nofun
  | .optional a, b => match b with
    | .optional b => match decEq a b with
      | isTrue h => isTrue (h ▸ rfl)
      | isFalse h => isFalse (fun e => h (DocType.optional.inj e))
    | .plain _ | .generic .. | .union _ | .function .. | .table _ | .array _ | .tuple _ =>
      isFalse nofun
  | .generic a as, b => match b with
    | .generic b bs => match decEqList as bs with
      | isTrue h => if k : a = b then isTrue (h ▸ k ▸ rfl)
        else isFalse (fun e => k (DocType.generic.inj e).1)
      | isFalse h => isFalse (fun e => h (DocType.generic.inj e).2)
    | .plain _ | .optional _ | .union _ | .function .. | .table _ | .array _ | .tuple _ =>
      isFalse nofun
  | .union as, b => match b with
    | .union bs => match decEqList as bs with
      | isTrue h => isTrue (h ▸ rfl)
      | isFalse h => isFalse (fun e => h (DocType.union.inj e))
    | .plain _ | .optional _ | .generic .. | .function .. | .table _ | .array _ | .tuple _ =>
      isFalse nofun
  | .function as a, b => match b with
    | .function bs b => match decEqParams as bs with
      | isTrue h => match decEq a b with
        | isTrue k => isTrue (h ▸ k ▸ rfl)
        | isFalse k => isFalse (fun e => k (DocType.function.inj e).2)
      | isFalse h => isFalse (fun e => h (DocType.function.inj e).1)
    | .plain _ | .optional _ | .generic .. | .union _ | .table _ | .array _ | .tuple _ =>
      isFalse nofun
  | .table as, b => match b with
    | .table bs => match decEqFields as bs with
      | isTrue h => isTrue (h ▸ rfl)
      | isFalse h => isFalse (fun e => h (DocType.table.inj e))
    | .plain _ | .optional _ | .generic .. | .union _ | .function .. | .array _ | .tuple _ =>
      isFalse nofun
  | .array a, b => match b with
    | .array b => match decEq a b with
      | isTrue h => isTrue (h ▸ rfl)
      | isFalse h => isFalse (fun e => h (DocType.array.inj e))
    | .plain _ | .optional _ | .generic .. | .union _ | .function .. | .table _ | .tuple _ =>
      isFalse nofun
  | .tuple as, b => match b with
    | .tuple bs => match decEqList as bs with
      | isTrue h => isTrue (h ▸ rfl)
      | isFalse h => isFalse (fun e => h (DocType.tuple.inj e))
    | .plain _ | .optional _ | .generic .. | .union _ | .function .. | .table _ | .array _ =>
      isFalse nofun

/-- Equality of lists of types is decidable. -/
def decEqList : (as bs : List DocType) → Decidable (as = bs)
  | [], [] => isTrue rfl
  | [], _ :: _ => isFalse nofun
  | _ :: _, [] => isFalse nofun
  | a :: as, b :: bs => match decEq a b with
    | isTrue h => match decEqList as bs with
      | isTrue k => isTrue (h ▸ k ▸ rfl)
      | isFalse k => isFalse (fun e => k (List.cons.inj e).2)
    | isFalse h => isFalse (fun e => h (List.cons.inj e).1)

/-- Equality of parameter lists is decidable. -/
def decEqParams : (as bs : List (Label × DocType)) → Decidable (as = bs)
  | [], [] => isTrue rfl
  | [], _ :: _ => isFalse nofun
  | _ :: _, [] => isFalse nofun
  | (l, a) :: as, (m, b) :: bs => match decEq a b with
    | isTrue h => match decEqParams as bs with
      | isTrue k => if j : l = m then isTrue (h ▸ k ▸ j ▸ rfl)
        else isFalse (fun e => j (Prod.mk.inj (List.cons.inj e).1).1)
      | isFalse k => isFalse (fun e => k (List.cons.inj e).2)
    | isFalse h => isFalse (fun e => h (Prod.mk.inj (List.cons.inj e).1).2)

/-- Equality of table fields is decidable. -/
def decEqFields : (as bs : List (DocType × DocType)) → Decidable (as = bs)
  | [], [] => isTrue rfl
  | [], _ :: _ => isFalse nofun
  | _ :: _, [] => isFalse nofun
  | (x, a) :: as, (y, b) :: bs => match decEq x y with
    | isTrue j => match decEq a b with
      | isTrue h => match decEqFields as bs with
        | isTrue k => isTrue (h ▸ k ▸ j ▸ rfl)
        | isFalse k => isFalse (fun e => k (List.cons.inj e).2)
      | isFalse h => isFalse (fun e => h (Prod.mk.inj (List.cons.inj e).1).2)
    | isFalse j => isFalse (fun e => j (Prod.mk.inj (List.cons.inj e).1).1)

end

instance : DecidableEq DocType := decEq

/-! ### Plain names -/

/-- The names of tables without a described shape. -/
def isOpenTable (name : String) : Bool :=
  name == "table" || name == "lightuserdata" || name == "userdata"

/-- A table without a described shape: anything under string keys. -/
def openTable : DocType :=
  .generic "Record" [.plain "string", any]

/-- The primitive type that a name of the annotation language stands for; any other name stands
for itself. -/
def primitive (name : String) : String :=
  if name == "integer" || name == "int" || name == "float" then "number"
  else if name == "nil" then "null"
  else name

/-- The type that a plain name stands for.  A trailing `::Type` is dropped, tables without a shape
become records, and the primitive names are replaced. -/
def canonical (text : List Char) : DocType :=
  let name := String.ofList (Text.dropSuffix text "::Type".toList)
  if isOpenTable name then openTable else .plain (primitive name)

end DocType

end LuaAmbient
