/-
Several definitions of one function.

Main definitions:

* `LuaAmbient.unionTexts` — the union of two types, as text;
* `LuaAmbient.FunctionDecl.mergeParams` — two parameter lists as one;
* `LuaAmbient.FunctionDecl.merge` — **two definitions as one signature that covers both**.
-/

import LuaAmbient.Declaration.Basic
import LuaAmbient.TypeScript.TypeText

set_option autoImplicit false

namespace LuaAmbient

/-- The union of two types; a type with itself is that type. -/
def unionTexts (a b : String) : String :=
  if a == b then a else "(" ++ a ++ ") | (" ++ b ++ ")"

namespace FunctionDecl

/-- The name of the parameter that takes the rest of the arguments. -/
def restName : String := "...args"

/-- The name of a position that two definitions share. -/
def sharedName (a b : String) : String :=
  if a == b then a else a ++ "_or_" ++ b

/-- What the first definition says of a parameter, or else the second. -/
def firstDescription (a b : Option String) : Option String :=
  match a with
  | some s => if s.isEmpty then b else some s
  | none => b

/-- The rest of the arguments at a position that is the rest of at least one definition: its type if
the definitions agree on it, else a list of anything. -/
def mergeRest (a b : Option (String × ParamDecl)) : ParamDecl :=
  let types := ([a, b].filterMap id).filterMap fun p =>
    if p.1 == restName then some p.2.type else none
  match types with
  | [t] => ⟨t, none⟩
  | [t, u] => if t == u then ⟨t, none⟩ else ⟨"Array<any>", none⟩
  | _ => ⟨"Array<any>", none⟩

/-- The parameter at a position that both definitions have, and whether it is optional. -/
def mergeBoth (a b : String × ParamDecl) : String × Bool × ParamDecl :=
  (sharedName (TypeScript.bareName a.1) (TypeScript.bareName b.1),
    TypeScript.isOptionalName a.1 || TypeScript.isOptionalName b.1,
    ⟨unionTexts a.2.type b.2.type, firstDescription a.2.description b.2.description⟩)

/-- The name of a parameter, marked if it is optional. -/
def markOptional (name : String) (optional : Bool) : String :=
  if optional then name ++ "?" else name

/-- The parameters of one definition behind the last position of the other: all are optional. -/
def mergeTail : List (String × ParamDecl) → List (String × ParamDecl)
  | [] => []
  | p :: ps =>
    if p.1 == restName then [(restName, mergeRest (some p) none)]
    else (markOptional (TypeScript.bareName p.1) true, p.2) :: mergeTail ps

/-- Two parameter lists position by position.  From the first optional position on all are optional,
and the rest of the arguments of either definition ends the list. -/
def mergePositions (optionalSeen : Bool) :
    List (String × ParamDecl) → List (String × ParamDecl) → List (String × ParamDecl)
  | [], bs => mergeTail bs
  | as, [] => mergeTail as
  | a :: as, b :: bs =>
    if a.1 == restName || b.1 == restName then [(restName, mergeRest (some a) (some b))]
    else
      let (name, optional, info) := mergeBoth a b
      let seen := optionalSeen || optional
      (markOptional name seen, info) :: mergePositions seen as bs

/-- Two parameter lists as one.  Of two positions with one name the later one counts, in the place
of the earlier one. -/
def mergeParams (as bs : List (String × ParamDecl)) : List (String × ParamDecl) :=
  Keyed.ofList (mergePositions false as bs)

/-- The result of a function, which is nothing if none is given. -/
def resultText (t : Option String) : String :=
  match t with
  | some s => if s.isEmpty then "void" else s
  | none => "void"

/-- The union of two results; no result if neither is given. -/
def mergeResults (a b : Option String) : Option String :=
  match a, b with
  | none, none => none
  | _, _ => some (unionTexts (resultText a) (resultText b))

/-- Two definitions of one function as one.  Name and type parameters are those of the first. -/
def merge (f g : FunctionDecl) : FunctionDecl :=
  { f with
    params := mergeParams f.params g.params
    returnType := mergeResults f.returnType g.returnType
    comments := f.comments ++ g.comments }

end FunctionDecl

end LuaAmbient
