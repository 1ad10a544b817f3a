/-
Sets of names, written as lists.

Names are collected in any order and with repetitions; what is shown is the sorted list without
repetitions, in the order of code points.

Main definitions:

* `LuaAmbient.sortNames` — the sorted list of the distinct names of a list;
* `LuaAmbient.dropNames` — the names of a list that are not in another.
-/

import LuaAmbient.Sorting

set_option autoImplicit false

namespace LuaAmbient

/-- The names in the order of code points, repetitions kept. -/
def orderNames (names : List String) : List String :=
  sortBy (fun a b => decide (a ≤ b)) names

/-- The distinct names of a list in the order of code points. -/
def sortNames (names : List String) : List String :=
  orderNames names.eraseDups

/-- The names of a list that are not in another. -/
def dropNames (names other : List String) : List String :=
  names.filter fun n => !other.contains n

end LuaAmbient
