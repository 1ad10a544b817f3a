/-
Sorting of lists.

Main definitions:

* `LuaAmbient.sortBy` — **a list in order**, which elements of the same rank keep among themselves.
-/

set_option autoImplicit false

namespace LuaAmbient

variable {α : Type}

/-- A sorted list with one more element, which stands before all others of its rank. -/
def insertBy (le : α → α → Bool) (a : α) : List α → List α
  | [] => [a]
  | b :: rest => if le a b then a :: b :: rest else b :: insertBy le a rest

/-- A list in order.  Elements of the same rank stay in their order. -/
def sortBy (le : α → α → Bool) : List α → List α
  | [] => []
  | a :: rest => insertBy le a (sortBy le rest)

end LuaAmbient
