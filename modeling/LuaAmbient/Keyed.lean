/-
Lists of pairs that are looked up by key and keep the order in which keys were first put.

Main definitions:

* `LuaAmbient.Keyed.get?`, `LuaAmbient.Keyed.put`, `LuaAmbient.Keyed.erase` — look-up, change and
  removal;
* `LuaAmbient.Keyed.ofList` — pairs put one after the other, so that of two pairs with one key the
  later value and the earlier place count;
* `LuaAmbient.Keyed.sorted` — the pairs in the order of their keys.
-/

import LuaAmbient.Sorting

set_option autoImplicit false

namespace LuaAmbient.Keyed

variable {β : Type}

/-- The value under a key. -/
def get? (l : List (String × β)) (key : String) : Option β :=
  (l.find? fun p => p.1 == key).map (·.2)

/-- Whether a key is present. -/
def has (l : List (String × β)) (key : String) : Bool :=
  l.any fun p => p.1 == key

/-- Puts a value under a key: in place if the key is present, else at the end. -/
def put (l : List (String × β)) (key : String) (value : β) : List (String × β) :=
  match l with
  | [] => [(key, value)]
  | p :: rest => if p.1 == key then (key, value) :: rest else p :: put rest key value

/-- Removes a key. -/
def erase (l : List (String × β)) (key : String) : List (String × β) :=
  l.filter fun p => p.1 != key

/-- Puts the pairs of a list one after the other. -/
def ofList (pairs : List (String × β)) : List (String × β) :=
  pairs.foldl (fun l p => put l p.1 p.2) []

/-- The keys in order. -/
def keys (l : List (String × β)) : List String :=
  l.map (·.1)

/-- The pairs in the order of their keys; pairs with one key stay in their order. -/
def sorted (l : List (String × β)) : List (String × β) :=
  sortBy (fun a b => decide (a.1 ≤ b.1)) l

end LuaAmbient.Keyed
