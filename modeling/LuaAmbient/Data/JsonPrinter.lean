/-
Writing JSON.

What the program stores are strings, lists and records.  Records are written with their fields
sorted by name and every member on a line of its own, indented by two spaces for each level.

Main definitions:

* `LuaAmbient.Json.Stored` — what the program stores;
* `LuaAmbient.Json.render` — its text.
-/

import LuaAmbient.Keyed
import LuaAmbient.Text.Quoted
import LuaAmbient.Text.Search

set_option autoImplicit false

namespace LuaAmbient.Json

/-- What the program stores. -/
inductive Stored where
  | string (value : String)
  | list (items : List Stored)
  | record (fields : List (String × Stored))
deriving Repr, Inhabited

/-- The line break in front of a member at the given level. -/
def newline (level : Nat) : String :=
  "\n" ++ String.ofList (List.replicate (2 * level) ' ')

/-- Members between brackets, each on a line of its own; brackets alone if there are none. -/
def bracketed (opening closing : String) (level : Nat) (members : List String) : String :=
  if members.isEmpty then opening ++ closing
  else opening ++ newline (level + 1) ++ Text.joinWith ("," ++ newline (level + 1)) members ++
    newline level ++ closing

mutual

/-- The text of a value at the given level; the fields of records are in order already. -/
def renderAt (level : Nat) : Stored → String
  | .string s => Text.quote s
  | .list items => bracketed "[" "]" level (renderItems (level + 1) items)
  | .record fields => bracketed "\x7b" "\x7d" level (renderFields (level + 1) fields)

/-- The texts of the items of a list. -/
def renderItems (level : Nat) : List Stored → List String
  | [] => []
  | v :: vs => renderAt level v :: renderItems level vs

/-- The texts of the fields of a record. -/
def renderFields (level : Nat) : List (String × Stored) → List String
  | [] => []
  | (k, v) :: fs => (Text.quote k ++ ": " ++ renderAt level v) :: renderFields level fs

end

mutual

/-- The value with the fields of all records sorted by name. -/
def Stored.sorted : Stored → Stored
  | .string s => .string s
  | .list items => .list (sortedItems items)
  | .record fields => .record (Keyed.sorted (sortedFields fields))

/-- The items of a list with the fields of all records sorted. -/
def sortedItems : List Stored → List Stored
  | [] => []
  | v :: vs => v.sorted :: sortedItems vs

/-- The fields of a record with the fields of all records inside sorted. -/
def sortedFields : List (String × Stored) → List (String × Stored)
  | [] => []
  | (k, v) :: fs => (k, v.sorted) :: sortedFields fs

end

/-- The text of a stored value. -/
def render (v : Stored) : String :=
  renderAt 0 v.sorted

end LuaAmbient.Json
