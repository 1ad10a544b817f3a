/-
Messages for the user.

Main definitions:

* `LuaAmbient.Log.Level` — how urgent a message is;
* `LuaAmbient.Log.Entry` — a message with its level, and its line of text.
-/

set_option autoImplicit false

namespace LuaAmbient.Log

/-- How urgent a message is. -/
inductive Level where
  | debug
  | info
  | warning
  | error
deriving Repr, DecidableEq, Inhabited

/-- The name of a level. -/
def Level.name : Level → String
  | .debug => "DEBUG"
  | .info => "INFO"
  | .warning => "WARNING"
  | .error => "ERROR"

/-- A message with its level. -/
structure Entry where
  level : Level
  message : String
deriving Repr, DecidableEq, Inhabited

/-- The level and the message with a space between them. -/
def Entry.line (e : Entry) : String :=
  e.level.name ++ " " ++ e.message

end LuaAmbient.Log
