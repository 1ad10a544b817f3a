/-
How problems are worded.

Main definitions:

* `LuaAmbient.Report` — a message about an annotation, with what is known of its place;
* `LuaAmbient.Report.location`, `LuaAmbient.Report.describe` — the place, and the whole line that
  the user sees;
* `LuaAmbient.describeUnrecognized`, `LuaAmbient.describeUnresolved` — the wording for a piece of
  source of unknown form, and for a type name without a declaration.
-/

import LuaAmbient.Text.Blank

set_option autoImplicit false

namespace LuaAmbient

/-- A message about an annotation, with the file, the line and the text it is about, as far as
they are known. -/
structure Report where
  message : String
  line : Option Int
  text : Option String
  path : Option String
deriving Repr, DecidableEq, Inhabited

namespace Report

/-- The place of a report. -/
def location (r : Report) : String :=
  match r.path, r.line with
  | none, none => "<unknown>"
  | some path, none => path
  | none, some line => "<source>:" ++ toString line
  | some path, some line => (if path.isEmpty then "<source>" else path) ++ ":" ++ toString line

/-- The text in question, in square brackets behind a space; nothing if there is none. -/
def quotation (r : Report) : String :=
  match r.text with
  | some text => if text.isEmpty then "" else " [" ++ Text.stripString text ++ "]"
  | none => ""

/-- The line that the user sees. -/
def describe (r : Report) : String :=
  r.location ++ ": " ++ r.message ++ r.quotation

/-- The report placed in a file. -/
def inFile (r : Report) (path : String) : Report :=
  { r with path := some path }

end Report

/-- The wording for a piece of source of unknown form; at most sixty characters of it are shown. -/
def describeUnrecognized (kind : String) (line : Int) (text : String) : String :=
  "line " ++ toString line ++ ": unrecognized " ++ kind ++ " [" ++
    String.ofList ((Text.strip text.toList).take 60) ++ "]"

/-- The wording for a type name that no file declares. -/
def describeUnresolved (path name : String) : String :=
  path ++ ": unresolved type '" ++ name ++ "'"

end LuaAmbient
