/-
Names on the TypeScript side.

Main definitions:

* `LuaAmbient.TypeScript.isInternal` — the names that TypeScript knows by itself;
* `LuaAmbient.TypeScript.mayBeForeign` — the names that a file has to import or to stub;
* `LuaAmbient.TypeScript.parameterName` — a parameter name that is no reserved word.
-/

import LuaAmbient.Text.Line
import LuaAmbient.Text.Word

set_option autoImplicit false

namespace LuaAmbient.TypeScript

/-- The names that never need an import or a stub. -/
def builtinTypes : List String :=
  ["string", "number", "boolean", "function", "unknown", "any", "void", "null", "undefined",
    "never", "object", "symbol", "bigint", "this", "Record", "Array"]

/-- Whether TypeScript knows the name by itself. -/
def isInternal (name : String) : Bool :=
  builtinTypes.contains name

/-- The words that cannot name a parameter. -/
def reserved : List String :=
  ["break", "case", "catch", "class", "const", "continue", "debugger", "default", "delete", "do",
    "else", "enum", "export", "extends", "false", "finally", "for", "function", "if", "import",
    "in", "instanceof", "new", "null", "return", "super", "switch", "this", "throw", "true", "try",
    "typeof", "var", "void", "while", "with"]

/-- Whether a text is one word.  A line feed at its end does not count. -/
def isWordText (s : List Char) : Bool :=
  let w := Text.chomp s
  !w.isEmpty && w.all Text.isWord

/-- Whether a name may need an import or a stub: a word of more than one character that TypeScript
does not know by itself.  Names of one character are taken for type parameters. -/
def mayBeForeign (name : String) : Bool :=
  1 < name.length && !isInternal name && isWordText name.toList

/-- A parameter name, with an underscore behind it if it is a reserved word. -/
def parameterName (name : String) : String :=
  if reserved.contains name then name ++ "_" else name

end LuaAmbient.TypeScript
