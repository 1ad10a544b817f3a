/-
Reading a type expression.

Reading goes one level at a time.  `Shape.read` looks at the outermost form of a text and leaves
the texts of its components unread; `Shape.build` reads the components and puts the type together.
Since every component is shorter than the text it stands in, a text is read completely within as
many levels as it has characters.

Main definitions:

* `LuaAmbient.DocType.Fault` — why a text is no type, and its wording;
* `LuaAmbient.DocType.Shape` — the outermost form of a type text;
* `LuaAmbient.DocType.Shape.read`, `LuaAmbient.DocType.Shape.components` — the outermost form of a
  text, and the texts of the types inside it;
* `LuaAmbient.DocType.parse` — **the reader**.
-/

import LuaAmbient.DocType.Basic
import LuaAmbient.Nesting
import LuaAmbient.Text.Word

set_option autoImplicit false

namespace LuaAmbient.DocType

open LuaAmbient.Text

/-- Why a text is no type. -/
inductive Fault where
  /-- There is no text. -/
  | empty
  /-- The brackets of the text do not pair. -/
  | unterminated (text : String)
  /-- A name is applied to an empty list of type arguments. -/
  | bareGeneric (base : String)
  /-- A table field has no key and value. -/
  | field (text : String)
  /-- A function type goes on with something else than a result. -/
  | header (text : String)
deriving Repr, DecidableEq, Inhabited

/-- The wording of a fault. -/
def Fault.message : Fault → String
  | .empty => "Empty type"
  | .unterminated text => s!"Unterminated brackets in type: {text}"
  | .bareGeneric base => s!"Generic '{base}' without parameters"
  | .field text => s!"Invalid table field: {text}"
  | .header text => s!"Invalid function type: {text}"

/-- The outermost form of a type text, with the texts of its components unread. -/
inductive Shape where
  | plain (text : List Char)
  | optional (inner : List Char)
  | generic (base : List Char) (args : List (List Char))
  | union (options : List (List Char))
  /-- A parameter without a text takes any value. -/
  | function (params : List (Label × Option (List Char))) (result : Option (List Char))
  /-- Each entry, with the texts of its key and value if it has both. -/
  | table (entries : List (List Char × Option (List Char × List Char)))
  | array (element : List Char)
  | tuple (elements : List (List Char))
  /-- Parentheses around a type. -/
  | group (inner : List Char)
deriving Repr, DecidableEq, Inhabited

namespace Shape

/-! ### Forms of parts -/

/-- The text behind a colon, if it is a single line with something on it. -/
def afterColon? (s : List Char) : Option (List Char) :=
  match stripLeft s with
  | ':' :: rest =>
    let value := stripLeft rest
    if value.isEmpty || value.contains '\n' then none else some value
  | _ => none

/-- Whether a text is a function type: the bare word, or the word `fun` before a parenthesis. -/
def isFunction (s : List Char) : Bool :=
  s == "function".toList ||
    match List.isPrefixOf? ['f', 'u', 'n'] s with
    | some rest => (stripLeft rest).head? == some '('
    | none => false

/-- A parameter name at the start of a text, and what stands behind it.  A question mark behind
the name belongs to it. -/
def takeName? : List Char → Option (List Char × List Char)
  | [] => none
  | c :: cs =>
    if isNameStart c then
      let name := c :: cs.takeWhile isNamePart
      match cs.dropWhile isNamePart with
      | '?' :: rest => some (name ++ ['?'], rest)
      | rest => some (name, rest)
    else none

/-- The type text behind three dots, if it is given; nothing for a text of another form. -/
def readRest? (s : List Char) : Option (Option (List Char)) :=
  match List.isPrefixOf? ['.', '.', '.'] s with
  | some [] => some none
  | some rest => (afterColon? rest).map some
  | none => none

/-- The label of a parameter of a function type and the text of its type. -/
def readParam (s : List Char) : Label × Option (List Char) :=
  match readRest? s, takeName? s with
  | some t, _ => (.rest, t)
  | none, some (name, []) => (.named (String.ofList name), none)
  | none, some (name, rest) =>
    match afterColon? rest with
    | some t => (.named (String.ofList name), some t)
    | none => (.unnamed, some s)
  | none, none => (.unnamed, some s)

/-- The key and the value of a table field, whose key is in square brackets.  Of several closing
brackets in front of a colon the last one ends the key. `seen` is the part of the key already
passed, read from its end. -/
def splitField? (seen : List Char) : List Char → Option (List Char × List Char)
  | [] => none
  | c :: cs =>
    if c == '\n' then
      none
    else
      match splitField? (c :: seen) cs with
      | some r => some r
      | none =>
        if c == ']' && !seen.isEmpty then (afterColon? cs).map fun v => (seen.reverse, v)
        else none

/-- The key and the value of a table field, if the text is one. -/
def readField? (s : List Char) : Option (List Char × List Char) :=
  match s with
  | '[' :: rest => splitField? [] rest
  | _ => none

/-- A dotted name before an angle bracket, and what stands behind the bracket. -/
def takeBase? (s : List Char) : Option (List Char × List Char) :=
  match s.takeWhile isDottedPart, stripLeft (s.dropWhile isDottedPart) with
  | [], _ => none
  | base, '<' :: rest => some (base, rest)
  | _, _ => none

/-- The base and the text of the arguments, if the whole text is a name applied to arguments. -/
def readGeneric? (s : List Char) : Option (List Char × List Char) :=
  match takeBase? s with
  | some (base, inside) =>
    if endsWith s ['>'] &&
        Nesting.closingIndex? s (s.length - inside.length - 1) == some (s.length - 1)
    then some (base, dropEnd inside 1) else none
  | none => none

/-- The parameters and the result of a function type; the result stands behind a colon. -/
def readFunction (s : List Char) : Except Fault Shape :=
  if s == "function".toList then .ok (.function [] none)
  else
    let opening := (s.takeWhile (· != '(')).length
    match Nesting.closingIndex? s opening with
    | none => .error (.header (String.ofList s))
    | some closing =>
      let inside := (s.take closing).drop (opening + 1)
      let params := (Nesting.split (· == ',') inside).map readParam
      match strip (s.drop (closing + 1)) with
      | [] => .ok (.function params none)
      | ':' :: result => .ok (.function params (some result))
      | _ => .error (.header (String.ofList s))

/-- The text inside the first and the last character. -/
def inner (s : List Char) : List Char :=
  dropEnd (s.drop 1) 1

/-- The form of a text without bars at the outermost level. -/
def readOption (s : List Char) : Except Fault Shape :=
  if endsWith s ['?'] then .ok (.optional (dropEnd s 1))
  else if s.contains ',' && s.head? != some '{' && !isFunction s && !endsWith s ['[', ']'] &&
      1 < (Nesting.split (· == ',') s).length then
    .ok (.tuple (Nesting.split (· == ',') s))
  else if endsWith s ['[', ']'] then .ok (.array (dropEnd s 2))
  else if Nesting.enclosesAll (· == '(') s then .ok (.group (inner s))
  else if Nesting.enclosesAll (· == '{') s then
    .ok (.table ((Nesting.split (· == ',') (inner s)).map fun part => (part, readField? part)))
  else if isFunction s then readFunction s
  else
    match readGeneric? s with
    | some (base, args) =>
      match Nesting.split (· == ',') args with
      | [] => .error (.bareGeneric (String.ofList base))
      | texts => .ok (.generic base texts)
    | none => .ok (.plain s)

/-- The outermost form of a text. -/
def read (text : List Char) : Except Fault Shape :=
  let s := strip text
  if s.isEmpty then .error .empty
  else if !Nesting.balanced s then .error (.unterminated (String.ofList s))
  else
    match Nesting.split (· == '|') s with
    | [] => .error .empty
    | [option] => readOption option
    | options => .ok (.union options)

/-- The texts of the types inside a form. -/
def components : Shape → List (List Char)
  | .plain _ => []
  | .optional t | .array t | .group t => [t]
  | .generic _ ts | .union ts | .tuple ts => ts
  | .function params result => result.toList ++ params.filterMap (·.2)
  | .table entries => entries.flatMap fun e =>
    match e.2 with
    | some (k, v) => [k, v]
    | none => []

/-! ### Reading the components -/

/-- The type of a form, its components read by `parse`.  The result of a function is read before
its parameters, the entries of a table one after the other. -/
def build (parse : List Char → Except Fault DocType) : Shape → Except Fault DocType
  | .plain text => .ok (canonical text)
  | .optional t => do return .optional (← parse t)
  | .generic base texts => do
    let name := String.ofList base
    return .generic (if isOpenTable name then "Record" else name) (← texts.mapM parse)
  | .union options => do return .union (← options.mapM parse)
  | .function params result => do
    let r ← match result with
      | some t => parse t
      | none => pure void
    let ps ← params.mapM fun p => do
      let t ← match p.2 with
        | some t => parse t
        | none => pure any
      return (p.1, t)
    return .function ps r
  | .table entries => do
    let fields ← entries.mapM fun e =>
      match e.2 with
      | some (k, v) => do
        let key ← parse k
        let value ← parse v
        return (key, value)
      | none => .error (.field (String.ofList e.1))
    return .table fields
  | .array t => do return .array (← parse t)
  | .tuple texts => do return .tuple (← texts.mapM parse)
  | .group t => parse t

end Shape

/-! ### The reader -/

/-- Reads a text that nests fewer than `levels` levels. -/
def parseWithin : Nat → List Char → Except Fault DocType
  | 0, _ => .error .empty
  | levels + 1, text => do Shape.build (parseWithin levels) (← Shape.read text)

/-- Reads a type expression. -/
def parse (text : List Char) : Except Fault DocType :=
  parseWithin (text.length + 1) text

end LuaAmbient.DocType
