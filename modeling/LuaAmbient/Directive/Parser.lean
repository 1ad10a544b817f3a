/-
Reading the directives of a comment block.

A block is read line by line.  A line that starts with `---@` carries a tag, one that starts with
`---|` is a variant of the alias above it, any other line that starts with `---` is documentation,
and all other lines say nothing.  Only an alias looks at more than its own line.

Main definitions:

* `LuaAmbient.Directive.Line` — a numbered line, stripped;
* `LuaAmbient.Directive.readLine` — the directive of one line, given the variants below it;
* `LuaAmbient.Directive.parseLines` — **the directives of a block**.
-/

import LuaAmbient.Directive.Basic

set_option autoImplicit false

namespace LuaAmbient.Directive

open LuaAmbient.Text

/-- A line of a comment block, stripped, with its number. -/
structure Line where
  number : Int
  text : List Char
deriving Repr, DecidableEq, Inhabited

/-- A numbered line of a comment block as it stands in the source. -/
def Line.ofString (number : Int) (s : String) : Line :=
  ⟨number, strip s.toList⟩

/-- Whether the line is a variant of an alias. -/
def Line.isVariant (l : Line) : Bool :=
  ['-', '-', '-', '|'].isPrefixOf l.text

/-- The text of a variant behind its marker. -/
def Line.variantText (l : Line) : List Char :=
  l.text.drop 4

/-- A fault found on the line. -/
def Line.problem (l : Line) (fault : Fault) : Problem :=
  ⟨fault, l.number, String.ofList l.text⟩

/-! ### Pieces of a line -/

/-- The stripped parts before and behind the first occurrence of a character; without one, the
whole text and nothing. -/
def splitAtBlank (sep : Char) (s : List Char) : List Char × List Char :=
  match splitFirst? (· == sep) s with
  | some (a, b) => (strip a, strip b)
  | none => (strip s, [])

/-- The text without a list of attributes in parentheses at its start. -/
def dropAttributes (s : List Char) : List Char :=
  let t := strip s
  match t with
  | '(' :: rest =>
    match rest.dropWhile (fun c => isWord c || isBlank c || c == ',') with
    | ')' :: behind => stripLeft behind
    | _ => t
  | _ => t

/-- The part of a variant before its description, which a number sign behind a space opens. -/
def beforeDescription : List Char → List Char
  | [] => []
  | c :: cs => if [' ', '#'].isPrefixOf (c :: cs) then [] else c :: beforeDescription cs

/-- The type text of a variant; empty if there is only a description. -/
def variantType (l : Line) : List Char :=
  let t := beforeDescription (strip l.variantText)
  if t.head? == some '#' then [] else strip t

/-- Whether a variant has a type. -/
def Line.isDescribed (l : Line) : Bool :=
  !(variantType l).isEmpty

/-- A description, if there is one. -/
def description? (s : List Char) : Option String :=
  if s.isEmpty then none else some (String.ofList s)

/-- Reads a type that stands on the line. -/
def Line.readType (l : Line) (s : List Char) : Except Problem DocType :=
  match DocType.parse s with
  | .ok t => .ok t
  | .error fault => .error (l.problem (.type fault))

/-- The names before the colons of a list of type parameters. -/
def genericNames (s : List Char) : List String :=
  (Nesting.split (· == ',') s).map fun g => String.ofList (splitAtBlank ':' g).1

/-! ### Tags -/

/-- The words in front of a field name that say who may use the field. -/
def isVisibility (s : List Char) : Bool :=
  ["public", "private", "protected", "package"].contains (String.ofList s)

/-- The name of a parameter or of a field, and the text behind it. -/
def memberName (isField : Bool) (s : List Char) : List Char × List Char :=
  let r := splitAtBlank ' ' s
  if isField && isVisibility r.1 then splitAtBlank ' ' r.2 else r

/-- Reads the name, the type and the description of a parameter or of a field. -/
def readMember (l : Line) (isField : Bool) (s : List Char) : Except Problem Body :=
  let tag := if isField then "field" else "param"
  let (name, rest) := memberName isField s
  if name.isEmpty then .error (l.problem (.missingName tag))
  else
    let (typeText, description) := Nesting.splitDescription rest
    match DocType.parse typeText with
    | .error fault => .error (l.problem (.memberType tag (String.ofList name) fault))
    | .ok t =>
      let make := if isField then Body.field else Body.param
      .ok (make (String.ofList name) t (description? description))

/-- Reads the type and the description of a result. -/
def readReturn (l : Line) (s : List Char) : Except Problem Body := do
  let (typeText, description) := Nesting.splitDescription s
  return .returns (← l.readType typeText) (description? description)

/-- The union of the variants of an alias; a single one stands for itself. -/
def unionOf : List DocType → DocType
  | [t] => t
  | ts => .union ts

/-- Reads an alias.  Its type is the union of the variants below it, or, if they say nothing, what
stands behind its name. -/
def readAlias (l : Line) (variants : List Line) (s : List Char) : Except Problem Body := do
  let (name, rest) := splitAtBlank ' ' s
  let described := variants.filter Line.isDescribed
  if described.isEmpty then
    return .aliasOf (String.ofList name) (← l.readType rest)
  else
    let types ← described.mapM fun v => v.readType (variantType v)
    return .aliasOf (String.ofList name) (unionOf types)

/-- The name and the text of the type parameters of a class header. -/
def classHeader? (s : List Char) : Option (List Char × List Char) :=
  match s.takeWhile isDottedPart, s.dropWhile isDottedPart with
  | [], _ => none
  | name, [] => some (name, [])
  | name, '<' :: rest =>
    let inside := dropEnd rest 1
    if endsWith rest ['>'] && !inside.isEmpty && !inside.contains '\n' then some (name, inside)
    else none
  | _, _ => none

/-- Reads what stands behind the colon of a class annotation. -/
def readParent (l : Line) (s : List Char) : Except Problem Parent :=
  match s with
  | [] => .ok .none
  | '{' :: _ => do
    match ← l.readType s with
    | .table fields => .ok (.shape fields)
    | _ => .error (l.problem (.classShape (String.ofList s)))
  | _ => .ok (.named (String.ofList s))

/-- Reads a class annotation. -/
def readClass (l : Line) (s : List Char) : Except Problem Body := do
  let (header, parent) := Nesting.partition (· == ':') (dropAttributes s)
  match classHeader? header with
  | none => .error (l.problem (.classHeader (String.ofList s)))
  | some (name, generics) =>
    return .classHeader ⟨String.ofList name, genericNames generics, ← readParent l parent⟩

/-- Reads the annotation with the given tag; other tags say nothing. -/
def readTag (l : Line) (variants : List Line) (tag : String) (s : List Char) :
    Except Problem (Option Body) :=
  match tag with
  | "meta" => .ok (some .metaFile)
  | "enum" => .ok (some (.enum (String.ofList (splitAtBlank ' ' (dropAttributes s)).1)))
  | "alias" => some <$> readAlias l variants s
  | "class" => some <$> readClass l s
  | "generic" => .ok (some (.generic (genericNames s)))
  | "param" => some <$> readMember l false s
  | "field" => some <$> readMember l true s
  | "return" => some <$> readReturn l s
  | _ => .ok none

/-! ### Lines -/

/-- The tag of a line and the text behind it. -/
def Line.tagged? (l : Line) : Option (String × List Char) :=
  match l.text with
  | '-' :: '-' :: '-' :: '@' :: rest =>
    let (tag, s) := splitAtBlank ' ' (strip rest)
    some (String.ofList tag, s)
  | _ => none

/-- What a line without a tag says. -/
def readUntagged (l : Line) : Option Body :=
  match l.text with
  | '-' :: '-' :: '-' :: '|' :: _ => none
  | '-' :: '-' :: '-' :: rest => some (.comment (String.ofList (strip rest)))
  | _ => none

/-- What a line says, given the variants below it. -/
def readBody (l : Line) (variants : List Line) : Except Problem (Option Body) :=
  match l.tagged? with
  | some (tag, s) => readTag l variants tag s
  | none => .ok (readUntagged l)

/-- The directive of a line, given the variants below it. -/
def readLine (l : Line) (variants : List Line) : Except Problem (Option Directive) := do
  return (← readBody l variants).map fun b => ⟨l.number, b⟩

/-- The directives of a block of lines, in order.  The first line that cannot be read stops. -/
def parseLines : List Line → Except Problem (List Directive)
  | [] => .ok []
  | l :: ls => do
    let d ← readLine l (ls.takeWhile Line.isVariant)
    let ds ← parseLines ls
    return d.toList ++ ds

/-- The directives of lines that are numbered from one. -/
def parse (texts : List String) : Except Problem (List Directive) :=
  parseLines (texts.zipIdx.map fun p => Line.ofString (p.2 + 1) p.1)

end LuaAmbient.Directive
