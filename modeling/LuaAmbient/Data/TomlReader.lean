/-
Reading settings files.

A file is a sequence of lines, each of which opens a table, appends a table to a list or sets a
key.  What has been read is kept as a tree, in which a table remembers whether it may still be
opened or extended.

Main definitions:

* `LuaAmbient.Toml.Node` — the tree of what has been read;
* `LuaAmbient.Toml.setKey`, `LuaAmbient.Toml.openTable`, `LuaAmbient.Toml.appendTable` — what the
  three kinds of lines do to the tree;
* `LuaAmbient.Toml.value` — a value of any kind;
* `LuaAmbient.Toml.parse` — **the table that a text describes**.
-/

import LuaAmbient.Data.TomlScalar

set_option autoImplicit false

namespace LuaAmbient.Toml

/-! ### Tables under construction -/

/-- How far a table may still be changed. -/
inductive Extent where
  /-- It was only mentioned on the way to another table. -/
  | mentioned
  /-- It was written by dotted keys of the current section. -/
  | dotted
  /-- It has been written and cannot be opened again. -/
  | closed
deriving Repr, DecidableEq, Inhabited

/-- The tree of what has been read: values, tables, and lists of tables, the last table of which is
the current one. -/
inductive Node where
  | value (data : Data)
  | table (extent : Extent) (entries : List (String × Node))
  | tables (done : List Data) (entries : List (String × Node))
deriving Inhabited

mutual

/-- The value of a tree. -/
def Node.toData : Node → Data
  | .value d => d
  | .table _ entries => .record (entriesData entries)
  | .tables done entries => .list (done ++ [.record (entriesData entries)])

/-- The values of the entries of a table. -/
def entriesData : List (String × Node) → List (String × Data)
  | [] => []
  | (k, n) :: rest => (k, n.toData) :: entriesData rest

end

mutual

/-- The tree at the end of a section: what dotted keys wrote is closed. -/
def Node.settle : Node → Node
  | .value d => .value d
  | .table extent entries =>
    .table (if extent == .mentioned then .mentioned else .closed) (settleEntries entries)
  | .tables done entries => .tables done (settleEntries entries)

/-- The entries of a table at the end of a section. -/
def settleEntries : List (String × Node) → List (String × Node)
  | [] => []
  | (k, n) :: rest => (k, n.settle) :: settleEntries rest

end

/-- The entries of a table, as tables know them. -/
abbrev Entries := List (String × Node)

/-- Changes the entries of the table that a path leads to; tables on the way are made if they are
not there. -/
def atPath (change : Entries → Option Entries) : List String → Entries → Option Entries
  | [], entries => change entries
  | k :: path, entries =>
    match Keyed.get? entries k with
    | none => (atPath change path []).map fun inner => Keyed.put entries k (.table .mentioned inner)
    | some (.table extent inner) =>
      (atPath change path inner).map fun inner => Keyed.put entries k (.table extent inner)
    | some (.tables done inner) =>
      (atPath change path inner).map fun inner => Keyed.put entries k (.tables done inner)
    | some (.value _) => none

/-- Puts a value under a dotted key.  The tables on the way must not be closed. -/
def setDotted (data : Data) : List String → Entries → Option Entries
  | [], _ => none
  | [k], entries => if Keyed.has entries k then none else some (Keyed.put entries k (.value data))
  | k :: path, entries =>
    match Keyed.get? entries k with
    | none => (setDotted data path []).map fun inner => Keyed.put entries k (.table .dotted inner)
    | some (.table extent inner) =>
      if extent == .closed then none
      else (setDotted data path inner).map fun inner => Keyed.put entries k (.table .dotted inner)
    | some _ => none

/-- Sets a dotted key in the table of the current section. -/
def setKey (header : List String) (key : List String) (data : Data) : Entries → Option Entries :=
  atPath (setDotted data key) header

/-- The last part of a path, and the parts before it. -/
def splitPath (path : List String) : Option (List String × String) :=
  path.getLast?.map fun k => (path.dropLast, k)

/-- Opens a table, which must not have been written before. -/
def openTable (path : List String) (root : Entries) : Option Entries := do
  let (parents, k) ← splitPath path
  let change (entries : Entries) : Option Entries :=
    match Keyed.get? entries k with
    | none => some (Keyed.put entries k (.table .closed []))
    | some (.table .mentioned inner) => some (Keyed.put entries k (.table .closed inner))
    | some _ => none
  atPath change parents root

/-- Appends a table to a list, which is made if it is not there. -/
def appendTable (path : List String) (root : Entries) : Option Entries := do
  let (parents, k) ← splitPath path
  let change (entries : Entries) : Option Entries :=
    match Keyed.get? entries k with
    | none => some (Keyed.put entries k (.tables [] []))
    | some (.tables done inner) =>
      some (Keyed.put entries k (.tables (done ++ [.record (entriesData inner)]) []))
    | some _ => none
  atPath change parents root

/-! ### Keys and values -/

/-- A character of a key without quotes. -/
def isBareKey (c : Char) : Bool :=
  c.isAlphanum || c == '-' || c == '_'

/-- A part of a key. -/
def keyPart : Reader String := fun s =>
  match s with
  | '\'' :: rest => (literalString rest).map fun r => (String.ofList r.1, r.2)
  | '"' :: rest => (basicString rest).map fun r => (String.ofList r.1, r.2)
  | _ =>
    match s.takeWhile isBareKey with
    | [] => none
    | text => some (String.ofList text, s.dropWhile isBareKey)

/-- A key with dots between its parts.  Each part takes one step of the bound. -/
def keyWithin : Nat → Reader (List String)
  | 0, _ => none
  | bound + 1, s => do
    let (first, rest) ← keyPart s
    match skipInlineBlanks rest with
    | '.' :: rest =>
      let (others, rest) ← keyWithin bound (skipInlineBlanks rest)
      return (first :: others, rest)
    | rest => return ([first], rest)

/-- A key with dots between its parts, and blanks behind it. -/
def key : Reader (List String) := fun s =>
  keyWithin (s.length + 1) s

/-- The text behind a comment, if one starts it. -/
def skipComment (s : List Char) : Option (List Char) :=
  match s with
  | '#' :: rest =>
    if (rest.takeWhile (· != '\n')).any isControl then none
    else some (rest.dropWhile (· != '\n'))
  | _ => some s

/-- The text behind blanks, line breaks and comments. -/
def skipLines : Nat → List Char → Option (List Char)
  | 0, s => some s
  | bound + 1, s =>
    match s.dropWhile (fun c => isInlineBlank c || c == '\n') with
    | '#' :: rest => (skipComment ('#' :: rest)).bind (skipLines bound)
    | rest => some rest

/-- The text behind all blanks, line breaks and comments at its start. -/
def skipAll (s : List Char) : Option (List Char) :=
  skipLines (s.length + 1) s

mutual

/-- A value of any kind.  Every level of nesting and every further member takes one step of the
bound. -/
def value : Nat → ValueReader Data
  | 0, _ => .error .malformed
  | bound + 1, s =>
    match s with
    | '[' :: rest => do
      match ← skipAll rest with
      | ']' :: rest => return (.list [], rest)
      | rest =>
        let (values, rest) ← values bound rest
        return (.list values, rest)
    | '{' :: rest =>
      match skipInlineBlanks rest with
      | '}' :: rest => .ok (.record [], rest)
      | rest => do
        let (entries, rest) ← inlineEntries bound [] rest
        return (.record (entriesData entries), rest)
    | _ => scalar s

/-- The values of a list up to its closing bracket. -/
def values : Nat → ValueReader (List Data)
  | 0, _ => .error .malformed
  | bound + 1, s => do
    let (first, rest) ← value bound s
    match ← skipAll rest with
    | ']' :: rest => return ([first], rest)
    | ',' :: rest =>
      match ← skipAll rest with
      | ']' :: rest => return ([first], rest)
      | rest =>
        let (others, rest) ← values bound rest
        return (first :: others, rest)
    | _ => .error .malformed

/-- The entries of a table within a line up to its closing brace. -/
def inlineEntries : Nat → Entries → ValueReader Entries
  | 0, _, _ => .error .malformed
  | bound + 1, known, s => do
    let (path, data, rest) ← keyValue bound s
    let known ← setDotted data path known
    match skipInlineBlanks rest with
    | '}' :: rest => return (known, rest)
    | ',' :: rest => inlineEntries bound known (skipInlineBlanks rest)
    | _ => .error .malformed

/-- A key, an equals sign and a value. -/
def keyValue : Nat → List Char → Except Fault (List String × Data × List Char)
  | 0, _ => .error .malformed
  | bound + 1, s => do
    let (path, rest) ← key s
    match rest with
    | '=' :: rest =>
      let (data, rest) ← value bound (skipInlineBlanks rest)
      return (path, data, rest)
    | _ => .error .malformed

end

/-! ### Lines -/

/-- What has been read of a file: its tree and the section that is open. -/
structure State where
  root : Entries
  header : List String
deriving Inhabited

/-- Reads the line that opens a table or appends a table, its first bracket having been read. -/
def headerLine (st : State) (s : List Char) : Option (State × List Char) := do
  let root := settleEntries st.root
  match s with
  | '[' :: rest =>
    let (path, rest) ← key (skipInlineBlanks rest)
    let root ← appendTable path root
    match rest with
    | ']' :: ']' :: rest => return (⟨root, path⟩, rest)
    | _ => none
  | _ =>
    let (path, rest) ← key (skipInlineBlanks s)
    let root ← openTable path root
    match rest with
    | ']' :: rest => return (⟨root, path⟩, rest)
    | _ => none

/-- Reads what a line says. -/
def statement (st : State) (s : List Char) : Except Fault (State × List Char) := do
  match s with
  | '[' :: rest => headerLine st rest
  | c :: _ =>
    if isBareKey c || c == '"' || c == '\'' then
      let (path, data, rest) ← keyValue (2 * s.length + 2) s
      let root ← setKey st.header path data st.root
      return (⟨root, st.header⟩, rest)
    else if c == '#' then return (st, s)
    else .error .malformed
  | [] => return (st, s)

/-- Reads the lines of a file.  Each line takes one step of the bound. -/
def lines : Nat → State → List Char → Except Fault State
  | 0, st, _ => .ok st
  | bound + 1, st, s =>
    match skipInlineBlanks s with
    | [] => .ok st
    | '\n' :: rest => lines bound st rest
    | s => do
      let (st, rest) ← statement st s
      match ← skipComment (skipInlineBlanks rest) with
      | [] => return st
      | '\n' :: rest => lines bound st rest
      | _ => .error .malformed

/-- Line feeds with a carriage return in front are line feeds. -/
def dropReturns : List Char → List Char
  | [] => []
  | '\r' :: '\n' :: rest => '\n' :: dropReturns rest
  | c :: rest => c :: dropReturns rest

/-- The table that a text describes. -/
def parse (text : List Char) : Except Fault Data :=
  let s := dropReturns text
  (lines (s.length + 1) ⟨[], []⟩ s).map fun st => .record (entriesData st.root)

end LuaAmbient.Toml
