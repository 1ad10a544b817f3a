/-
Declaration files with their imports.

Every name that a file refers to is imported from the file that exports it, or stubbed if no file
does.

Main definitions:

* `LuaAmbient.Emission.Exporters` — who exports which name;
* `LuaAmbient.Emission.Exporters.owner?`, `LuaAmbient.Emission.Exporters.duplicates` — the file that
  a name is imported from, and the names that several files export;
* `LuaAmbient.Emission.stub` — the declaration of a name that no file exports;
* `LuaAmbient.Emission.DeclarationFile`, `LuaAmbient.Emission.complete` — a declaration file;
* `LuaAmbient.Emission.produce` — **the declaration files of several sources**.
-/

import LuaAmbient.Emission.Body
import LuaAmbient.SourcePath

set_option autoImplicit false

namespace LuaAmbient.Emission

open LuaAmbient.Text

/-! ### Owners -/

/-- The exported names with the files that export them, in the order of paths: those of files known
from earlier runs and those of files of this run. -/
structure Exporters where
  cached : List (String × String)
  processed : List (String × String)
deriving Repr, DecidableEq, Inhabited

namespace Exporters

/-- Names paired with the path that exports them. -/
def exportsOf (path : String) (names : List String) : List (String × String) :=
  names.map fun n => (n, path)

/-- The index of the files of this run and, for other paths, of earlier runs. -/
def build (drafts : List Draft) (graph : List (String × List String)) : Exporters :=
  let other := graph.filter fun e => !drafts.any fun r => r.path == e.1
  let sortedFiles := sortBy (fun a b => decide (a.path ≤ b.path)) drafts
  { cached := (Keyed.sorted other).flatMap fun e => exportsOf e.1 e.2
    processed := sortedFiles.flatMap fun r => exportsOf r.path r.exported }

/-- The path that stands last beside a name. -/
def last? (pairs : List (String × String)) (name : String) : Option String :=
  (pairs.reverse.find? fun p => p.1 == name).map (·.2)

/-- The file that a name is imported from: the last file of this run that exports it, or else the
last file of earlier runs. -/
def owner? (index : Exporters) (name : String) : Option String :=
  (last? index.processed name).or (last? index.cached name)

/-- All exported names, sorted. -/
def names (index : Exporters) : List String :=
  sortNames ((index.cached ++ index.processed).map (·.1))

/-- The files that export a name, sorted. -/
def exporters (index : Exporters) (name : String) : List String :=
  orderNames (((index.cached ++ index.processed).filter fun p => p.1 == name).map (·.2))

/-- Every exported name with its owner. -/
def owners (index : Exporters) : List (String × String) :=
  index.names.filterMap fun n => (index.owner? n).map fun o => (n, o)

/-- The names that are exported more than once, with their exporters. -/
def duplicates (index : Exporters) : List (String × List String) :=
  (index.names.map fun n => (n, index.exporters n)).filter fun p => 1 < p.2.length

/-- The warnings about names that are exported more than once. -/
def warnings (index : Exporters) : List Log.Entry :=
  index.duplicates.map fun p =>
    ⟨.warning, "'" ++ p.1 ++ "' is exported by " ++ joinWith ", " p.2 ++ "; using " ++
      (index.owner? p.1).getD ""⟩

end Exporters

/-! ### Stubs -/

/-- The stubs of handle types that are known to be opaque; an empty one declares nothing. -/
def knownStubs : List (String × String) :=
  [("TWeakObjectPtr", "type TWeakObjectPtr<T = any> = unknown;"),
    ("TObjectPtr", "type TObjectPtr<T = any> = unknown;"),
    ("TFieldPath", "type TFieldPath<T = any> = unknown;"),
    ("TLazyObjectPtr", "type TLazyObjectPtr<T = any> = unknown;"),
    ("RemoteObject", "")]

/-- The declaration of a name that no file exports: the configured one, or that of a known handle
type, or an unknown type. -/
def stub (configured : List (String × String)) (name : String) : String :=
  ((Keyed.get? configured name).or (Keyed.get? knownStubs name)).getD
    ("type " ++ name ++ " = unknown;")

/-! ### Declaration files -/

/-- The comment at the head of every declaration file. -/
def banner : String :=
  "/**\n ** luats generated file\n*/\n\n\n"

/-- A declaration file with the names that it exports, refers to and stubs, and the names that it
imports from each other file. -/
structure DeclarationFile where
  path : String
  text : String
  exports : List String
  imports : List String
  missing : List String
  importMap : List (String × List String)
deriving Repr, DecidableEq, Inhabited

/-- The names to import from each owner, both sorted. -/
def importMap (index : Exporters) (foreign : List String) : List (String × List String) :=
  (sortNames (foreign.filterMap index.owner?)).map fun owner =>
    (owner, foreign.filter fun n => index.owner? n == some owner)

/-- The names that no file exports. -/
def missingNames (index : Exporters) (foreign : List String) : List String :=
  foreign.filter fun n => (index.owner? n).isNone

/-- The line that imports names from the file of an owner. -/
def importLine (path owner : String) (names : List String) : Except SourcePath.Fault String := do
  let place ← SourcePath.importPath path owner
  return "import type \x7b " ++ joinWith ", " names ++ " \x7d from \"" ++ place ++ "\";"

/-- The import lines of a file, with an empty line behind them; nothing if there are none. -/
def importText (path : String) (imports : List (String × List String)) :
    Except SourcePath.Fault String := do
  let lines ← imports.mapM fun e => importLine path e.1 e.2
  return if lines.isEmpty then "" else joinWith "\n" lines ++ "\n\n"

/-- The stubs of a file between their two marks; nothing if there are none. -/
def stubText (configured : List (String × String)) (missing : List String) : String :=
  if missing.isEmpty then ""
  else
    let stubs := (missing.map (stub configured)).filter fun s => !s.isEmpty
    "// Unresolved dependencies\n" ++ concat (stubs.map (· ++ "\n")) ++ "// -------------\n\n"

/-- Puts the imports in front of a written file and the stubs behind it. -/
def complete (configured : List (String × String)) (index : Exporters) (file : Draft) :
    Except SourcePath.Fault DeclarationFile := do
  let imports := importMap index file.foreign
  let missing := missingNames index file.foreign
  let head ← importText file.path imports
  return {
    path := file.path
    text := head ++ banner ++ file.body ++ stubText configured missing
    exports := file.exported
    imports := file.foreign
    missing := missing
    importMap := imports }

/-! ### Several files -/

/-- The files in the order of their paths; files of one path stay in their order. -/
def sortFiles (files : List SourceDeclarations) : List SourceDeclarations :=
  sortBy (fun a b => decide (a.path ≤ b.path)) files

/-- The written files in the order of their paths; of two files of one path the later counts. -/
def draftAll (files : List SourceDeclarations) : List Draft :=
  (Keyed.ofList ((sortFiles files).map fun f => (f.path, Draft.ofFile f))).map (·.2)

/-- The declaration files of several sources in the order of their paths, and the notes and warnings
made on the way.  The graph tells what the files of earlier runs export. -/
def produce (configured : List (String × String)) (files : List SourceDeclarations)
    (graph : List (String × List String)) :
    Except SourcePath.Fault (List DeclarationFile) × List Log.Entry :=
  let drafts := draftAll files
  let index := Exporters.build drafts graph
  (drafts.mapM (complete configured index), (sortFiles files).flatMap notes ++ index.warnings)

end LuaAmbient.Emission
