/-
Batches of sources that are read independently of each other.

Main definitions:

* `LuaAmbient.Generation.Batch` — the declarations of the sources of a batch, and those that failed;
* `LuaAmbient.Generation.readBatch` — **the batch of given sources, finished in the order of a
  schedule**.
-/

import LuaAmbient.Generation.Basic
import LuaAmbient.Report

set_option autoImplicit false

namespace LuaAmbient.Generation

/-- The declarations of the sources of a batch, in the order in which they were finished, the
sources that failed, and the messages. -/
structure Batch where
  parsed : List (String × SourceDeclarations)
  failed : List String
  log : List Log.Entry
deriving Repr, Inhabited

/-- The batch of no sources. -/
def Batch.empty : Batch :=
  ⟨[], [], []⟩

/-- The batch with one more source. -/
def Batch.add (reader : SourceReader) (texts : List (String × String)) (batch : Batch)
    (path : String) : Batch :=
  let text := (Keyed.get? texts path).getD ""
  match SourceDeclarations.ofSource reader path text.toList with
  | (.ok file, log) =>
    { batch with
      parsed := batch.parsed ++ [(path, file)]
      log := batch.log ++ log ++ [⟨.debug, "Parsed " ++ path⟩] }
  | (.error problem, log) =>
    { batch with
      failed := batch.failed ++ [path]
      log := batch.log ++ log ++ [⟨.error, (problem.report.inFile path).describe⟩] }

/-- The batch of the given sources; those that failed are sorted. -/
def readBatch (schedule : Schedule) (reader : SourceReader) (texts : List (String × String))
    (paths : List String) : Batch :=
  let batch := (schedule paths).foldl (Batch.add reader texts) Batch.empty
  { batch with failed := orderNames batch.failed }

end LuaAmbient.Generation
