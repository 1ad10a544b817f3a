/-
**A run does not depend on the order in which its sources are finished.**

The sources of a batch are read independently of each other and finish in an order that nobody
controls.  This order decides in which order their declarations are collected, and from there it goes
into the comparison with the cache, the choice of the second batch, the emission and the cache that is
written.  Each of these sorts what it is given or asks for members only, so all of them forget the
order.  What is left of it is the order of the messages.

Main definitions:

* `LuaAmbient.Generation.messagesOf` — what is said while one source is read;
* `LuaAmbient.Generation.Reading.Reordered` — two readings that differ in the order of the sources and
  of the messages;
* `LuaAmbient.Generation.Outcome.Reordered` — **two outcomes that differ in the order of the messages
  alone**.

Main results:

* `LuaAmbient.Generation.readBatch_failed_congr`, `LuaAmbient.Generation.readBatch_parsed_perm`,
  `LuaAmbient.Generation.readBatch_log_perm` — one batch in two orders;
* `LuaAmbient.Emission.produce_congr_perm` — the emission forgets the order of its sources;
* `LuaAmbient.Generation.read_reordered` — both batches in two orders;
* `LuaAmbient.Generation.generate_reordered` — **a run in two orders**.
-/

import LuaAmbient.Proofs.Generation.Accounting

set_option relaxedAutoImplicit false
set_option autoImplicit false

namespace LuaAmbient

/-! ### The emission -/

namespace Emission

/-- Files of distinct paths are sorted in one way. -/
theorem sortFiles_congr_perm {files files' : List SourceDeclarations}
    (hn : (files.map (·.path)).Nodup) (h : files.Perm files') :
    sortFiles files = sortFiles files' := by
  have hs : (sortFiles files).Perm (sortFiles files') :=
    (sortFiles_perm files).trans (h.trans (sortFiles_perm files').symm)
  refine List.Perm.eq_of_pairwise ?_ (sortFiles_pairwise files) (sortFiles_pairwise files') hs
  intro f g hf hg hfg hgf
  have hf : f ∈ files := (sortFiles_perm files).mem_iff.1 hf
  have hg : g ∈ files := h.mem_iff.2 ((sortFiles_perm files').mem_iff.1 hg)
  exact List.inj_on_of_nodup_map hn hf hg (le_antisymm hfg hgf)

/-- The emission forgets the order of its sources. -/
theorem produce_congr_perm (configured : List (String × String))
    {files files' : List SourceDeclarations} (graph : List (String × List String))
    (hn : (files.map (·.path)).Nodup) (h : files.Perm files') :
    produce configured files graph = produce configured files' graph := by
  have hd : draftAll files = draftAll files' := by
    rw [draftAll, draftAll, sortFiles_congr_perm hn h]
  rw [produce, produce, hd, sortFiles_congr_perm hn h]

end Emission

namespace Generation

open Emission

/-! ### One batch -/

/-- What is said while one source is read. -/
def messagesOf (reader : SourceReader) (texts : List (String × String)) (path : String) :
    List Log.Entry :=
  match SourceDeclarations.ofSource reader path ((Keyed.get? texts path).getD "").toList with
  | (.ok _, log) => log ++ [⟨.debug, "Parsed " ++ path⟩]
  | (.error problem, log) => log ++ [⟨.error, (problem.report.inFile path).describe⟩]

section Batch

variable {reader : SourceReader} {texts : List (String × String)}

theorem add_log (batch : Batch) (path : String) :
    (batch.add reader texts path).log = batch.log ++ messagesOf reader texts path := by
  rw [Batch.add, messagesOf]
  split <;> simp_all

theorem foldl_add_log (paths : List String) (batch : Batch) :
    (paths.foldl (Batch.add reader texts) batch).log =
      batch.log ++ paths.flatMap (messagesOf reader texts) := by
  induction paths generalizing batch with
  | nil => simp
  | cons path paths ih => rw [List.foldl_cons, ih, add_log, List.flatMap_cons, List.append_assoc]

theorem readBatch_log (schedule : Schedule) (paths : List String) :
    (readBatch schedule reader texts paths).log =
      (schedule paths).flatMap (messagesOf reader texts) := by
  rw [readBatch, foldl_add_log]
  rfl

theorem readBatch_failed (schedule : Schedule) (paths : List String) :
    (readBatch schedule reader texts paths).failed =
      orderNames ((schedule paths).filter fun p => !(sourceOf reader texts p).isOk) := by
  rw [readBatch, foldl_add_failed]
  rfl

variable {schedule schedule' : Schedule} (hs : Complete schedule) (hs' : Complete schedule')

include hs hs'

theorem Complete.perm (paths : List String) : (schedule paths).Perm (schedule' paths) :=
  (hs paths).trans (hs' paths).symm

variable (reader texts)

theorem readBatch_failed_congr (paths : List String) :
    (readBatch schedule reader texts paths).failed =
      (readBatch schedule' reader texts paths).failed := by
  rw [readBatch_failed, readBatch_failed]
  exact orderNames_congr ((hs.perm hs' paths).filter _)

theorem readBatch_parsed_perm (paths : List String) :
    (readBatch schedule reader texts paths).parsed.Perm
      (readBatch schedule' reader texts paths).parsed := by
  rw [readBatch_parsed, readBatch_parsed]
  exact (hs.perm hs' paths).filterMap _

theorem readBatch_log_perm (paths : List String) :
    (readBatch schedule reader texts paths).log.Perm
      (readBatch schedule' reader texts paths).log := by
  rw [readBatch_log, readBatch_log]
  exact (hs.perm hs' paths).flatMap_right _

end Batch

/-! ### Both batches -/

/-- Two readings that differ in the order of the sources and of the messages. -/
structure Reading.Reordered (r r' : Reading) : Prop where
  parsed : r.parsed.Perm r'.parsed
  failed : r.failed = r'.failed
  skipped : r.skipped = r'.skipped
  cache : r.cache = r'.cache
  log : r.log.Perm r'.log

theorem changedExports_perm (cache : RunCache) {parsed parsed' : List (String × SourceDeclarations)}
    (h : parsed.Perm parsed') : (changedExports cache parsed).Perm (changedExports cache parsed') :=
  h.flatMap_right _

/-- Whether a cached file uses a name of a list depends on the members of the list only. -/
theorem usesAny_congr (cache : RunCache) {names names' : List String} (h : names.Perm names') :
    usesAny cache names = usesAny cache names' := by
  funext path
  rw [usesAny, usesAny]
  cases cache.entry? path with
  | none => rfl
  | some e => exact h.any_eq

section Read

variable {σ : Type} {schedule schedule' : Schedule} (hs : Complete schedule)
  (hs' : Complete schedule') (request : Request) (s : Survey σ)

include hs hs'

/-- The second batch is the same, since the first one has the same members. -/
theorem reread_congr : reread schedule request s = reread schedule' request s := by
  have hfailed := readBatch_failed_congr request.reader s.texts hs hs' s.changed
  have hparsed := readBatch_parsed_perm request.reader s.texts hs hs' s.changed
  rw [reread, reread, hfailed]
  congr 1
  refine usesAny_congr _ ?_
  exact ((changedExports_perm _ hparsed).append_right _).append_right _

theorem read_cache_congr :
    (read schedule request s).cache = (read schedule' request s).cache := by
  have hfailed := readBatch_failed_congr request.reader s.texts hs hs' s.changed
  change s.cache.keepOnly (dropNames _ (readBatch schedule request.reader _ _).failed) = _
  rw [hfailed]
  rfl

theorem read_log_perm :
    (read schedule request s).log.Perm (read schedule' request s).log := by
  have hr := reread_congr hs hs' request s
  change ((readBatch schedule request.reader s.texts s.changed).log ++
      dependentsMessage (reread schedule request s) ++
        (readBatch schedule request.reader s.texts (reread schedule request s)).log).Perm
    ((readBatch schedule' request.reader s.texts s.changed).log ++
      dependentsMessage (reread schedule' request s) ++
        (readBatch schedule' request.reader s.texts (reread schedule' request s)).log)
  rw [hr]
  have hfirst := readBatch_log_perm request.reader s.texts hs hs' s.changed
  exact (hfirst.append_right _).append (readBatch_log_perm _ _ hs hs' _)

/-- Both batches in two orders. -/
theorem read_reordered :
    (read schedule request s).Reordered (read schedule' request s) := by
  have hr := reread_congr hs hs' request s
  exact {
    parsed := by
      rw [read_parsed, read_parsed, hr]
      exact (readBatch_parsed_perm _ _ hs hs' _).append (readBatch_parsed_perm _ _ hs hs' _)
    failed := by
      rw [read_failed, read_failed, hr, readBatch_failed_congr _ _ hs hs',
        readBatch_failed_congr _ _ hs hs']
    skipped := by rw [read_skipped, read_skipped, hr]
    cache := read_cache_congr hs hs' request s
    log := read_log_perm hs hs' request s }

end Read

/-! ### The run -/

/-- Two outcomes that differ in the order of the messages alone. -/
structure Outcome.Reordered {σ : Type} (o o' : Outcome σ) : Prop where
  output : o.output = o'.output
  result : o.result = o'.result
  log : o.log.Perm o'.log

section Run

variable {σ : Type} [OutputStore σ] {digest : String → String} {request : Request}

/-- The order in which the sources were collected plays no part in what is written. -/
theorem writeAll_congr {s : Survey σ} {r r' : Reading} (h : r.Reordered r') (out : σ)
    (emitted : List DeclarationFile) :
    writeAll digest request s r out emitted = writeAll digest request s r' out emitted := by
  have hreport : report s r emitted = report s r' emitted := by
    rw [report, report, h.failed, h.skipped]
  rw [writeAll, writeAll, hreport, h.cache]

/-- Two readings that differ in order only are finished alike. -/
theorem finish_reordered {schedule schedule' : Schedule} {s : Survey σ}
    (hn : ((read schedule request s).parsed.map fun q => q.2.path).Nodup)
    (h : (read schedule request s).Reordered (read schedule' request s)) :
    (finish digest schedule request s).Reordered (finish digest schedule' request s) := by
  have hleft : removeOutputs "Removed stale output " (sortNames (read schedule' request s).failed)
      s.output = removeOutputs "Removed stale output " (sortNames (read schedule request s).failed)
      s.output := by rw [h.failed]
  have hproduce : produce request.settings.stubs ((read schedule' request s).parsed.map (·.2))
        (read schedule' request s).cache.graph =
      produce request.settings.stubs ((read schedule request s).parsed.map (·.2))
        (read schedule request s).cache.graph := by
    rw [← h.cache]
    exact (produce_congr_perm _ _ (by rwa [List.map_map]) (h.parsed.map _)).symm
  rw [finish_eq digest schedule request s rfl rfl, finish_eq digest schedule' request s rfl hleft,
    hproduce]
  -- what follows the emission is the same, and before it only the log of the reading differs
  split
  · exact ⟨rfl, rfl, ((h.log.append_left _).append_right _).append_right _⟩
  · rw [← writeAll_congr h]
    exact ⟨rfl, rfl, (((h.log.append_left _).append_right _).append_right _).append_right _⟩

/-- **A run in two orders.**  Whatever its sources, the files that it finds and the cache among them,
a run leaves the same files and reports the same, and its messages are the same up to their order. -/
theorem generate_reordered (digest : String → String) (request : Request)
    {schedule schedule' : Schedule} (hs : Complete schedule) (hs' : Complete schedule')
    (sources : List (String × Option String)) (out : σ) :
    (generate digest schedule request sources out).Reordered
      (generate digest schedule' request sources out) := by
  rcases hl : loadCache request out with ⟨cache, log⟩
  rw [generate, generate, hl]
  refine finish_reordered ?_ (read_reordered hs hs' request _)
  have hk := @nodup_keys_parsed_read σ _ digest schedule request sources out cache log hs
  rw [Keyed.keys] at hk
  rwa [List.map_congr_left fun q hq => path_parsed_read hs hq]

end Run

end Generation

end LuaAmbient
