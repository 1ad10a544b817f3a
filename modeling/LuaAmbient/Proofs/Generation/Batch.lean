/-
Batches of sources, whatever the order in which they are finished.

Main definitions:

* `LuaAmbient.Generation.sourceOf` — the declarations of one source;
* `LuaAmbient.Generation.Complete` — a schedule that finishes every source of a batch once.

Main results:

* `LuaAmbient.Generation.mem_parsed_readBatch`, `LuaAmbient.Generation.mem_failed_readBatch` — **a
  batch holds the declarations of its sources and the sources that failed, in whatever order they
  are finished**.
-/

import LuaAmbient.Generation.Batch
import LuaAmbient.Proofs.Keyed

set_option relaxedAutoImplicit false
set_option autoImplicit false

namespace LuaAmbient.Generation

/-- The declarations of one source. -/
def sourceOf (reader : SourceReader) (texts : List (String × String)) (path : String) :
    Except Directive.Problem SourceDeclarations :=
  (SourceDeclarations.ofSource reader path ((Keyed.get? texts path).getD "").toList).1

/-- A schedule that finishes every source of a batch once. -/
def Complete (schedule : Schedule) : Prop :=
  ∀ paths, (schedule paths).Perm paths

variable {reader : SourceReader} {texts : List (String × String)}

/-- The source with its declarations, if it has them. -/
def parsedOf (reader : SourceReader) (texts : List (String × String)) (path : String) :
    Option (String × SourceDeclarations) :=
  (sourceOf reader texts path).toOption.map fun file => (path, file)

theorem parsedOf_eq_some_iff {path : String} {q : String × SourceDeclarations} :
    parsedOf reader texts path = some q ↔ q.1 = path ∧ sourceOf reader texts path = .ok q.2 := by
  rw [parsedOf]
  cases sourceOf reader texts path with
  | error problem => simp [Except.toOption]
  | ok file =>
      simp only [Except.toOption, Option.map_some, Option.some.injEq, Except.ok.injEq]
      constructor
      · rintro rfl
        exact ⟨rfl, rfl⟩
      · rintro ⟨rfl, rfl⟩
        rfl

theorem add_parsed (batch : Batch) (path : String) :
    (batch.add reader texts path).parsed = batch.parsed ++ (parsedOf reader texts path).toList := by
  rw [Batch.add, parsedOf, sourceOf]
  split <;> simp_all [Except.toOption]

theorem add_failed (batch : Batch) (path : String) :
    (batch.add reader texts path).failed =
      batch.failed ++ if (sourceOf reader texts path).isOk then [] else [path] := by
  rw [Batch.add, sourceOf]
  split <;> simp_all [Except.isOk, Except.toBool]

theorem foldl_add_parsed (paths : List String) (batch : Batch) :
    (paths.foldl (Batch.add reader texts) batch).parsed =
      batch.parsed ++ paths.filterMap (parsedOf reader texts) := by
  induction paths generalizing batch with
  | nil => simp
  | cons path paths ih =>
      rw [List.foldl_cons, ih, add_parsed, List.filterMap_cons]
      cases parsedOf reader texts path <;> simp

theorem foldl_add_failed (paths : List String) (batch : Batch) :
    (paths.foldl (Batch.add reader texts) batch).failed =
      batch.failed ++ paths.filter fun p => !(sourceOf reader texts p).isOk := by
  induction paths generalizing batch with
  | nil => simp
  | cons path paths ih =>
      rw [List.foldl_cons, ih, add_failed, List.filter_cons]
      cases (sourceOf reader texts path).isOk <;> simp

theorem readBatch_parsed (schedule : Schedule) (paths : List String) :
    (readBatch schedule reader texts paths).parsed =
      (schedule paths).filterMap (parsedOf reader texts) := by
  rw [readBatch, foldl_add_parsed]
  rfl

section Complete

variable {schedule : Schedule} (hs : Complete schedule)

include hs

/-- A batch holds the declarations of its sources. -/
theorem mem_parsed_readBatch {paths : List String} {q : String × SourceDeclarations} :
    q ∈ (readBatch schedule reader texts paths).parsed ↔
      q.1 ∈ paths ∧ sourceOf reader texts q.1 = .ok q.2 := by
  simp only [readBatch_parsed, List.mem_filterMap, parsedOf_eq_some_iff, (hs paths).mem_iff]
  constructor
  · rintro ⟨path, hp, rfl, hq⟩
    exact ⟨hp, hq⟩
  · rintro ⟨hp, hq⟩
    exact ⟨q.1, hp, rfl, hq⟩

theorem nodup_keys_parsed_readBatch {paths : List String} (hn : paths.Nodup) :
    (Keyed.keys (readBatch schedule reader texts paths).parsed).Nodup := by
  have hk : Keyed.keys (readBatch schedule reader texts paths).parsed =
      (schedule paths).filter fun p => (sourceOf reader texts p).isOk := by
    rw [readBatch_parsed, Keyed.keys]
    induction schedule paths with
    | nil => rfl
    | cons path paths ih =>
        rw [List.filterMap_cons, List.filter_cons, ← ih, parsedOf]
        cases sourceOf reader texts path <;> simp [Except.toOption, Except.isOk, Except.toBool]
  rw [hk]
  exact ((hs paths).nodup_iff.2 hn).filter _

/-- A batch holds the sources that failed. -/
theorem mem_failed_readBatch {paths : List String} {path : String} :
    path ∈ (readBatch schedule reader texts paths).failed ↔
      path ∈ paths ∧ ∃ problem, sourceOf reader texts path = .error problem := by
  rw [readBatch, mem_orderNames, foldl_add_failed]
  simp only [Batch.empty, List.nil_append, List.mem_filter, (hs paths).mem_iff]
  refine and_congr_right ?_
  intro _
  cases sourceOf reader texts path <;> simp [Except.isOk, Except.toBool]

theorem failed_readBatch_eq_nil {paths : List String} :
    (readBatch schedule reader texts paths).failed = [] ↔
      ∀ path ∈ paths, ∃ file, sourceOf reader texts path = .ok file := by
  rw [List.eq_nil_iff_forall_not_mem]
  simp only [mem_failed_readBatch hs, not_and, not_exists]
  refine forall_congr' fun path => imp_congr_right ?_
  intro _
  cases sourceOf reader texts path <;> simp

end Complete

end LuaAmbient.Generation
