/-
Who exports a name.

The index of exporters is built from the files of a run and from what earlier runs have recorded.  Of
the files of one group the one with the greatest path owns a name; the files of the run come before
the recorded ones.

Main results:

* `LuaAmbient.Emission.Exporters.last?_eq_some_iff` — the path that stands last beside a name is the
  greatest one;
* `LuaAmbient.Emission.Exporters.owner?_eq_some_iff` — **the owner of a name**: the greatest exporter
  among the files of the run, or else the greatest recorded one;
* `LuaAmbient.Emission.Exporters.owner?_eq_none_iff` — a name without an owner has no exporter at all;
* `LuaAmbient.Emission.Exporters.owner?_build_nil` — without records the owner is the greatest exporter.
-/

import LuaAmbient.Emission.Module
import LuaAmbient.Proofs.Keyed
import Mathlib.Data.List.Induction
import Mathlib.Order.Bounds.Basic

set_option relaxedAutoImplicit false
set_option autoImplicit false

namespace LuaAmbient.Emission

namespace Exporters

/-! ### The last path beside a name -/

@[simp] theorem mem_exportsOf {path : String} {names : List String} {p : String × String} :
    p ∈ exportsOf path names ↔ p.1 ∈ names ∧ p.2 = path := by
  constructor
  · intro h
    obtain ⟨n, hn, rfl⟩ := List.mem_map.1 h
    exact ⟨hn, rfl⟩
  · rintro ⟨hn, hp⟩
    exact List.mem_map.2 ⟨p.1, hn, by rw [← hp]⟩

theorem last?_eq_none_iff {pairs : List (String × String)} {name : String} :
    last? pairs name = none ↔ ∀ path, (name, path) ∉ pairs := by
  simp only [last?, Option.map_eq_none_iff, List.find?_eq_none, List.mem_reverse, beq_iff_eq]
  constructor
  · intro h path hp
    exact h _ hp rfl
  · rintro h p hp rfl
    exact h p.2 hp

theorem last?_append (a b : List (String × String)) (name : String) :
    last? (a ++ b) name = (last? b name).or (last? a name) := by
  rw [last?, last?, last?, List.reverse_append, List.find?_append, Option.map_or]

/-- If the paths stand in their order, the last one beside a name is the greatest. -/
theorem last?_eq_some_iff {pairs : List (String × String)} (h : pairs.Pairwise fun a b => a.2 ≤ b.2)
    {name path : String} :
    last? pairs name = some path ↔ IsGreatest {p | (name, p) ∈ pairs} path := by
  induction pairs using List.reverseRecOn with
  | nil => simp [last?, IsGreatest]
  | append_singleton pairs q ih =>
      rw [List.pairwise_append] at h
      have hq : ∀ p ∈ pairs, p.2 ≤ q.2 := fun p hp => h.2.2 p hp q (List.mem_singleton_self q)
      rw [last?_append]
      by_cases hn : q.1 = name
      · subst hn
        have hl : last? [q] q.1 = some q.2 := by simp [last?]
        rw [hl, Option.some_or, Option.some.injEq]
        constructor
        · rintro rfl
          refine ⟨by simp, ?_⟩
          rintro p hp
          rcases List.mem_append.1 hp with hp | hp
          · exact hq _ hp
          · exact le_of_eq (congrArg Prod.snd (List.mem_singleton.1 hp))
        · rintro ⟨hm, hu⟩
          refine le_antisymm (hu (by simp)) ?_
          rcases List.mem_append.1 hm with hp | hp
          · exact hq _ hp
          · exact le_of_eq (congrArg Prod.snd (List.mem_singleton.1 hp))
      · have hl : last? [q] name = none := by simp [last?, hn]
        have hs : {p | (name, p) ∈ pairs ++ [q]} = {p | (name, p) ∈ pairs} := by
          ext p
          simp only [Set.mem_ofPred_eq, List.mem_append, List.mem_singleton, or_iff_left_iff_imp]
          rintro rfl
          exact absurd rfl hn
        rw [hl, Option.none_or, ih h.1, hs]

/-! ### Paths in their order -/

/-- Groups of names in the order of their paths, taken apart. -/
theorem pairwise_flatMap_exportsOf {α : Type} (path : α → String) (names : α → List String)
    {l : List α} (h : l.Pairwise fun a b => path a ≤ path b) :
    (l.flatMap fun a => exportsOf (path a) (names a)).Pairwise fun a b => a.2 ≤ b.2 := by
  rw [List.pairwise_flatMap]
  refine ⟨fun a _ => ?_, h.imp fun hab p hp q hq => ?_⟩
  · refine List.pairwise_of_forall_mem_list ?_
    intro p hp q hq
    rw [(mem_exportsOf.1 hp).2, (mem_exportsOf.1 hq).2]
  · rw [(mem_exportsOf.1 hp).2, (mem_exportsOf.1 hq).2]
    exact hab

theorem sortDrafts_pairwise (drafts : List Draft) :
    (sortBy (fun a b => decide (a.path ≤ b.path)) drafts).Pairwise fun a b => a.path ≤ b.path :=
  pairwise_sortBy_key Draft.path drafts

theorem processed_pairwise (drafts : List Draft) (graph : List (String × List String)) :
    (build drafts graph).processed.Pairwise fun a b => a.2 ≤ b.2 :=
  pairwise_flatMap_exportsOf Draft.path Draft.exported (sortDrafts_pairwise drafts)

theorem cached_pairwise (drafts : List Draft) (graph : List (String × List String)) :
    (build drafts graph).cached.Pairwise fun a b => a.2 ≤ b.2 :=
  pairwise_flatMap_exportsOf Prod.fst Prod.snd (Keyed.sorted_pairwise _)

/-! ### Exporters -/

/-- The files of a run that export a name. -/
def processedExporters (drafts : List Draft) (name : String) : Set String :=
  {path | ∃ d ∈ drafts, d.path = path ∧ name ∈ d.exported}

/-- The recorded files that export a name and are not among the files of the run. -/
def cachedExporters (drafts : List Draft) (graph : List (String × List String)) (name : String) :
    Set String :=
  {path | ∃ names, (path, names) ∈ graph ∧ name ∈ names ∧ ∀ d ∈ drafts, d.path ≠ path}

theorem mem_processed_build {drafts : List Draft} {graph : List (String × List String)}
    {name path : String} :
    (name, path) ∈ (build drafts graph).processed ↔ path ∈ processedExporters drafts name := by
  simp only [build, List.mem_flatMap, mem_sortBy, mem_exportsOf, processedExporters,
    Set.mem_ofPred_eq]
  constructor
  · rintro ⟨d, hd, hn, hp⟩
    exact ⟨d, hd, hp.symm, hn⟩
  · rintro ⟨d, hd, hp, hn⟩
    exact ⟨d, hd, hn, hp.symm⟩

theorem mem_cached_build {drafts : List Draft} {graph : List (String × List String)}
    {name path : String} :
    (name, path) ∈ (build drafts graph).cached ↔ path ∈ cachedExporters drafts graph name := by
  simp only [build, List.mem_flatMap, Keyed.mem_sorted, List.mem_filter, mem_exportsOf,
    cachedExporters, Set.mem_ofPred_eq, Bool.not_eq_true', List.any_eq_false, beq_iff_eq]
  constructor
  · rintro ⟨⟨q, names⟩, ⟨hg, hd⟩, hn, hp⟩
    obtain rfl : path = q := hp
    exact ⟨names, hg, hn, hd⟩
  · rintro ⟨names, hg, hn, hd⟩
    exact ⟨(path, names), ⟨hg, hd⟩, hn, rfl⟩

/-- **The owner of a name.**  It is the greatest exporter among the files of the run, or, if none of
them exports the name, the greatest recorded one. -/
theorem owner?_eq_some_iff {drafts : List Draft} {graph : List (String × List String)}
    {name path : String} :
    (build drafts graph).owner? name = some path ↔
      IsGreatest (processedExporters drafts name) path ∨
        processedExporters drafts name = ∅ ∧ IsGreatest (cachedExporters drafts graph name) path := by
  have hp : ∀ p, last? (build drafts graph).processed name = some p ↔
      IsGreatest (processedExporters drafts name) p := by
    intro p
    rw [last?_eq_some_iff (processed_pairwise drafts graph)]
    simp only [mem_processed_build, Set.ofPred_mem_eq]
  have hc : ∀ p, last? (build drafts graph).cached name = some p ↔
      IsGreatest (cachedExporters drafts graph name) p := by
    intro p
    rw [last?_eq_some_iff (cached_pairwise drafts graph)]
    simp only [mem_cached_build, Set.ofPred_mem_eq]
  have hn : last? (build drafts graph).processed name = none ↔
      processedExporters drafts name = ∅ := by
    rw [last?_eq_none_iff, Set.eq_empty_iff_forall_notMem]
    exact forall_congr' fun p => not_congr mem_processed_build
  rw [owner?, Option.or_eq_some_iff, hp, hn, hc]

theorem owner?_eq_none_iff {drafts : List Draft} {graph : List (String × List String)}
    {name : String} :
    (build drafts graph).owner? name = none ↔
      processedExporters drafts name = ∅ ∧ cachedExporters drafts graph name = ∅ := by
  rw [owner?, Option.or_eq_none_iff, last?_eq_none_iff, last?_eq_none_iff,
    Set.eq_empty_iff_forall_notMem, Set.eq_empty_iff_forall_notMem]
  exact and_congr (forall_congr' fun p => not_congr mem_processed_build)
    (forall_congr' fun p => not_congr mem_cached_build)

@[simp] theorem cachedExporters_nil (drafts : List Draft) (name : String) :
    cachedExporters drafts [] name = ∅ := by
  simp [cachedExporters]

/-- Without records, the owner is the greatest exporter. -/
theorem owner?_build_nil {drafts : List Draft} {name path : String} :
    (build drafts []).owner? name = some path ↔
      IsGreatest (processedExporters drafts name) path := by
  rw [owner?_eq_some_iff, cachedExporters_nil, or_iff_left_iff_imp]
  rintro ⟨_, h⟩
  exact absurd h.1 (Set.notMem_empty _)

theorem exists_isGreatest_processedExporters {drafts : List Draft} {name : String}
    (h : (processedExporters drafts name).Nonempty) :
    ∃ path, IsGreatest (processedExporters drafts name) path := by
  cases ho : (build drafts []).owner? name with
  | none => exact absurd (owner?_eq_none_iff.1 ho).1 h.ne_empty
  | some path => exact ⟨path, owner?_build_nil.1 ho⟩

/-- To ask one group of exporters before another is as good as to ask both at once exactly if no path
of the second is behind all of the first. -/
theorem isGreatest_overlay_iff {first second : Set String}
    (hmax : first.Nonempty → ∃ path, IsGreatest first path) (hd : ∀ path ∈ second, path ∉ first) :
    (∀ path, IsGreatest first path ∨ first = ∅ ∧ IsGreatest second path ↔
        IsGreatest (first ∪ second) path) ↔
      ∀ path ∈ second, first.Nonempty → ∃ other ∈ first, path < other := by
  constructor
  · intro h path hp hne
    obtain ⟨owner, ho⟩ := hmax hne
    have hle : path ≤ owner := ((h owner).1 (.inl ho)).2 (.inr hp)
    exact ⟨owner, ho.1, lt_of_le_of_ne hle fun he => hd path hp (he ▸ ho.1)⟩
  · intro h owner
    by_cases hne : first.Nonempty
    · have hempty : first ≠ ∅ := hne.ne_empty
      simp only [hempty, false_and, or_false]
      constructor
      · intro ho
        refine ⟨.inl ho.1, ?_⟩
        rintro path (hp | hp)
        · exact ho.2 hp
        · obtain ⟨other, hother, hlt⟩ := h path hp hne
          exact (hlt.trans_le (ho.2 hother)).le
      · rintro ⟨hp | hp, ho⟩
        · exact ⟨hp, fun path hpath => ho (.inl hpath)⟩
        · obtain ⟨other, hother, hlt⟩ := h owner hp hne
          exact absurd (ho (.inl hother)) (not_le_of_gt hlt)
    · have hempty : first = ∅ := Set.not_nonempty_iff_eq_empty.1 hne
      have hno : ¬ IsGreatest (∅ : Set String) owner := fun ho => ho.1.elim
      simp [hempty, hno]

end Exporters

end LuaAmbient.Emission
