/-
**The laws of output directories, and what a run does to one.**

A run changes its output directory one file at a time: it writes, replaces or removes a file, and
before it writes it asks whether anything stands in the way.  The laws say what can be read after
such a step.  They hold of directories that are sound, which means that nothing but such steps has
made them, and of names that are proper, which means that they lead to a file of the directory.

Nothing ever stands in the way in a directory that was vacant at the start and holds files only that
could stand side by side in some sound directory.

Main definitions:

* `LuaAmbient.LawfulOutputStore` — the laws;
* `LuaAmbient.Generation.Step`, `LuaAmbient.Generation.Steps` — one change of a directory, and
  several, to files of given names.

Main results:

* `LuaAmbient.Generation.Steps.sound`, `LuaAmbient.Generation.Steps.read?_eq` — **steps keep a
  directory sound and leave all other files as they are**;
* `LuaAmbient.Generation.removeOutputs_steps`, `LuaAmbient.Generation.read?_removeOutputs` — the
  removal of declaration files.
-/

import Mathlib.Logic.Relation
import LuaAmbient.Generation.Run
import LuaAmbient.Proofs.NameSet

set_option relaxedAutoImplicit false
set_option autoImplicit false

namespace LuaAmbient

/-- The laws of output directories. -/
class LawfulOutputStore (σ : Type) [OutputStore σ] where
  /-- Nothing but runs has changed the directory. -/
  Sound : σ → Prop
  /-- The name leads to a file of the directory. -/
  Proper : String → Prop
  proper_index : Proper Generation.indexName
  proper_symbols : Proper Generation.symbolsName
  proper_cache : Proper Generation.cacheName
  sound_write {out : σ} {name text : String} : Sound out → Proper name →
    OutputStore.canWrite out name = true → Sound (OutputStore.write out name text)
  read?_write {out : σ} {name text other : String} : Sound out → Proper name →
    OutputStore.canWrite out name = true → Proper other →
    OutputStore.read? (OutputStore.write out name text) other =
      if other = name then some (.text text) else OutputStore.read? out other
  sound_replace {out : σ} {name text : String} : Sound out → Proper name →
    OutputStore.canReplace out name = true → Sound (OutputStore.replace out name text)
  read?_replace {out : σ} {name text other : String} : Sound out → Proper name →
    OutputStore.canReplace out name = true → Proper other →
    OutputStore.read? (OutputStore.replace out name text) other =
      if other = name then some (.text text) else OutputStore.read? out other
  sound_remove {out : σ} {name : String} : Sound out → Proper name →
    (OutputStore.read? out name).isSome → Sound (OutputStore.remove out name)
  read?_remove {out : σ} {name other : String} : Sound out → Proper name →
    (OutputStore.read? out name).isSome → Proper other →
    OutputStore.read? (OutputStore.remove out name) other =
      if other = name then none else OutputStore.read? out other
  /-- To write what is there changes nothing. -/
  write_self {out : σ} {name text : String} : Sound out → Proper name →
    OutputStore.read? out name = some (.text text) → OutputStore.write out name text = out
  /-- To replace a file by itself changes nothing. -/
  replace_self {out : σ} {name text : String} : Sound out → Proper name →
    OutputStore.read? out name = some (.text text) → OutputStore.replace out name text = out
  /-- Nothing is in the directory yet. -/
  Vacant : σ → Prop
  sound_of_vacant {out : σ} : Vacant out → Sound out
  read?_of_vacant {out : σ} {name : String} : Vacant out → Proper name →
    OutputStore.read? out name = none
  /-- Nothing but files of given names, and the directories that they need, is in the directory. -/
  Grown : (String → Prop) → σ → Prop
  grown_of_vacant {names : String → Prop} {out : σ} : Vacant out → Grown names out
  grown_write {names : String → Prop} {out : σ} {name text : String} : Grown names out →
    names name → Proper name → OutputStore.canWrite out name = true →
    Grown names (OutputStore.write out name text)
  grown_replace {names : String → Prop} {out : σ} {name text : String} : Grown names out →
    names name → Proper name → OutputStore.canReplace out name = true →
    Grown names (OutputStore.replace out name text)
  /-- Files that stand side by side somewhere do not stand in each other's way. -/
  canWrite_of_grown {names : String → Prop} {out model : σ} {name : String} : Grown names out →
    Sound model → (∀ n, names n → Proper n ∧ (OutputStore.read? model n).isSome) → names name →
    OutputStore.canWrite out name = true
  canReplace_of_grown {names : String → Prop} {out model : σ} {name : String} : Grown names out →
    Sound model → (∀ n, names n → Proper n ∧ (OutputStore.read? model n).isSome) → names name →
    OutputStore.canReplace out name = true

namespace Generation

open OutputStore LawfulOutputStore

variable {σ : Type} [OutputStore σ]

/-! ### Steps -/

/-- A change of an output directory: one file of the given names is written, replaced or removed. -/
inductive Step (names : String → Prop) : σ → σ → Prop
  | write {out : σ} {name : String} (text : String) : names name → canWrite out name = true →
      Step names out (write out name text)
  | replace {out : σ} {name : String} (text : String) : names name → canReplace out name = true →
      Step names out (replace out name text)
  | remove {out : σ} {name : String} : names name → (read? out name).isSome →
      Step names out (remove out name)

/-- Changes of an output directory one after the other. -/
abbrev Steps (names : String → Prop) : σ → σ → Prop :=
  Relation.ReflTransGen (Step names)

theorem Step.mono {names names' : String → Prop} (h : ∀ n, names n → names' n) {a b : σ}
    (hab : Step names a b) : Step names' a b := by
  cases hab with
  | write text hn hc => exact .write text (h _ hn) hc
  | replace text hn hc => exact .replace text (h _ hn) hc
  | remove hn hr => exact .remove (h _ hn) hr

theorem Steps.mono {names names' : String → Prop} (h : ∀ n, names n → names' n) {a b : σ}
    (hab : Steps names a b) : Steps names' a b :=
  Relation.ReflTransGen.mono (fun _ _ => Step.mono h) _ _ hab

variable [LawfulOutputStore σ]

theorem Step.sound {names : String → Prop} (hp : ∀ n, names n → Proper σ n) {a b : σ}
    (ha : Sound a) (h : Step names a b) : Sound b := by
  cases h with
  | write text hn hc => exact sound_write ha (hp _ hn) hc
  | replace text hn hc => exact sound_replace ha (hp _ hn) hc
  | remove hn hr => exact sound_remove ha (hp _ hn) hr

theorem Step.read?_eq {names : String → Prop} (hp : ∀ n, names n → Proper σ n) {a b : σ}
    (ha : Sound a) (h : Step names a b) {other : String} (ho : Proper σ other)
    (hn : ¬ names other) : read? b other = read? a other := by
  have hne : ∀ n, names n → other ≠ n := fun n hx he => hn (he ▸ hx)
  cases h with
  | write text hx hc => rw [read?_write ha (hp _ hx) hc ho, if_neg (hne _ hx)]
  | replace text hx hc => rw [read?_replace ha (hp _ hx) hc ho, if_neg (hne _ hx)]
  | remove hx hr => rw [read?_remove ha (hp _ hx) hr ho, if_neg (hne _ hx)]

/-- Steps keep a directory sound. -/
theorem Steps.sound {names : String → Prop} (hp : ∀ n, names n → Proper σ n) {a b : σ}
    (ha : Sound a) (h : Steps names a b) : Sound b := by
  induction h with
  | refl => exact ha
  | tail _ hbc ih => exact hbc.sound hp ih

/-- Steps leave the files of all other names as they are. -/
theorem Steps.read?_eq {names : String → Prop} (hp : ∀ n, names n → Proper σ n) {a b : σ}
    (ha : Sound a) (h : Steps names a b) {other : String} (ho : Proper σ other)
    (hn : ¬ names other) : read? b other = read? a other := by
  induction h with
  | refl => rfl
  | tail hab hbc ih => rw [hbc.read?_eq hp (Steps.sound hp ha hab) ho hn, ih]

/-! ### The removal of declaration files -/

omit [LawfulOutputStore σ] in
theorem removeOutput_steps (message : String) (state : σ × List Log.Entry) (path : String) :
    Steps (· = SourcePath.declaration path) state.1 (removeOutput message state path).1 := by
  rw [removeOutput]
  split
  · next h => exact .single (.remove rfl h)
  · exact .refl

omit [LawfulOutputStore σ] in
theorem foldl_removeOutput_steps (message : String) (paths : List String)
    (state : σ × List Log.Entry) :
    Steps (fun n => ∃ p ∈ paths, n = SourcePath.declaration p) state.1
      (paths.foldl (removeOutput message) state).1 := by
  induction paths generalizing state with
  | nil => exact .refl
  | cons path paths ih =>
      rw [List.foldl_cons]
      refine .trans ((removeOutput_steps message state path).mono ?_) ((ih _).mono ?_)
      · rintro n rfl
        exact ⟨path, List.mem_cons_self, rfl⟩
      · rintro n ⟨p, hp, rfl⟩
        exact ⟨p, List.mem_cons_of_mem _ hp, rfl⟩

omit [LawfulOutputStore σ] in
theorem removeOutputs_steps (message : String) (paths : List String) (out : σ) :
    Steps (fun n => ∃ p ∈ paths, n = SourcePath.declaration p) out
      (removeOutputs message paths out).1 :=
  foldl_removeOutput_steps message paths (out, [])

omit [LawfulOutputStore σ] in
@[simp] theorem removeOutputs_nil (message : String) (out : σ) :
    removeOutputs message [] out = (out, []) := rfl

theorem read?_removeOutput {message : String} {state : σ × List Log.Entry} {path other : String}
    (hs : Sound state.1) (hp : Proper σ (SourcePath.declaration path)) (ho : Proper σ other) :
    read? (removeOutput message state path).1 other =
      if other = SourcePath.declaration path then none else read? state.1 other := by
  rw [removeOutput]
  split
  · next h => exact read?_remove hs hp h ho
  · next h =>
    split
    · next he =>
      rw [he]
      exact Option.not_isSome_iff_eq_none.1 h
    · rfl

theorem read?_foldl_removeOutput {message : String} {paths : List String}
    (hp : ∀ p ∈ paths, Proper σ (SourcePath.declaration p)) {state : σ × List Log.Entry}
    (hs : Sound state.1) {other : String} (ho : Proper σ other) :
    read? (paths.foldl (removeOutput message) state).1 other =
      if ∃ p ∈ paths, other = SourcePath.declaration p then none else read? state.1 other := by
  induction paths generalizing state with
  | nil => simp
  | cons path paths ih =>
      have hpath := hp path List.mem_cons_self
      have hs' : Sound (removeOutput message state path).1 :=
        (removeOutput_steps message state path).sound (by rintro n rfl; exact hpath) hs
      rw [List.foldl_cons, ih (fun p h => hp p (List.mem_cons_of_mem _ h)) hs',
        read?_removeOutput hs hpath ho]
      by_cases he : other = SourcePath.declaration path
      · simp [he]
      · simp [he]

/-- After the removal of declaration files, they cannot be read, and all others are as before. -/
theorem read?_removeOutputs {message : String} {paths : List String}
    (hp : ∀ p ∈ paths, Proper σ (SourcePath.declaration p)) {out : σ} (hs : Sound out)
    {other : String} (ho : Proper σ other) :
    read? (removeOutputs message paths out).1 other =
      if ∃ p ∈ paths, other = SourcePath.declaration p then none else read? out other :=
  read?_foldl_removeOutput hp hs ho

end Generation

end LuaAmbient
