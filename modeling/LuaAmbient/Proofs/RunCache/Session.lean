/-
**The cache refines a map from paths to recorded sources.**

A cache lives in memory and in a file.  It is recorded into and pruned, saved and loaded, its file is
removed, and it is opened anew by this or by another version of the tool.  Whatever is done with it,
in whatever order, it answers like a map that holds the last recorded source of every path: the text
itself stands for the digests, and a copy of the map for the file.

Two things carry the proof.  All digests in memory were made by the version that has the cache open,
since what another version has left is not loaded; and the names of every entry are such that a file
gives them back.

Main definitions:

* `LuaAmbient.CacheSession`, `LuaAmbient.CacheSession.step` — a cache in memory and its file, and what
  is done with them;
* `LuaAmbient.Ledger`, `LuaAmbient.LedgerSession`, `LuaAmbient.LedgerSession.step` — the map of
  recorded sources and its copy, under the same operations;
* `LuaAmbient.RunCache.Represents`, `LuaAmbient.CacheSession.Refines` — **the invariant**.

Main results:

* `LuaAmbient.RunCache.Represents.reloaded` — the file of a cache represents what the cache does;
* `LuaAmbient.CacheSession.refines_step`, `LuaAmbient.CacheSession.refines_run` — one operation and
  any sequence of operations;
* `LuaAmbient.CacheSession.answers` — **a cache answers like the map of recorded sources**.
-/

import LuaAmbient.Proofs.RunCache

set_option relaxedAutoImplicit false
set_option autoImplicit false

namespace LuaAmbient

/-! ### Operations -/

/-- What is done with a cache. -/
inductive CacheOperation where
  | record (path source : String) (exports imports missing : List String)
  | keepOnly (paths : List String)
  | save
  | load
  | removeFile
  /-- A new cache is opened on the file. -/
  | reopen (version : String)
deriving Repr, DecidableEq

/-- Whether all names that are recorded can be stored. -/
def CacheOperation.IsStorable : CacheOperation → Prop
  | .record _ _ exports imports missing => ∀ n ∈ exports ++ imports ++ missing, Storable n
  | _ => True

instance (operation : CacheOperation) : Decidable operation.IsStorable :=
  match operation with
  | .record _ _ exports imports missing =>
    inferInstanceAs (Decidable (∀ n ∈ exports ++ imports ++ missing, Storable n))
  | .keepOnly _ | .save | .load | .removeFile | .reopen _ => inferInstanceAs (Decidable True)

/-- A cache in memory, and the content of its file if there is one. -/
structure CacheSession where
  cache : RunCache
  file : Option Content

namespace CacheSession

/-- A cache that is opened where there is no file. -/
def opened (version : String) : CacheSession :=
  ⟨.empty version, none⟩

/-- The cache and its file after an operation.  Messages name the file by its place. -/
def step (digest : String → String) (place : String) (s : CacheSession) :
    CacheOperation → CacheSession
  | .record path source exports imports missing =>
    { s with cache := s.cache.record digest path source exports imports missing }
  | .keepOnly paths => { s with cache := s.cache.keepOnly paths }
  | .save => { s with file := some (.text s.cache.render) }
  | .load => { s with cache := (RunCache.load s.cache.version place s.file).1 }
  | .removeFile => { s with file := none }
  | .reopen version => { s with cache := .empty version }

/-- The cache and its file after operations. -/
def run (digest : String → String) (place : String) (s : CacheSession)
    (operations : List CacheOperation) : CacheSession :=
  operations.foldl (step digest place) s

end CacheSession

/-! ### The map of recorded sources -/

/-- A recorded source: its text and its names, sorted and without repetitions. -/
structure RecordedSource where
  source : String
  exports : List String
  imports : List String
  missing : List String
deriving Repr, DecidableEq

/-- The last recorded source of every path. -/
abbrev Ledger := String → Option RecordedSource

/-- The map that a version of the tool keeps in memory, and the one that was stored with the version
that has stored it. -/
structure LedgerSession where
  version : String
  memory : Ledger
  stored : Option (String × Ledger)

namespace LedgerSession

def opened (version : String) : LedgerSession :=
  ⟨version, fun _ => none, none⟩

/-- What a version finds in a copy. -/
def found (version : String) : Option (String × Ledger) → Ledger
  | some (writer, ledger) => if writer = version then ledger else fun _ => none
  | none => fun _ => none

def step (s : LedgerSession) : CacheOperation → LedgerSession
  | .record path source exports imports missing =>
    { s with
      memory := Function.update s.memory path
        (some ⟨source, sortNames exports, sortNames imports, sortNames missing⟩) }
  | .keepOnly paths => { s with memory := fun path => if path ∈ paths then s.memory path else none }
  | .save => { s with stored := some (s.version, s.memory) }
  | .load => { s with memory := found s.version s.stored }
  | .removeFile => { s with stored := none }
  | .reopen version => { s with version := version, memory := fun _ => none }

def run (s : LedgerSession) (operations : List CacheOperation) : LedgerSession :=
  operations.foldl step s

end LedgerSession

/-! ### Entries and recorded sources -/

/-- Names that a file gives back as they were. -/
structure Restorable (names : List String) : Prop where
  increasing : names.Pairwise (· < ·)
  storable : ∀ n ∈ names, Storable n

theorem Restorable.namesOfText {names : List String} (h : Restorable names) :
    CachedSource.namesOfText (CachedSource.namesText names) = names :=
  CachedSource.namesOfText_namesText h.increasing h.storable

theorem restorable_sortNames {names : List String} (h : ∀ n ∈ names, Storable n) :
    Restorable (sortNames names) :=
  ⟨sortNames_pairwise names, fun n hn => h n (mem_sortNames.1 hn)⟩

/-- An entry tells a recorded source: it has its names, and the digest that a version makes of it. -/
structure CachedSource.Tells (digest : String → String) (version path : String) (e : CachedSource)
    (r : RecordedSource) : Prop where
  exports : e.exports = r.exports
  imports : e.imports = r.imports
  missing : e.missing = r.missing
  sourceHash : e.sourceHash = RunCache.sourceHash digest version path r.source
  restorable : Restorable r.exports ∧ Restorable r.imports ∧ Restorable r.missing

namespace CachedSource

variable {digest : String → String} {version path : String}

theorem tells_makeEntry {source : String} {exports imports missing : List String}
    (hx : ∀ n ∈ exports, Storable n) (hi : ∀ n ∈ imports, Storable n)
    (hm : ∀ n ∈ missing, Storable n) :
    (RunCache.makeEntry digest version path source exports imports missing).Tells digest version path
      ⟨source, sortNames exports, sortNames imports, sortNames missing⟩ where
  exports := rfl
  imports := rfl
  missing := rfl
  sourceHash := rfl
  restorable := ⟨restorable_sortNames hx, restorable_sortNames hi, restorable_sortNames hm⟩

/-- An entry that was read back tells the same source. -/
theorem Tells.restored {e : CachedSource} {r : RecordedSource} (h : e.Tells digest version path r) :
    e.restored.Tells digest version path r where
  exports := by rw [CachedSource.restored, h.exports, h.restorable.1.namesOfText]
  imports := by rw [CachedSource.restored, h.imports, h.restorable.2.1.namesOfText]
  missing := by rw [CachedSource.restored, h.missing, h.restorable.2.2.namesOfText]
  sourceHash := h.sourceHash
  restorable := h.restorable

end CachedSource

/-! ### Caches and maps -/

/-- A cache represents a map: its paths are those of the map, each once, and its entries tell the
recorded sources, with digests of the version that has the cache open. -/
structure RunCache.Represents (digest : String → String) (cache : RunCache) (ledger : Ledger) :
    Prop where
  nodup : (Keyed.keys cache.entries).Nodup
  entries : ∀ path,
    Option.Rel (CachedSource.Tells digest cache.version path) (cache.entry? path) (ledger path)

namespace RunCache

variable {digest : String → String} {cache : RunCache} {ledger : Ledger}

theorem represents_empty (digest : String → String) (version : String) :
    (empty version).Represents digest fun _ => none where
  nodup := List.nodup_nil
  entries _ := .none

namespace Represents

variable (h : cache.Represents digest ledger)
include h

/-- A path has an entry and a recorded source, or neither. -/
theorem entry_cases (path : String) :
    cache.entry? path = none ∧ ledger path = none ∨
      ∃ e r, cache.entry? path = some e ∧ ledger path = some r ∧
        e.Tells digest cache.version path r := by
  have ht := h.entries path
  generalize cache.entry? path = entry, ledger path = recorded at ht
  cases ht with
  | none => exact .inl ⟨rfl, rfl⟩
  | some ht => exact .inr ⟨_, _, rfl, rfl, ht⟩

theorem record {path source : String} {exports imports missing : List String}
    (hs : ∀ n ∈ exports ++ imports ++ missing, Storable n) :
    (cache.record digest path source exports imports missing).Represents digest
      (Function.update ledger path
        (some ⟨source, sortNames exports, sortNames imports, sortNames missing⟩)) where
  nodup := Keyed.nodup_keys_put h.nodup _ _
  entries other := by
    rw [RunCache.entry?, RunCache.record, Keyed.get?_put]
    by_cases hp : path = other
    · subst hp
      rw [if_pos rfl, Function.update_self]
      refine .some (CachedSource.tells_makeEntry ?_ ?_ ?_)
      · exact fun n hn => hs n (by simp [hn])
      · exact fun n hn => hs n (by simp [hn])
      · exact fun n hn => hs n (by simp [hn])
    · rw [if_neg hp, Function.update_of_ne (Ne.symm hp)]
      exact h.entries other

theorem keepOnly (paths : List String) :
    (cache.keepOnly paths).Represents digest fun path =>
      if path ∈ paths then ledger path else none where
  nodup := by
    rw [keys_keepOnly]
    exact h.nodup.filter _
  entries path := by
    rw [entry?_keepOnly]
    by_cases hp : path ∈ paths
    · rw [if_pos hp, if_pos hp]
      exact h.entries path
    · rw [if_neg hp, if_neg hp]
      exact .none

/-- The file of a cache represents what the cache does. -/
theorem reloaded : cache.reloaded.Represents digest ledger where
  nodup := (keys_reloaded_perm cache).nodup_iff.2 h.nodup
  entries path := by
    rw [entry?_reloaded h.nodup]
    rcases h.entry_cases path with ⟨he, hl⟩ | ⟨e, r, he, hl, ht⟩
    · rw [he, hl]
      exact .none
    · rw [he, hl]
      exact .some ht.restored

/-- What a version finds in the file of a cache: the entries, if it has left them itself. -/
theorem load_render (version place : String) :
    (load version place (some (.text cache.render))).1.Represents digest
      (LedgerSession.found version (some (cache.version, ledger))) ∧
      (load version place (some (.text cache.render))).1.version = version := by
  rw [load.eq_def, LedgerSession.found]
  simp only [parse?_render h.nodup]
  have hb : (cache.reloaded.version == version) = true ↔ cache.version = version := beq_iff_eq
  by_cases hv : cache.version = version
  · rw [if_pos hv, if_pos (hb.2 hv)]
    exact ⟨h.reloaded, hv⟩
  · rw [if_neg hv, if_neg (mt hb.1 hv)]
    exact ⟨represents_empty digest version, rfl⟩

/-- The names of an entry are those of the recorded source. -/
theorem names_eq (path : String) :
    (cache.entry? path).map (fun e => (e.exports, e.imports, e.missing)) =
      (ledger path).map fun r => (r.exports, r.imports, r.missing) := by
  rcases h.entry_cases path with ⟨he, hl⟩ | ⟨e, r, he, hl, ht⟩
  · rw [he, hl]
    rfl
  · simp [he, hl, ht.exports, ht.imports, ht.missing]

/-- A text is current exactly if it is the recorded one. -/
theorem isCurrent_iff_recorded (hd : Function.Injective digest) (path source : String) :
    cache.isCurrent digest path source = true ↔ (ledger path).map (·.source) = some source := by
  rcases h.entry_cases path with ⟨he, hl⟩ | ⟨e, r, he, hl, ht⟩
  · simp [isCurrent, he, hl]
  · simp only [isCurrent, he, hl, ht.sourceHash, beq_iff_eq, Option.map_some, Option.some.injEq]
    exact ⟨sourceHash_injective hd, congrArg _⟩

end Represents

end RunCache

/-! ### The refinement -/

namespace CacheSession

/-- The cache represents the map in memory, and the file is that of a cache which represents the
stored copy. -/
structure Refines (digest : String → String) (s : CacheSession) (l : LedgerSession) : Prop where
  version : s.cache.version = l.version
  memory : s.cache.Represents digest l.memory
  file : Option.Rel (fun (content : Content) (copy : String × Ledger) =>
    ∃ cache : RunCache, cache.version = copy.1 ∧ cache.Represents digest copy.2 ∧
      content = .text cache.render) s.file l.stored

variable {digest : String → String} {s : CacheSession} {l : LedgerSession}

theorem refines_opened (digest : String → String) (version : String) :
    (opened version).Refines digest (.opened version) where
  version := rfl
  memory := RunCache.represents_empty digest version
  file := .none

/-- What is loaded from the file is what is found in the copy. -/
theorem Refines.load (h : s.Refines digest l) (place : String) :
    (RunCache.load s.cache.version place s.file).1.Represents digest
        (LedgerSession.found l.version l.stored) ∧
      (RunCache.load s.cache.version place s.file).1.version = l.version := by
  rw [h.version]
  obtain ⟨cache, file⟩ := s
  obtain ⟨version, memory, stored⟩ := l
  cases h.file with
  | none => exact ⟨RunCache.represents_empty digest version, rfl⟩
  | some hfile =>
      obtain ⟨writer, hw, hcache, rfl⟩ := hfile
      obtain ⟨hr, hv⟩ := hcache.load_render version place
      exact ⟨by rwa [hw] at hr, hv⟩

/-- **One operation.** -/
theorem refines_step (h : s.Refines digest l) (place : String) {operation : CacheOperation}
    (ho : operation.IsStorable) :
    (s.step digest place operation).Refines digest (l.step operation) := by
  cases operation with
  | record path source exports imports missing => exact { h with memory := h.memory.record ho }
  | keepOnly paths => exact { h with memory := h.memory.keepOnly paths }
  | save => exact { h with file := .some ⟨s.cache, h.version, h.memory, rfl⟩ }
  | load => exact { h with version := (h.load place).2, memory := (h.load place).1 }
  | removeFile => exact { h with file := .none }
  | reopen version =>
      exact { h with version := rfl, memory := RunCache.represents_empty digest version }

/-- **Any sequence of operations.** -/
theorem refines_run (h : s.Refines digest l) (place : String) {operations : List CacheOperation}
    (ho : ∀ operation ∈ operations, operation.IsStorable) :
    (s.run digest place operations).Refines digest (l.run operations) := by
  induction operations generalizing s l with
  | nil => exact h
  | cons operation operations ih =>
      refine ih (refines_step h place (ho operation List.mem_cons_self)) ?_
      exact fun other hother => ho other (List.mem_cons_of_mem _ hother)

/-- **A cache answers like the map of recorded sources.**  After any operations that record storable
names, from the opening of a cache on, an entry holds the names of the last recorded source of its
path, and a text is current exactly if it is the text of that source. -/
theorem answers (hd : Function.Injective digest) (place version : String)
    {operations : List CacheOperation} (ho : ∀ operation ∈ operations, operation.IsStorable)
    (path : String) :
    (RunCache.entry? ((opened version).run digest place operations).cache path).map
          (fun e => (e.exports, e.imports, e.missing)) =
        (((LedgerSession.opened version).run operations).memory path).map
          (fun r => (r.exports, r.imports, r.missing)) ∧
      ∀ source, ((opened version).run digest place operations).cache.isCurrent digest path source =
          true ↔
        (((LedgerSession.opened version).run operations).memory path).map (·.source) =
          some source := by
  have h := refines_run (refines_opened digest version) place ho
  exact ⟨h.memory.names_eq path, h.memory.isCurrent_iff_recorded hd path⟩

/-- Two versions take turns: the first finds what it has stored, the second does not, and what the
second has recorded is gone since it was not stored. -/
theorem answers_of_versions :
    let operations : List CacheOperation :=
      [.record "a.lua" "x = 1" ["B", "A", "B"] ["Item"] [], .save, .reopen "2", .load,
        .record "b.lua" "y = 1" [] [] ["Gone"], .reopen "1", .load,
        .record "c.lua" "z = 1" ["C"] [] [], .keepOnly ["a.lua", "b.lua"]]
    let s := (opened "1").run id "luats-meta.json" operations
    (s.cache.entry? "a.lua").map (fun e => (e.exports, e.imports, e.missing)) =
        some (["A", "B"], ["Item"], []) ∧
      (∀ source, s.cache.isCurrent id "a.lua" source = true ↔ "x = 1" = source) ∧
      (∀ source, s.cache.isCurrent id "b.lua" source = false) := by
  intro operations s
  have ho : ∀ operation ∈ operations, operation.IsStorable := by decide +kernel
  have ha : ((LedgerSession.opened "1").run operations).memory "a.lua" =
      some ⟨"x = 1", ["A", "B"], ["Item"], []⟩ := by decide +kernel
  have hb : ((LedgerSession.opened "1").run operations).memory "b.lua" = none := by decide +kernel
  obtain ⟨hnames, hcurrent⟩ :=
    answers Function.injective_id "luats-meta.json" "1" ho "a.lua"
  obtain ⟨-, hgone⟩ := answers Function.injective_id "luats-meta.json" "1" ho "b.lua"
  rw [ha] at hnames hcurrent
  rw [hb] at hgone
  refine ⟨hnames, fun source => (hcurrent source).trans (by simp), fun source => ?_⟩
  exact Bool.eq_false_iff.2 fun h => by simpa using (hgone source).1 h

end CacheSession

end LuaAmbient
