/-
**The cache that a run leaves is the cache that the next one finds.**

The file of the cache is JSON with the paths in their order, and every list of names is one text with
commas.  A list comes back as it was if its names are in increasing order, none of them is empty and
none holds a comma; the lists of a recorded source are in increasing order, so that only the names
themselves decide.

Main definitions:

* `LuaAmbient.Storable` — a name that a text with commas can hold;
* `LuaAmbient.CachedSource.restored`, `LuaAmbient.RunCache.reloaded` — an entry and a cache as they
  are read back.

Main results:

* `LuaAmbient.CachedSource.namesOfText_namesText` — lists of storable names are read back;
* `LuaAmbient.RunCache.parse?_render` — **the entries are read back, sorted by path**;
* `LuaAmbient.RunCache.render_congr` — the file does not depend on the order of the entries;
* `LuaAmbient.RunCache.nodup_keys_of_parse?` — a cache that is read has one entry for a path,
  whatever the file holds.
-/

import LuaAmbient.Proofs.Data.DistinctFields
import LuaAmbient.Proofs.Data.JsonRoundTrip
import LuaAmbient.Proofs.Except
import LuaAmbient.Proofs.Keyed
import LuaAmbient.Proofs.Text.Search
import LuaAmbient.RunCache

set_option relaxedAutoImplicit false
set_option autoImplicit false

namespace LuaAmbient

/-! ### Names -/

/-- A name that a text with commas can hold. -/
def Storable (name : String) : Prop :=
  name ≠ "" ∧ ',' ∉ name.toList

instance (name : String) : Decidable (Storable name) :=
  inferInstanceAs (Decidable (_ ∧ _))

namespace CachedSource

/-- Lists of storable names are read back. -/
theorem namesOfText_namesText {names : List String} (h : names.Pairwise (· < ·))
    (hs : ∀ n ∈ names, Storable n) : namesOfText (namesText names) = names := by
  rw [namesOfText, namesText, orderNames_eq_self (h.imp le_of_lt)]
  by_cases hne : names = []
  · subst hne
    exact sortNames_eq_nil.2 rfl
  · have hf : (names.filter fun n => !n.isEmpty) = names :=
      List.filter_eq_self.2 fun n hn => by simpa [String.isEmpty_iff] using (hs n hn).1
    have hj := Text.splitString_joinWith hne fun n hn => (hs n hn).2
    rw [show String.singleton ',' = "," from rfl] at hj
    rw [hj, hf, sortNames_eq_self h]

/-- An entry as it is read back. -/
def restored (e : CachedSource) : CachedSource :=
  { e with
    imports := namesOfText (namesText e.imports)
    missing := namesOfText (namesText e.missing)
    exports := namesOfText (namesText e.exports) }

end CachedSource

/-! ### Records -/

namespace Json

theorem fieldsData_eq_map (fields : List (String × Stored)) :
    fieldsData fields = fields.map fun f => (f.1, f.2.toData) := by
  induction fields with
  | nil => rfl
  | cons f fields ih => rw [fieldsData, ih, List.map_cons]

theorem sortedFields_eq_map (fields : List (String × Stored)) :
    sortedFields fields = fields.map fun f => (f.1, f.2.sorted) := by
  induction fields with
  | nil => rfl
  | cons f fields ih => rw [sortedFields, ih, List.map_cons]

theorem fieldsDepth_le_iff {fields : List (String × Stored)} {n : Nat} :
    fieldsDepth fields ≤ n ↔ ∀ f ∈ fields, f.2.depth ≤ n := by
  induction fields with
  | nil => simp [fieldsDepth]
  | cons f fields ih => simp [fieldsDepth, ih]

theorem depth_sorted_record_le_iff {fields : List (String × Stored)} {n : Nat} :
    (Stored.record fields).sorted.depth ≤ n + 1 ↔ ∀ f ∈ fields, f.2.sorted.depth ≤ n := by
  rw [Stored.sorted, Stored.depth, Nat.add_le_add_iff_right, fieldsDepth_le_iff, sortedFields_eq_map]
  constructor
  · intro h f hf
    exact h (f.1, f.2.sorted) (Keyed.mem_sorted.2 (List.mem_map_of_mem hf))
  · intro h g hg
    obtain ⟨f, hf, rfl⟩ := List.mem_map.1 (Keyed.mem_sorted.1 hg)
    exact h f hf

theorem toData_sorted_record {fields : List (String × Stored)} (hn : (Keyed.keys fields).Nodup) :
    (Stored.record fields).sorted.toData =
      .record ((Keyed.sorted fields).map fun f => (f.1, f.2.sorted.toData)) := by
  have hn' : (Keyed.keys ((Keyed.sorted fields).map fun f => (f.1, f.2.sorted.toData))).Nodup := by
    rw [Keyed.keys_map _ fun v : Stored => v.sorted.toData]
    exact (Keyed.keys_sorted_perm fields).nodup_iff.2 hn
  rw [Stored.sorted, Stored.toData, fieldsData_eq_map, sortedFields_eq_map, Keyed.sorted_map hn,
    List.map_map]
  exact congrArg Data.record (Keyed.ofList_eq_self hn')

/-- What is found under a key of a record that is read back. -/
theorem get?_sorted_toData {fields : List (String × Stored)} (hn : (Keyed.keys fields).Nodup)
    (key : String) :
    Keyed.get? ((Keyed.sorted fields).map fun f => (f.1, f.2.sorted.toData)) key =
      (Keyed.get? fields key).map fun v => v.sorted.toData := by
  rw [Keyed.get?_map _ fun v : Stored => v.sorted.toData, Keyed.get?_sorted hn]

end Json

/-! ### Entries -/

namespace CachedSource

theorem ofData_toStored (e : CachedSource) : ofData e.toStored.sorted.toData = .ok e.restored := by
  have hn : (Keyed.keys [("content_hash", Json.Stored.string e.contentHash),
      ("imports", .string (namesText e.imports)), ("missing_deps", .string (namesText e.missing)),
      ("exports", .string (namesText e.exports)), ("fn_hash", .string e.pathHash),
      ("fc_hash", .string e.sourceHash)]).Nodup := by
    simp [Keyed.keys]
  rw [toStored, Json.toData_sorted_record hn, ofData]
  simp only [Check.readField, Json.get?_sorted_toData hn]
  rfl

theorem depth_toStored (e : CachedSource) : e.toStored.sorted.depth ≤ 1 := by
  rw [toStored, Json.depth_sorted_record_le_iff]
  simp [Json.Stored.sorted, Json.Stored.depth]

end CachedSource

namespace RunCache

/-- The digest of a source tells its text. -/
theorem sourceHash_injective {digest : String → String} (hd : Function.Injective digest)
    {version path s t : String}
    (h : sourceHash digest version path s = sourceHash digest version path t) : s = t := by
  have ha := congrArg String.toList (hd h)
  exact String.toList_inj.1 (by simpa [String.toList_append] using ha)

theorem entry?_keepOnly (cache : RunCache) (paths : List String) (path : String) :
    RunCache.entry? (cache.keepOnly paths) path = if path ∈ paths then cache.entry? path else none := by
  have h := Keyed.get?_filter_key cache.entries (fun q => paths.contains q) path
  simpa [RunCache.entry?, keepOnly] using h

theorem keys_keepOnly (cache : RunCache) (paths : List String) :
    Keyed.keys (cache.keepOnly paths).entries =
      (Keyed.keys cache.entries).filter fun p => paths.contains p :=
  Keyed.keys_filter_key cache.entries fun p => paths.contains p

/-! ### The file -/

theorem all_map_ok {α β : Type} (l : List α) (f : α → β) :
    Check.all (l.map fun a => (.ok (f a) : Checked β)) = .ok (l.map f) := by
  have h : (l.map fun a => (.ok (f a) : Checked β)).flatMap Check.issuesOf = [] := by
    simp [Check.issuesOf]
  rw [Check.all, h]
  simp [Except.toOption, Function.comp_def]

/-- The entries as they are read back. -/
theorem all_ofData_toStored {entries : List (String × CachedSource)}
    (hn : (Keyed.keys entries).Nodup) :
    Check.all (((Keyed.sorted (entries.map fun e => (e.1, e.2.toStored))).map fun f =>
        (f.1, f.2.sorted.toData)).map fun e =>
          Check.below e.1 ((CachedSource.ofData e.2).map fun entry => (e.1, entry))) =
      .ok ((Keyed.sorted entries).map fun e => (e.1, e.2.restored)) := by
  rw [Keyed.sorted_map hn, List.map_map, List.map_map, ← all_map_ok]
  refine congrArg Check.all (List.map_congr_left fun e _ => ?_)
  simp only [Function.comp_apply, CachedSource.ofData_toStored]
  rfl

theorem depth_le_nestingLimit (cache : RunCache) :
    (Json.Stored.record [("tool_version", Json.Stored.string cache.version),
      ("entries", .record (cache.entries.map fun e => (e.1, e.2.toStored)))]).sorted.depth ≤
        nestingLimit := by
  refine le_trans (b := 3) (Json.depth_sorted_record_le_iff.2 fun f hf => ?_) (by decide)
  rcases List.mem_cons.1 hf with rfl | hf
  · simp [Json.Stored.sorted, Json.Stored.depth]
  · obtain rfl := List.mem_singleton.1 hf
    refine Json.depth_sorted_record_le_iff.2 ?_
    intro g hg
    obtain ⟨e, _, rfl⟩ := List.mem_map.1 hg
    exact e.2.depth_toStored

/-- The cache as it is read back. -/
def reloaded (cache : RunCache) : RunCache :=
  ⟨cache.version, (Keyed.sorted cache.entries).map fun e => (e.1, e.2.restored)⟩

/-- **The entries are read back, sorted by path.** -/
theorem parse?_render {cache : RunCache} (hn : (Keyed.keys cache.entries).Nodup) :
    parse? (.text cache.render) = some cache.reloaded := by
  have hk : (Keyed.keys (cache.entries.map fun e => (e.1, e.2.toStored))).Nodup := by
    rwa [Keyed.keys_map _ CachedSource.toStored]
  have hf : (Keyed.keys [("tool_version", Json.Stored.string cache.version),
      ("entries", .record (cache.entries.map fun e => (e.1, e.2.toStored)))]).Nodup := by
    simp [Keyed.keys]
  have he : Keyed.get? [("tool_version", Json.Stored.string cache.version),
      ("entries", .record (cache.entries.map fun e => (e.1, e.2.toStored)))] "entries" =
        some (.record (cache.entries.map fun e => (e.1, e.2.toStored))) := by
    simp [Keyed.get?_cons]
  have hv : Keyed.get? [("tool_version", Json.Stored.string cache.version),
      ("entries", .record (cache.entries.map fun e => (e.1, e.2.toStored)))] "tool_version" =
        some (.string cache.version) := by
    simp [Keyed.get?_cons]
  rw [parse?, render, Content.text?]
  simp only [bind, Option.bind, Json.parse_render cache.depth_le_nestingLimit]
  rw [Json.toData_sorted_record hf, ofData]
  simp only [Check.readField, Json.get?_sorted_toData hf, he, hv, Option.map_some,
    Json.toData_sorted_record hk, all_ofData_toStored hn]
  rfl

theorem keys_reloaded_perm (cache : RunCache) :
    (Keyed.keys cache.reloaded.entries).Perm (Keyed.keys cache.entries) := by
  rw [reloaded, Keyed.keys_map _ CachedSource.restored]
  exact Keyed.keys_sorted_perm _

theorem entry?_reloaded {cache : RunCache} (hn : (Keyed.keys cache.entries).Nodup) (path : String) :
    cache.reloaded.entry? path = (cache.entry? path).map CachedSource.restored := by
  rw [RunCache.entry?, reloaded, Keyed.get?_map _ CachedSource.restored, Keyed.get?_sorted hn,
    RunCache.entry?]

theorem sortedFields_congr {l l' : List (String × CachedSource)} (hn : (Keyed.keys l).Nodup)
    (h : l.Perm l') :
    (Json.Stored.record (l.map fun e => (e.1, e.2.toStored))).sorted =
      (Json.Stored.record (l'.map fun e => (e.1, e.2.toStored))).sorted := by
  rw [Json.Stored.sorted, Json.Stored.sorted, Json.sortedFields_eq_map, Json.sortedFields_eq_map,
    List.map_map, List.map_map]
  refine congrArg Json.Stored.record (Keyed.sorted_congr ?_ (h.map _))
  simpa [Keyed.keys, Function.comp_def] using hn

/-- The file does not depend on the order of the entries. -/
theorem render_congr {version : String} {l l' : List (String × CachedSource)}
    (hn : (Keyed.keys l).Nodup) (h : l.Perm l') :
    render ⟨version, l⟩ = render ⟨version, l'⟩ := by
  simp only [render, Json.render]
  rw [Json.Stored.sorted, Json.Stored.sorted]
  simp only [Json.sortedFields_eq_map, List.map_cons, sortedFields_congr hn h]

/-! ### Any file -/

theorem toOption_below {α : Type} (key : String) (part : Checked α) :
    (Check.below key part).toOption = part.toOption := by
  cases part <;> rfl

/-- The values of all parts are those of the parts that have one. -/
theorem eq_filterMap_of_all {α : Type} {parts : List (Checked α)} {l : List α}
    (h : Check.all parts = .ok l) : l = parts.filterMap Except.toOption := by
  rw [Check.all] at h
  split at h
  · exact (Except.ok.inj h).symm
  · simp at h

/-- Entries that are read have the keys of the record that holds them. -/
theorem keys_filterMap_sublist {β γ : Type} (l : List (String × β)) (read : β → Option γ) :
    (Keyed.keys (l.filterMap fun e => (read e.2).map fun v => (e.1, v))).Sublist
      (Keyed.keys l) := by
  induction l with
  | nil => exact .slnil
  | cons e l ih =>
      rw [List.filterMap_cons, Keyed.keys_cons]
      cases read e.2 with
      | none => exact ih.cons e.1
      | some v => exact ih.cons_cons e.1

/-- What data of a record of entries describe. -/
theorem nodup_keys_of_all {entries : List (String × Data)} (hn : (Keyed.keys entries).Nodup)
    {l : List (String × CachedSource)}
    (h : Check.all (entries.map fun e =>
      Check.below e.1 ((CachedSource.ofData e.2).map fun entry => (e.1, entry))) = .ok l) :
    (Keyed.keys l).Nodup := by
  have hl : l = entries.filterMap fun e =>
      ((CachedSource.ofData e.2).toOption).map fun entry => (e.1, entry) := by
    rw [eq_filterMap_of_all h, List.filterMap_map]
    refine List.filterMap_congr fun e _ => ?_
    rw [Function.comp_apply, toOption_below]
    cases CachedSource.ofData e.2 <;> rfl
  rw [hl]
  exact hn.sublist (keys_filterMap_sublist entries fun d => (CachedSource.ofData d).toOption)

theorem nodup_keys_of_ofData {d : Data} {cache : RunCache} (hd : d.Distinct)
    (h : ofData d = .ok cache) : (Keyed.keys cache.entries).Nodup := by
  rw [ofData.eq_def] at h
  split at h
  · next fields =>
    dsimp only at h
    split at h
    · obtain ⟨version, -, h⟩ := bind_eq_ok h
      obtain ⟨entries, hentries, h⟩ := bind_eq_ok h
      obtain rfl := Except.ok.inj h
      have hread := congrArg Except.toOption hentries
      rw [Check.readField, toOption_below] at hread
      cases hf : Keyed.get? fields "entries" with
      | none =>
          obtain rfl : [] = entries := by simpa [hf, Except.toOption] using hread
          simp
      | some field =>
          rw [hf] at hread
          cases hd.get? hf with
          | record hn _ => exact nodup_keys_of_all hn (eq_ok_of_toOption hread)
          | _ => simp [Check.refuse, Except.toOption] at hread
    · simp at h
  · simp [Check.refuse] at h

/-- A cache that is read has one entry for a path, whatever the file holds. -/
theorem nodup_keys_of_parse? {content : Content} {cache : RunCache}
    (h : parse? content = some cache) : (Keyed.keys cache.entries).Nodup := by
  obtain ⟨text, -, h⟩ := Option.bind_eq_some_iff.1 h
  obtain ⟨data, hdata, h⟩ := Option.bind_eq_some_iff.1 h
  exact nodup_keys_of_ofData (Json.distinct_of_parse hdata) (eq_ok_of_toOption h)

theorem nodup_keys_load (version place : String) (stored : Option Content) :
    (Keyed.keys (load version place stored).1.entries).Nodup := by
  rw [load.eq_def]
  split
  · simp [empty]
  · next content =>
    split
    · simp [empty]
    · next cache hparse =>
      split
      · exact nodup_keys_of_parse? hparse
      · simp [empty]

/-- Only a source that has an entry is current. -/
theorem mem_keys_of_isCurrent {digest : String → String} {cache : RunCache} {path source : String}
    (h : cache.isCurrent digest path source = true) : path ∈ Keyed.keys cache.entries := by
  by_contra hp
  have hnone : cache.entry? path = none := Keyed.get?_eq_none_iff.2 hp
  simp [isCurrent, hnone] at h

end RunCache

end LuaAmbient
