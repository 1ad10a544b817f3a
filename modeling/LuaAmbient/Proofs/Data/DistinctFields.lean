/-
No record that is read has two fields of one name.

Of two fields of one name the later value counts, so that the fields of a record that has been read
can be told apart by their names, at whatever depth the record stands.

Main definitions:

* `LuaAmbient.Data.Distinct` — the fields of all records in a value have different names;
* `LuaAmbient.Json.ReadsDistinct` — what values, items and fields are read with a bound.

Main results:

* `LuaAmbient.Json.distinct_of_readValue_succ` and the like — one step of a reader;
* `LuaAmbient.Json.readsDistinct` — all its steps;
* `LuaAmbient.Json.distinct_of_parse` — **no record in a value that is read has two fields of one
  name**.
-/

import LuaAmbient.Data.JsonReader
import LuaAmbient.Proofs.Keyed

set_option relaxedAutoImplicit false
set_option autoImplicit false

namespace LuaAmbient

/-- The fields of all records in a value have different names. -/
inductive Data.Distinct : Data → Prop
  | null : Distinct .null
  | bool (value : Bool) : Distinct (.bool value)
  | int (value : Int) : Distinct (.int value)
  | real (value : Data.Real) : Distinct (.real value)
  | string (value : String) : Distinct (.string value)
  | date (text : String) : Distinct (.date text)
  | list {items : List Data} : (∀ d ∈ items, Distinct d) → Distinct (.list items)
  | record {fields : List (String × Data)} : (Keyed.keys fields).Nodup →
      (∀ f ∈ fields, Distinct f.2) → Distinct (.record fields)

theorem Data.Distinct.ofList {fields : List (String × Data)} (h : ∀ f ∈ fields, f.2.Distinct) :
    (Data.record (Keyed.ofList fields)).Distinct :=
  .record (Keyed.nodup_keys_ofList fields) fun f hf => h f (Keyed.mem_of_mem_ofList hf)

/-- What is found under a key of such a record. -/
theorem Data.Distinct.get? {fields : List (String × Data)} (h : (Data.record fields).Distinct)
    {key : String} {d : Data} (hd : Keyed.get? fields key = some d) : d.Distinct := by
  cases h with
  | record _ hf => exact hf _ (Keyed.mem_of_get?_eq_some hd)

namespace Json

theorem distinct_of_readNumber {s rest : List Char} {d : Data}
    (h : readNumber s = some (d, rest)) : d.Distinct := by
  unfold readNumber at h
  dsimp only at h
  -- there is a sign or not; in both cases the digits follow
  split at h
  all_goals
    split at h
    · simp at h
    · obtain ⟨fraction, -, h⟩ := Option.bind_eq_some_iff.1 h
      obtain ⟨exponent, -, h⟩ := Option.bind_eq_some_iff.1 h
      obtain ⟨-, h⟩ := Option.ite_none_left_eq_some.1 h
      rcases ite_eq_iff.1 h with ⟨-, h⟩ | ⟨-, h⟩
      · obtain ⟨rfl, -⟩ := Prod.mk.inj (Option.some.inj h)
        exact .int _
      · obtain ⟨rfl, -⟩ := Prod.mk.inj (Option.some.inj h)
        exact .real _

/-- What the readers read with a bound. -/
structure ReadsDistinct (bound : Nat) : Prop where
  value : ∀ {levels : Nat} {s rest : List Char} {d : Data},
    readValue levels bound s = some (d, rest) → d.Distinct
  items : ∀ {levels : Nat} {s rest : List Char} {items : List Data},
    readItems levels bound s = some (items, rest) → ∀ d ∈ items, d.Distinct
  fields : ∀ {levels : Nat} {s rest : List Char} {fields : List (String × Data)},
    readFields levels bound s = some (fields, rest) → ∀ f ∈ fields, f.2.Distinct

section Succ

variable {bound levels : Nat} {s rest : List Char} (ih : ReadsDistinct bound)

include ih

/-- Only lists and records hold values. -/
theorem distinct_of_readValue_succ {d : Data}
    (h : readValue levels (bound + 1) s = some (d, rest)) : d.Distinct := by
  rw [readValue] at h
  split at h
  · obtain ⟨rfl, -⟩ := Prod.mk.inj (Option.some.inj h)
    exact .null
  · obtain ⟨rfl, -⟩ := Prod.mk.inj (Option.some.inj h)
    exact .bool true
  · obtain ⟨rfl, -⟩ := Prod.mk.inj (Option.some.inj h)
    exact .bool false
  · obtain ⟨r, -, hr⟩ := Option.map_eq_some_iff.1 h
    obtain ⟨rfl, -⟩ := Prod.mk.inj hr
    exact .string _
  · split at h
    · simp at h
    · split at h
      · obtain ⟨rfl, -⟩ := Prod.mk.inj (Option.some.inj h)
        exact .list (by simp)
      · obtain ⟨r, hread, hr⟩ := Option.map_eq_some_iff.1 h
        obtain ⟨rfl, -⟩ := Prod.mk.inj hr
        exact .list (ih.items hread)
  · split at h
    · simp at h
    · split at h
      · obtain ⟨rfl, -⟩ := Prod.mk.inj (Option.some.inj h)
        exact .record (by simp) (by simp)
      · obtain ⟨r, hread, hr⟩ := Option.map_eq_some_iff.1 h
        obtain ⟨rfl, -⟩ := Prod.mk.inj hr
        exact .ofList (ih.fields hread)
  · exact distinct_of_readNumber h

theorem distinct_of_readItems_succ {items : List Data}
    (h : readItems levels (bound + 1) s = some (items, rest)) : ∀ d ∈ items, d.Distinct := by
  rw [readItems] at h
  simp only [bind, Option.bind_eq_some_iff] at h
  obtain ⟨⟨value, s'⟩, hv, h⟩ := h
  dsimp only at h
  split at h
  · obtain ⟨rfl, -⟩ := Prod.mk.inj (Option.some.inj h)
    simpa using ih.value hv
  · obtain ⟨r, hread, h⟩ := Option.bind_eq_some_iff.1 h
    obtain ⟨rfl, -⟩ := Prod.mk.inj (Option.some.inj h)
    exact List.forall_mem_cons.2 ⟨ih.value hv, ih.items hread⟩
  · simp at h

theorem distinct_of_readFields_succ {fields : List (String × Data)}
    (h : readFields levels (bound + 1) s = some (fields, rest)) : ∀ f ∈ fields, f.2.Distinct := by
  rw [readFields] at h
  split at h
  · obtain ⟨⟨key, s'⟩, -, h⟩ := Option.bind_eq_some_iff.1 h
    dsimp only at h
    split at h
    · obtain ⟨⟨value, s''⟩, hv, h⟩ := Option.bind_eq_some_iff.1 h
      dsimp only at h
      split at h
      · obtain ⟨rfl, -⟩ := Prod.mk.inj (Option.some.inj h)
        simpa using ih.value hv
      · obtain ⟨r, hread, h⟩ := Option.bind_eq_some_iff.1 h
        obtain ⟨rfl, -⟩ := Prod.mk.inj (Option.some.inj h)
        exact List.forall_mem_cons.2 ⟨ih.value hv, ih.fields hread⟩
      · simp at h
    · simp at h
  · simp at h

end Succ

theorem readsDistinct (bound : Nat) : ReadsDistinct bound := by
  induction bound with
  | zero => constructor <;> simp [readValue, readItems, readFields]
  | succ bound ih =>
      exact ⟨distinct_of_readValue_succ ih, distinct_of_readItems_succ ih,
        distinct_of_readFields_succ ih⟩

/-- **No record in a value that is read has two fields of one name.** -/
theorem distinct_of_parse {levels : Nat} {s : List Char} {d : Data}
    (h : parse levels s = some d) : d.Distinct := by
  rw [parse] at h
  split at h
  · next value rest hread =>
    split at h
    · obtain rfl := Option.some.inj h
      exact (readsDistinct _).value hread
    · simp at h
  · simp at h

end Json

end LuaAmbient
