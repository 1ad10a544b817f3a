/-
Lists of pairs as maps.

A list of pairs is looked up by key.  If its keys are distinct, the look-up finds exactly the pairs of
the list, and neither the order of the pairs nor sorting them changes what it finds.

Main results:

* `LuaAmbient.Keyed.get?_eq_some_iff` — **with distinct keys, what is found are the pairs of the list**;
* `LuaAmbient.Keyed.get?_put`, `LuaAmbient.Keyed.keys_put` — what a change does to look-ups and keys;
* `LuaAmbient.Keyed.nodup_keys_ofList`, `LuaAmbient.Keyed.ofList_eq_self` — pairs put one after the
  other have distinct keys, and distinct keys stay as they are;
* `LuaAmbient.Keyed.sublist_keys_ofList`, `LuaAmbient.Keyed.keys_ofList` — keys stay in the order in
  which they were first put;
* `LuaAmbient.Keyed.keys_ofList_eq_iff`, `LuaAmbient.Keyed.length_ofList_eq_iff` — none is lost if they
  are distinct;
* `LuaAmbient.Keyed.sorted_increasing`, `LuaAmbient.Keyed.get?_sorted` — pairs in the order of their
  keys;
* `LuaAmbient.Keyed.eq_of_increasing` — a list with increasing keys is known by its look-ups.
-/

import LuaAmbient.Keyed
import LuaAmbient.Proofs.NameSet
import Mathlib.Data.List.Induction

set_option relaxedAutoImplicit false
set_option autoImplicit false

namespace LuaAmbient.Keyed

variable {β γ : Type}

/-! ### Keys -/

@[simp] theorem keys_nil : keys ([] : List (String × β)) = [] := rfl

@[simp] theorem keys_cons (p : String × β) (l : List (String × β)) :
    keys (p :: l) = p.1 :: keys l := rfl

@[simp] theorem keys_append (l l' : List (String × β)) : keys (l ++ l') = keys l ++ keys l' :=
  List.map_append

theorem mem_keys_of_mem {l : List (String × β)} {p : String × β} (h : p ∈ l) : p.1 ∈ keys l :=
  List.mem_map_of_mem h

@[simp] theorem keys_map (l : List (String × β)) (f : β → γ) :
    keys (l.map fun p => (p.1, f p.2)) = keys l := by
  simp [keys, Function.comp_def]

theorem keys_filter_key (l : List (String × β)) (keep : String → Bool) :
    keys (l.filter fun p => keep p.1) = (keys l).filter keep := by
  simp [keys, List.filter_map, Function.comp_def]

/-! ### Look-ups -/

@[simp] theorem get?_nil (key : String) : get? ([] : List (String × β)) key = none := rfl

theorem get?_cons (p : String × β) (l : List (String × β)) (key : String) :
    get? (p :: l) key = if p.1 = key then some p.2 else get? l key := by
  by_cases h : p.1 = key <;> simp [get?, h]

theorem mem_of_get?_eq_some {l : List (String × β)} {key : String} {value : β}
    (h : get? l key = some value) : (key, value) ∈ l := by
  induction l with
  | nil => simp at h
  | cons p l ih =>
      rw [get?_cons] at h
      split at h
      · rename_i hp
        obtain rfl := Option.some.inj h
        subst hp
        exact List.mem_cons_self
      · exact List.mem_cons_of_mem _ (ih h)

@[simp] theorem get?_eq_none_iff {l : List (String × β)} {key : String} :
    get? l key = none ↔ key ∉ keys l := by
  induction l with
  | nil => simp
  | cons p l ih =>
      rw [get?_cons, keys_cons, List.mem_cons, not_or]
      by_cases h : p.1 = key
      · simp [h]
      · rw [if_neg h, ih]
        simp [Ne.symm h]

theorem isSome_get?_iff {l : List (String × β)} {key : String} :
    (get? l key).isSome ↔ key ∈ keys l := by
  rw [← not_iff_not, Bool.not_eq_true, Option.isSome_eq_false_iff, Option.isNone_iff_eq_none,
    get?_eq_none_iff]

/-- A key is present in two lists or in neither if the same is found under it. -/
theorem mem_keys_congr {l l' : List (String × β)} {key : String} (h : get? l key = get? l' key) :
    key ∈ keys l ↔ key ∈ keys l' := by
  rw [← isSome_get?_iff, ← isSome_get?_iff, h]

@[simp] theorem has_iff {l : List (String × β)} {key : String} : has l key = true ↔ key ∈ keys l := by
  simp [has, keys]

/-- With distinct keys, what is found are the pairs of the list. -/
theorem get?_eq_some_iff {l : List (String × β)} (hn : (keys l).Nodup) {key : String} {value : β} :
    get? l key = some value ↔ (key, value) ∈ l := by
  refine ⟨mem_of_get?_eq_some, fun h => ?_⟩
  induction l with
  | nil => simp at h
  | cons p l ih =>
      rw [keys_cons, List.nodup_cons] at hn
      rw [get?_cons]
      rcases List.mem_cons.1 h with rfl | hl
      · simp
      · have hp : p.1 ≠ key := fun hk => hn.1 (hk ▸ mem_keys_of_mem hl)
        rw [if_neg hp]
        exact ih hn.2 hl

theorem get?_congr {l l' : List (String × β)} (hn : (keys l).Nodup) (h : l.Perm l') (key : String) :
    get? l key = get? l' key := by
  have hn' : (keys l').Nodup := ((h.map _).nodup_iff).1 hn
  refine Option.ext ?_
  intro value
  rw [get?_eq_some_iff hn, get?_eq_some_iff hn', h.mem_iff]

theorem get?_map (l : List (String × β)) (f : β → γ) (key : String) :
    get? (l.map fun p => (p.1, f p.2)) key = (get? l key).map f := by
  induction l with
  | nil => rfl
  | cons p l ih =>
      rw [List.map_cons, get?_cons, get?_cons, ih]
      split <;> rfl

theorem get?_filter_key (l : List (String × β)) (keep : String → Bool) (key : String) :
    get? (l.filter fun p => keep p.1) key = if keep key then get? l key else none := by
  induction l with
  | nil => simp
  | cons p l ih =>
      by_cases hp : p.1 = key
      · subst hp
        by_cases hk : keep p.1 <;> simp [hk, get?_cons, ih]
      · by_cases hk : keep p.1 <;> simp [hk, get?_cons, hp, ih]

/-! ### Changes -/

theorem get?_put (l : List (String × β)) (key : String) (value : β) (other : String) :
    get? (put l key value) other = if key = other then some value else get? l other := by
  induction l with
  | nil => simp [put, get?_cons]
  | cons p l ih =>
      rw [put]
      by_cases hp : p.1 = key
      · by_cases hk : key = other
        · simp [hp, hk, get?_cons]
        · simp [hp, hk, get?_cons]
      · by_cases ho : p.1 = other
        · subst ho
          simp [hp, Ne.symm hp, get?_cons]
        · simp [hp, ho, get?_cons, ih]

theorem keys_put (l : List (String × β)) (key : String) (value : β) :
    keys (put l key value) = if key ∈ keys l then keys l else keys l ++ [key] := by
  induction l with
  | nil => simp [put]
  | cons p l ih =>
      rw [put]
      by_cases hp : p.1 = key
      · simp [hp]
      · by_cases hk : key ∈ keys l <;> simp [hp, Ne.symm hp, ih, hk]

@[simp] theorem mem_keys_put {l : List (String × β)} {key other : String} {value : β} :
    other ∈ keys (put l key value) ↔ other = key ∨ other ∈ keys l := by
  rw [keys_put]
  split
  · rename_i h
    constructor
    · exact Or.inr
    · rintro (rfl | ho)
      · exact h
      · exact ho
  · simp [or_comm]

theorem nodup_keys_put {l : List (String × β)} (hn : (keys l).Nodup) (key : String) (value : β) :
    (keys (put l key value)).Nodup := by
  rw [keys_put]
  split
  · exact hn
  · rename_i h
    rw [List.nodup_append]
    refine ⟨hn, by simp, ?_⟩
    intro a ha b hb hab
    rw [List.mem_singleton] at hb
    exact h (hb ▸ hab ▸ ha)

theorem put_append_of_not_mem {l : List (String × β)} {key : String} (h : key ∉ keys l)
    (m : List (String × β)) (value : β) : put (l ++ m) key value = l ++ put m key value := by
  induction l with
  | nil => rfl
  | cons p l ih =>
      rw [keys_cons, List.mem_cons, not_or] at h
      have hp : ¬p.1 = key := fun hk => h.1 hk.symm
      simp [put, hp, ih h.2]

theorem put_of_not_mem {l : List (String × β)} {key : String} (h : key ∉ keys l) (value : β) :
    put l key value = l ++ [(key, value)] := by
  simpa [put] using put_append_of_not_mem h [] value

/-- To put what is there changes nothing. -/
theorem put_of_get?_eq_some {l : List (String × β)} {key : String} {value : β}
    (h : get? l key = some value) : put l key value = l := by
  induction l with
  | nil => simp at h
  | cons p l ih =>
      rw [get?_cons] at h
      by_cases hp : p.1 = key
      · rw [if_pos hp, Option.some.injEq] at h
        subst hp h
        simp [put]
      · rw [if_neg hp] at h
        simp [put, hp, ih h]

theorem put_put (l : List (String × β)) (key : String) (value other : β) :
    put (put l key value) key other = put l key other := by
  induction l with
  | nil => simp [put]
  | cons p l ih =>
      by_cases hp : p.1 = key
      · simp [put, hp]
      · simp [put, hp, ih]

theorem mem_of_mem_put {l : List (String × β)} {key : String} {value : β} {q : String × β}
    (h : q ∈ put l key value) : q = (key, value) ∨ q ∈ l := by
  induction l with
  | nil => simpa [put] using h
  | cons p l ih =>
      by_cases hp : p.1 = key
      · simp only [put, hp, beq_self_eq_true, if_true, List.mem_cons] at h
        exact h.imp_right fun hq => List.mem_cons_of_mem _ hq
      · simp only [put, beq_iff_eq, hp, if_false, List.mem_cons] at h
        rcases h with rfl | hq
        · exact .inr List.mem_cons_self
        · exact (ih hq).imp_right fun hq => List.mem_cons_of_mem _ hq

theorem get?_erase (l : List (String × β)) (key other : String) :
    get? (erase l key) other = if other = key then none else get? l other := by
  rw [erase, get?_filter_key l (· != key)]
  by_cases h : other = key <;> simp [h]

theorem nodup_keys_erase {l : List (String × β)} (hn : (keys l).Nodup) (key : String) :
    (keys (erase l key)).Nodup := by
  rw [erase, keys_filter_key l (· != key)]
  exact hn.filter _

/-! ### Pairs put one after the other -/

theorem nodup_keys_foldl_put (pairs l : List (String × β)) (hn : (keys l).Nodup) :
    (keys (pairs.foldl (fun l p => put l p.1 p.2) l)).Nodup := by
  induction pairs generalizing l with
  | nil => exact hn
  | cons p pairs ih => exact ih _ (nodup_keys_put hn p.1 p.2)

theorem nodup_keys_ofList (pairs : List (String × β)) : (keys (ofList pairs)).Nodup :=
  nodup_keys_foldl_put pairs [] (by simp)

theorem foldl_put_eq_append (pairs l : List (String × β)) (hn : (keys (l ++ pairs)).Nodup) :
    pairs.foldl (fun l p => put l p.1 p.2) l = l ++ pairs := by
  induction pairs generalizing l with
  | nil => simp
  | cons p pairs ih =>
      have hp : p.1 ∉ keys l := by
        intro h
        rw [keys_append, keys_cons, List.nodup_append] at hn
        exact hn.2.2 _ h _ List.mem_cons_self rfl
      rw [List.foldl_cons, put_of_not_mem hp, ih _ (by simpa using hn)]
      simp

theorem ofList_eq_self {pairs : List (String × β)} (hn : (keys pairs).Nodup) :
    ofList pairs = pairs :=
  foldl_put_eq_append pairs [] hn

theorem sublist_keys_foldl_put (pairs l : List (String × β)) :
    (keys (pairs.foldl (fun l p => put l p.1 p.2) l)).Sublist (keys l ++ keys pairs) := by
  induction pairs generalizing l with
  | nil => simp
  | cons p pairs ih =>
      refine (ih (put l p.1 p.2)).trans ?_
      rw [keys_put, keys_cons]
      split
      · exact (List.sublist_cons_self p.1 (keys pairs)).append_left (keys l)
      · simp

/-- The keys stay in the order in which they were first put. -/
theorem sublist_keys_ofList (pairs : List (String × β)) :
    (keys (ofList pairs)).Sublist (keys pairs) :=
  sublist_keys_foldl_put pairs []

/-- All keys are kept exactly if they are distinct. -/
theorem keys_ofList_eq_iff {pairs : List (String × β)} :
    keys (ofList pairs) = keys pairs ↔ (keys pairs).Nodup := by
  constructor
  · intro h
    rw [← h]
    exact nodup_keys_ofList pairs
  · intro h
    rw [ofList_eq_self h]

/-- No pair is lost exactly if the keys are distinct. -/
theorem length_ofList_eq_iff {pairs : List (String × β)} :
    (ofList pairs).length = pairs.length ↔ (keys pairs).Nodup := by
  rw [← keys_ofList_eq_iff]
  constructor
  · intro h
    have hlength : (keys (ofList pairs)).length = (keys pairs).length := by
      rw [keys, keys, List.length_map, List.length_map, h]
    exact (sublist_keys_ofList pairs).eq_of_length hlength
  · intro h
    rw [ofList_eq_self (keys_ofList_eq_iff.1 h)]

theorem mem_keys_foldl_put {pairs l : List (String × β)} {key : String} :
    key ∈ keys (pairs.foldl (fun l p => put l p.1 p.2) l) ↔ key ∈ keys l ∨ key ∈ keys pairs := by
  induction pairs generalizing l with
  | nil => simp
  | cons p pairs ih =>
      rw [List.foldl_cons, ih, mem_keys_put, keys_cons, List.mem_cons]
      tauto

@[simp] theorem mem_keys_ofList {pairs : List (String × β)} {key : String} :
    key ∈ keys (ofList pairs) ↔ key ∈ keys pairs := by
  rw [ofList, mem_keys_foldl_put]
  simp

/-- The keys are the distinct ones, each in the place where it was first put. -/
theorem keys_ofList (pairs : List (String × β)) :
    keys (ofList pairs) = (keys pairs).eraseDups := by
  induction pairs using List.reverseRecOn with
  | nil => simp [ofList]
  | append_singleton pairs p ih =>
      have hput : ofList (pairs ++ [p]) = put (ofList pairs) p.1 p.2 := by simp [ofList]
      rw [hput, keys_put, if_congr mem_keys_ofList rfl rfl, ih, keys_append, List.eraseDups_append]
      by_cases hp : p.1 ∈ keys pairs <;> simp [List.removeAll, hp, List.eraseDups_cons]

theorem get?_foldl_put {pairs l : List (String × β)} (hn : (keys pairs).Nodup)
    (key : String) :
    get? (pairs.foldl (fun l p => put l p.1 p.2) l) key =
      (get? pairs key).or (get? l key) := by
  induction pairs generalizing l with
  | nil => simp
  | cons p pairs ih =>
      rw [keys_cons, List.nodup_cons] at hn
      rw [List.foldl_cons, ih hn.2, get?_put, get?_cons]
      split
      · next he =>
        subst he
        rw [get?_eq_none_iff.2 hn.1]
        rfl
      · rfl

theorem mem_of_mem_foldl_put {pairs l : List (String × β)} {q : String × β}
    (h : q ∈ pairs.foldl (fun l p => put l p.1 p.2) l) (hn : (keys l).Nodup) :
    q ∈ l ∨ q ∈ pairs := by
  induction pairs generalizing l with
  | nil => exact Or.inl h
  | cons p pairs ih =>
      rcases ih h (nodup_keys_put hn p.1 p.2) with hl | hp
      · have hq := (get?_eq_some_iff (nodup_keys_put hn p.1 p.2)).2 hl
        rw [get?_put] at hq
        split at hq
        · rename_i hk
          obtain rfl : q = p := Prod.ext hk.symm (Option.some.inj hq).symm
          exact Or.inr List.mem_cons_self
        · exact Or.inl ((get?_eq_some_iff hn).1 hq)
      · exact Or.inr (List.mem_cons_of_mem _ hp)

/-- Only pairs that were put are held. -/
theorem mem_of_mem_ofList {pairs : List (String × β)} {q : String × β} (h : q ∈ ofList pairs) :
    q ∈ pairs := by
  simpa using mem_of_mem_foldl_put h (by simp)

/-! ### Pairs in the order of their keys -/

theorem sorted_perm (l : List (String × β)) : (sorted l).Perm l :=
  sortBy_perm _ _

@[simp] theorem mem_sorted {l : List (String × β)} {p : String × β} : p ∈ sorted l ↔ p ∈ l :=
  (sorted_perm l).mem_iff

theorem sorted_pairwise (l : List (String × β)) : (sorted l).Pairwise fun a b => a.1 ≤ b.1 :=
  pairwise_sortBy_key Prod.fst l

theorem keys_sorted_perm (l : List (String × β)) : (keys (sorted l)).Perm (keys l) :=
  (sorted_perm l).map _

/-- Distinct keys are put in increasing order. -/
theorem sorted_increasing {l : List (String × β)} (hn : (keys l).Nodup) :
    (keys (sorted l)).Pairwise (· < ·) :=
  increasing_of_nodup (List.pairwise_map.2 (sorted_pairwise l))
    ((keys_sorted_perm l).nodup_iff.2 hn)

theorem sorted_eq_self {l : List (String × β)} (h : (keys l).Pairwise (· < ·)) : sorted l = l :=
  sortBy_eq_self ((List.pairwise_map.1 h).imp fun hab => decide_eq_true (le_of_lt hab))

theorem get?_sorted {l : List (String × β)} (hn : (keys l).Nodup) (key : String) :
    get? (sorted l) key = get? l key :=
  (get?_congr hn (sorted_perm l).symm key).symm

/-- A list with increasing keys is known by its look-ups. -/
theorem eq_of_increasing {l l' : List (String × β)} (h : (keys l).Pairwise (· < ·))
    (h' : (keys l').Pairwise (· < ·)) (hg : ∀ key, get? l key = get? l' key) : l = l' := by
  have hn := nodup_of_increasing h
  have hn' := nodup_of_increasing h'
  have hp : l.Perm l' := by
    rw [List.perm_ext_iff_of_nodup hn.of_map hn'.of_map]
    rintro ⟨key, value⟩
    rw [← get?_eq_some_iff hn, ← get?_eq_some_iff hn', hg]
  refine List.Perm.eq_of_pairwise ?_ (List.pairwise_map.1 h) (List.pairwise_map.1 h') hp
  intro a b _ _ hab hba
  exact absurd hab (lt_asymm hba)

/-- The order in which pairs with distinct keys are collected does not count. -/
theorem sorted_congr {l l' : List (String × β)} (hn : (keys l).Nodup) (h : l.Perm l') :
    sorted l = sorted l' := by
  have hn' : (keys l').Nodup := ((h.map _).nodup_iff).1 hn
  refine eq_of_increasing (sorted_increasing hn) (sorted_increasing hn') ?_
  intro key
  rw [get?_sorted hn, get?_sorted hn', get?_congr hn h]

theorem sorted_map {l : List (String × β)} (hn : (keys l).Nodup) (f : β → γ) :
    sorted (l.map fun p => (p.1, f p.2)) = (sorted l).map fun p => (p.1, f p.2) := by
  have hn' : (keys (l.map fun p => (p.1, f p.2))).Nodup := by rwa [keys_map]
  refine eq_of_increasing (sorted_increasing hn') ?_ fun key => ?_
  · rw [keys_map]
    exact sorted_increasing hn
  · rw [get?_sorted hn', get?_map, get?_map, get?_sorted hn]

end LuaAmbient.Keyed
