/-
Sorted lists of names.

Lists of names stand for sets.  What the program shows of a set is its list in increasing order, and
such a list is known by its members alone: two lists in increasing order with the same members are
equal.

Main results:

* `LuaAmbient.sortBy_perm`, `LuaAmbient.pairwise_sortBy`, `LuaAmbient.sortBy_eq_self`,
  `LuaAmbient.filter_sortBy` — what sorting does, also with elements of one rank;
* `LuaAmbient.mem_orderNames`, `LuaAmbient.mem_sortNames`, `LuaAmbient.mem_dropNames` — the members of
  the lists;
* `LuaAmbient.orderNames_pairwise`, `LuaAmbient.sortNames_pairwise` — both orders;
* `LuaAmbient.eq_of_increasing` — **a list in increasing order is known by its members**;
* `LuaAmbient.sortNames_eq_self`, `LuaAmbient.orderNames_congr` — sorting what is sorted changes
  nothing, and the order in which names are collected does not count.
-/

import LuaAmbient.NameSet
import Mathlib.Data.List.Sort
import Mathlib.Data.String.Basic

set_option relaxedAutoImplicit false
set_option autoImplicit false

namespace LuaAmbient

/-! ### Lists in increasing order -/

/-- A list in increasing order is known by its members. -/
theorem eq_of_increasing {l l' : List String} (h : l.Pairwise (· < ·)) (h' : l'.Pairwise (· < ·))
    (hm : ∀ n, n ∈ l ↔ n ∈ l') : l = l' :=
  h.eq_of_mem_iff h' hm

theorem nodup_of_increasing {l : List String} (h : l.Pairwise (· < ·)) : l.Nodup :=
  h.imp fun hab => ne_of_lt hab

/-- Distinct names in their order are in increasing order. -/
theorem increasing_of_nodup {l : List String} (h : l.Pairwise (· ≤ ·)) (hn : l.Nodup) :
    l.Pairwise (· < ·) :=
  (h.and hn).imp fun hab => lt_of_le_of_ne hab.1 hab.2

/-! ### Sorting -/

section Sorting

variable {α : Type} (le : α → α → Bool)

theorem insertBy_perm (a : α) (l : List α) : (insertBy le a l).Perm (a :: l) := by
  induction l with
  | nil => exact .refl _
  | cons b l ih =>
      rw [insertBy]
      split
      · exact .refl _
      · exact (ih.cons b).trans (.swap a b l)

theorem sortBy_perm (l : List α) : (sortBy le l).Perm l := by
  induction l with
  | nil => exact .refl _
  | cons a l ih => exact (insertBy_perm le a _).trans (ih.cons a)

@[simp] theorem mem_sortBy {l : List α} {a : α} : a ∈ sortBy le l ↔ a ∈ l :=
  (sortBy_perm le l).mem_iff

variable {le}

/-- Sorting what is sorted changes nothing. -/
theorem sortBy_eq_self {l : List α} (h : l.Pairwise fun a b => le a b = true) :
    sortBy le l = l := by
  induction l with
  | nil => rfl
  | cons a l ih =>
      obtain ⟨ha, hl⟩ := List.pairwise_cons.1 h
      rw [sortBy, ih hl]
      cases l with
      | nil => rfl
      | cons b l => rw [insertBy, if_pos (ha b List.mem_cons_self)]

theorem insertBy_pairwise (ht : ∀ a b c, le a b = true → le b c = true → le a c = true)
    (hc : ∀ a b, le a b = true ∨ le b a = true) (a : α) {l : List α}
    (h : l.Pairwise fun a b => le a b = true) :
    (insertBy le a l).Pairwise fun a b => le a b = true := by
  induction l with
  | nil => exact List.pairwise_singleton _ _
  | cons b l ih =>
      obtain ⟨hb, hl⟩ := List.pairwise_cons.1 h
      rw [insertBy]
      split
      · next hab =>
        refine List.pairwise_cons.2 ⟨fun c hcm => ?_, h⟩
        rcases List.mem_cons.1 hcm with rfl | hcm
        · exact hab
        · exact ht a b c hab (hb c hcm)
      · next hab =>
        refine List.pairwise_cons.2 ⟨fun c hcm => ?_, ih hl⟩
        rcases List.mem_cons.1 ((insertBy_perm le a l).mem_iff.1 hcm) with rfl | hcm
        · exact (hc c b).resolve_left hab
        · exact hb c hcm

/-- Sorting puts elements in their order. -/
theorem pairwise_sortBy (ht : ∀ a b c, le a b = true → le b c = true → le a c = true)
    (hc : ∀ a b, le a b = true ∨ le b a = true) (l : List α) :
    (sortBy le l).Pairwise fun a b => le a b = true := by
  induction l with
  | nil => exact .nil
  | cons a l ih => exact insertBy_pairwise ht hc a ih

/-- Sorting by a key puts the keys in their order. -/
theorem pairwise_sortBy_key (key : α → String) (l : List α) :
    (sortBy (fun a b => decide (key a ≤ key b)) l).Pairwise fun a b => key a ≤ key b := by
  refine (pairwise_sortBy (fun a b c hab hbc => ?_) (fun a b => ?_) l).imp of_decide_eq_true
  · exact decide_eq_true (le_trans (of_decide_eq_true hab) (of_decide_eq_true hbc))
  · exact (le_total (key a) (key b)).imp decide_eq_true decide_eq_true

/-- An element is put in front of all elements of its rank. -/
theorem filter_insertBy {keep : α → Bool} {a : α} {l : List α}
    (h : keep a = true → ∀ b ∈ l, keep b = true → le a b = true) :
    (insertBy le a l).filter keep = (a :: l).filter keep := by
  induction l with
  | nil => rfl
  | cons b l ih =>
      rw [insertBy]
      split
      · rfl
      · next hab =>
        have hl := ih fun ha c hc => h ha c (List.mem_cons_of_mem _ hc)
        rw [List.filter_cons, hl, List.filter_cons, List.filter_cons, List.filter_cons]
        cases ha : keep a with
        | false => simp
        | true =>
            have hb : keep b ≠ true := fun hb => hab (h ha b List.mem_cons_self hb)
            simp [hb]

/-- Elements of one rank stay in their order. -/
theorem filter_sortBy {keep : α → Bool}
    (h : ∀ a b, keep a = true → keep b = true → le a b = true) (l : List α) :
    (sortBy le l).filter keep = l.filter keep := by
  induction l with
  | nil => rfl
  | cons a l ih =>
      rw [sortBy, filter_insertBy fun ha b _ hb => h a b ha hb, List.filter_cons, List.filter_cons,
        ih]

end Sorting

/-! ### Names in their order -/

theorem orderNames_perm (names : List String) : (orderNames names).Perm names :=
  sortBy_perm _ _

@[simp] theorem mem_orderNames {names : List String} {n : String} :
    n ∈ orderNames names ↔ n ∈ names :=
  (orderNames_perm names).mem_iff

theorem orderNames_pairwise (names : List String) : (orderNames names).Pairwise (· ≤ ·) :=
  pairwise_sortBy_key id names

theorem orderNames_eq_self {names : List String} (h : names.Pairwise (· ≤ ·)) :
    orderNames names = names :=
  sortBy_eq_self (h.imp decide_eq_true)

/-- The order in which names are collected does not count. -/
theorem orderNames_congr {l l' : List String} (h : l.Perm l') : orderNames l = orderNames l' :=
  ((orderNames_perm l).trans (h.trans (orderNames_perm l').symm)).eq_of_pairwise'
    (orderNames_pairwise l) (orderNames_pairwise l')

@[simp] theorem orderNames_nil : orderNames [] = [] :=
  rfl

@[simp] theorem orderNames_eq_nil {names : List String} : orderNames names = [] ↔ names = [] := by
  constructor
  · intro h
    exact ((orderNames_perm names).symm.trans (h ▸ List.Perm.refl _)).eq_nil
  · rintro rfl
    exact orderNames_nil

/-! ### Distinct names in their order -/

theorem nodup_eraseDups (names : List String) : names.eraseDups.Nodup := by
  -- the tail is cleared of the head before the recursion, so the induction is on the length
  generalize h : names.length = k
  induction k using Nat.strongRecOn generalizing names with
  | _ k ih =>
      cases names with
      | nil => simp
      | cons a as =>
          rw [List.eraseDups_cons, List.nodup_cons]
          refine ⟨by simp [List.mem_eraseDups], ih _ ?_ _ rfl⟩
          have hl := List.length_filter_le (fun b => !b == a) as
          simp only [List.length_cons] at h
          omega

@[simp] theorem mem_sortNames {names : List String} {n : String} :
    n ∈ sortNames names ↔ n ∈ names := by
  simp [sortNames, List.mem_eraseDups]

theorem sortNames_pairwise (names : List String) : (sortNames names).Pairwise (· < ·) :=
  increasing_of_nodup (orderNames_pairwise _)
    ((orderNames_perm _).nodup_iff.2 (nodup_eraseDups names))

theorem sortNames_eq_self {names : List String} (h : names.Pairwise (· < ·)) :
    sortNames names = names :=
  eq_of_increasing (sortNames_pairwise names) h fun _ => mem_sortNames

@[simp] theorem sortNames_eq_nil {names : List String} : sortNames names = [] ↔ names = [] := by
  simp only [List.eq_nil_iff_forall_not_mem, mem_sortNames]

/-! ### Names that are dropped -/

@[simp] theorem mem_dropNames {names other : List String} {n : String} :
    n ∈ dropNames names other ↔ n ∈ names ∧ n ∉ other := by
  simp [dropNames]

end LuaAmbient
