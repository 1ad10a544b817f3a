/-
**The partners of brackets.**

The depth counts all kinds of brackets alike, while a balanced text closes them by kind, the last one
first.  In front of every character of a balanced text the brackets that wait to be closed are as many
as the depth, and the rest of the text closes just these.  So the first closing bracket behind an
opening one that stands at its depth is of its kind, and the text between the two is balanced.

Main definitions:

* `LuaAmbient.Nesting.IsPartner` — a bracket and the one that closes it, by their places.

Main results:

* `LuaAmbient.Nesting.exists_awaited` — **the brackets awaited behind a part of a text**;
* `LuaAmbient.Nesting.rise_nonneg_of_balanced`, `LuaAmbient.Nesting.balanced_of_append` — the depth in a
  balanced text, and what the text is cut into where it is zero;
* `LuaAmbient.Nesting.exists_of_closes_append_cons`, `LuaAmbient.Nesting.exists_partner` — where a
  bracket is closed;
* `LuaAmbient.Nesting.IsPartner.unique` — a bracket has one partner;
* `LuaAmbient.Nesting.closingIndex?_eq_findIdx?` — the depth may be counted from the start of the text;
* `LuaAmbient.Nesting.finds_partners` — **the partner is found by the depth alone**.
-/

import LuaAmbient.Proofs.Nesting

set_option relaxedAutoImplicit false
set_option autoImplicit false

namespace LuaAmbient.Nesting

/-! ### Awaited brackets -/

/-- **The brackets awaited behind a part of a text** are as many as the depth there, and the rest of
the text has to close just these. -/
theorem exists_awaited {awaited s rest : List Char} (h : closes awaited (s ++ rest) = true) :
    ∃ stack, (stack.length : Int) = awaited.length + rise s ∧
      ∀ t, closes awaited (s ++ t) = closes stack t := by
  induction s generalizing awaited with
  | nil => exact ⟨awaited, by simp, fun _ => rfl⟩
  | cons c s ih =>
      rw [List.cons_append] at h
      rw [rise_cons]
      rcases bracket_cases c with ⟨k, hk⟩ | hc | hc
      · rw [closes_opener hk] at h
        obtain ⟨stack, hlen, hstack⟩ := ih h
        refine ⟨stack, ?_, fun t => ?_⟩
        · rw [hlen, step_of_isOpener (isOpener_of_closer? hk), List.length_cons]
          omega
        · rw [List.cons_append, closes_opener hk, hstack]
      · obtain ⟨ks, rfl, hks⟩ := (closes_closer hc).1 h
        obtain ⟨stack, hlen, hstack⟩ := ih hks
        refine ⟨stack, ?_, fun t => ?_⟩
        · rw [hlen, step_of_isCloser hc, List.length_cons]
          omega
        · rw [← hstack, Bool.eq_iff_iff, List.cons_append, closes_closer hc]
          simp
      · rw [closes_plain hc] at h
        obtain ⟨stack, hlen, hstack⟩ := ih h
        refine ⟨stack, ?_, fun t => ?_⟩
        · rw [hlen, step_of_isPlain hc, Int.zero_add]
        · rw [List.cons_append, closes_plain hc, hstack]

/-- Behind a part of a balanced text, as many brackets are awaited as the depth there says. -/
theorem exists_awaited_of_balanced {s rest : List Char} (h : balanced (s ++ rest) = true) :
    ∃ stack, (stack.length : Int) = rise s ∧ ∀ t, balanced (s ++ t) = closes stack t := by
  obtain ⟨stack, hlen, hstack⟩ := exists_awaited (show closes [] (s ++ rest) = true from h)
  exact ⟨stack, by simpa using hlen, hstack⟩

/-- In a balanced text the depth never falls below zero. -/
theorem rise_nonneg_of_balanced {s rest : List Char} (h : balanced (s ++ rest) = true) :
    0 ≤ rise s := by
  obtain ⟨stack, hlen, -⟩ := exists_awaited_of_balanced h
  omega

/-- A balanced text falls into two balanced ones where the depth is zero. -/
theorem balanced_of_append {s t : List Char} (h : balanced (s ++ t) = true) (hs : rise s = 0) :
    balanced s = true ∧ balanced t = true := by
  obtain ⟨stack, hlen, hstack⟩ := exists_awaited_of_balanced h
  have hnil : stack = [] := List.length_eq_zero_iff.1 (by omega)
  subst hnil
  refine ⟨?_, ?_⟩
  · rw [← List.append_nil s, hstack]
    rfl
  · rw [balanced, ← hstack]
    exact h

/-- An awaited bracket is closed behind a text that closes the brackets awaited before it. -/
theorem exists_of_closes_append_cons {awaited more s : List Char} {k : Char}
    (h : closes (awaited ++ k :: more) s = true) :
    ∃ inside behind, s = inside ++ k :: behind ∧ closes awaited inside = true ∧
      closes more behind = true := by
  induction s generalizing awaited with
  | nil => simp [closes] at h
  | cons c s ih =>
      rcases bracket_cases c with ⟨k', hk'⟩ | hc | hc
      · rw [closes_opener hk', ← List.cons_append] at h
        obtain ⟨inside, behind, rfl, hinside, hbehind⟩ := ih h
        exact ⟨c :: inside, behind, rfl, by rwa [closes_opener hk'], hbehind⟩
      · obtain ⟨ks, hawaited, hks⟩ := (closes_closer hc).1 h
        cases awaited with
        | nil =>
            -- the bracket that is looked for is the next one to be closed
            obtain ⟨rfl, rfl⟩ := List.cons.inj hawaited
            exact ⟨[], s, rfl, rfl, hks⟩
        | cons a awaited =>
            obtain ⟨rfl, rfl⟩ := List.cons.inj hawaited
            obtain ⟨inside, behind, rfl, hinside, hbehind⟩ := ih hks
            exact ⟨a :: inside, behind, rfl, (closes_closer hc).2 ⟨awaited, rfl, hinside⟩, hbehind⟩
      · rw [closes_plain hc] at h
        obtain ⟨inside, behind, rfl, hinside, hbehind⟩ := ih h
        exact ⟨c :: inside, behind, rfl, by rwa [closes_plain hc], hbehind⟩

/-- A bracket in a balanced text is closed by one of its kind, with a balanced text in between; without
the two and this text, what is left is balanced too. -/
theorem exists_partner {before rest : List Char} {o k : Char} (hk : closer? o = some k)
    (h : balanced (before ++ o :: rest) = true) :
    ∃ inside behind, rest = inside ++ k :: behind ∧ balanced inside = true ∧
      balanced (before ++ behind) = true := by
  obtain ⟨stack, -, hstack⟩ := exists_awaited_of_balanced h
  have hrest : closes ([] ++ k :: stack) rest = true := by
    rw [List.nil_append, ← closes_opener hk, ← hstack]
    exact h
  obtain ⟨inside, behind, rfl, hinside, hbehind⟩ := exists_of_closes_append_cons hrest
  exact ⟨inside, behind, rfl, hinside, (hstack behind).trans hbehind⟩

/-! ### Partners -/

/-- The bracket at place `j` closes the one at place `i`: it stands behind it and is of its kind, and
the text between the two is balanced. -/
structure IsPartner (s : List Char) (i j : Nat) : Prop where
  lt : i < j
  kind : ∃ o k, s[i]? = some o ∧ closer? o = some k ∧ s[j]? = some k
  inside : balanced ((s.take j).drop (i + 1)) = true

theorem exists_append_of_getElem? {s : List Char} {i : Nat} {c : Char} (h : s[i]? = some c) :
    ∃ before rest, s = before ++ c :: rest ∧ before.length = i := by
  obtain ⟨hi, rfl⟩ := List.getElem?_eq_some_iff.1 h
  refine ⟨s.take i, s.drop (i + 1), ?_, List.length_take_of_le hi.le⟩
  rw [← List.drop_eq_getElem_cons, List.take_append_drop]

theorem isPartner_append {o k : Char} (hk : closer? o = some k) {inside : List Char}
    (h : balanced inside = true) (before behind : List Char) :
    IsPartner (before ++ o :: (inside ++ k :: behind)) before.length
      (before.length + 1 + inside.length) where
  lt := by omega
  kind := by
    have hassoc : before ++ o :: (inside ++ k :: behind) = (before ++ o :: inside) ++ k :: behind := by
      simp
    have hplace : before.length + 1 + inside.length = (before ++ o :: inside).length := by
      rw [List.length_append, List.length_cons]
      omega
    refine ⟨o, k, by simp, hk, ?_⟩
    rw [hassoc, hplace, List.getElem?_append_right (le_refl _), Nat.sub_self]
    rfl
  inside := by rwa [drop_take_partner]

theorem IsPartner.exists_append {s : List Char} {i j : Nat} (h : IsPartner s i j) :
    ∃ before o inside k behind, s = before ++ o :: (inside ++ k :: behind) ∧ before.length = i ∧
      j = i + 1 + inside.length ∧ closer? o = some k ∧ balanced inside = true := by
  obtain ⟨o, k, ho, hk, hj⟩ := h.kind
  obtain ⟨before, rest, rfl, rfl⟩ := exists_append_of_getElem? ho
  obtain ⟨n, rfl⟩ := Nat.exists_eq_add_of_lt h.lt
  have hrest : rest[n]? = some k := by
    rw [List.getElem?_append_right (by omega)] at hj
    have hn : before.length + n + 1 - before.length = n + 1 := by omega
    rwa [hn, List.getElem?_cons_succ] at hj
  obtain ⟨inside, behind, rfl, rfl⟩ := exists_append_of_getElem? hrest
  have hplace : before.length + inside.length + 1 = before.length + 1 + inside.length := by omega
  have hinside := h.inside
  rw [hplace, drop_take_partner] at hinside
  exact ⟨before, o, inside, k, behind, rfl, rfl, hplace, hk, hinside⟩

/-- A balanced text that goes on with a closing bracket is not balanced any more. -/
theorem not_balanced_append_closer {s : List Char} (h : balanced s = true) {k : Char}
    (hk : isCloser k = true) (t : List Char) : ¬ balanced (s ++ k :: t) = true := by
  rw [balanced, closes_balanced h, closes_closer hk]
  simp

/-- The first closing bracket that is not closed ends a balanced text. -/
theorem eq_of_append_closer {s s' t t' : List Char} {k k' : Char} (hs : balanced s = true)
    (hs' : balanced s' = true) (hk : isCloser k = true) (hk' : isCloser k' = true)
    (h : s ++ k :: t = s' ++ k' :: t') : s = s' := by
  rcases List.append_eq_append_iff.1 h with ⟨u, rfl, htail⟩ | ⟨u, rfl, htail⟩
  · cases u with
    | nil => rw [List.append_nil]
    | cons c u =>
        obtain ⟨rfl, -⟩ := List.cons.inj htail
        exact absurd hs' (not_balanced_append_closer hs hk u)
  · cases u with
    | nil => rw [List.append_nil]
    | cons c u =>
        obtain ⟨rfl, -⟩ := List.cons.inj htail
        exact absurd hs (not_balanced_append_closer hs' hk' u)

/-- A bracket has one partner. -/
theorem IsPartner.unique {s : List Char} {i j j' : Nat} (h : IsPartner s i j)
    (h' : IsPartner s i j') : j = j' := by
  obtain ⟨before, o, inside, k, behind, rfl, rfl, rfl, hk, hinside⟩ := h.exists_append
  obtain ⟨before', o', inside', k', behind', heq, hlen, rfl, hk', hinside'⟩ := h'.exists_append
  obtain ⟨-, hrest⟩ := List.append_inj heq hlen.symm
  have heq : inside = inside' := eq_of_append_closer hinside hinside' (isCloser_of_closer? hk)
    (isCloser_of_closer? hk') (List.cons.inj hrest).2
  rw [heq]

/-! ### Counting from the start of the text -/

theorem depthAt_add (d e : Int) (c : Char) : depthAt (d + e) c = depthAt d c + e := by
  rw [depthAt, depthAt]
  split
  · omega
  · rfl

theorem depthAfter_add (d e : Int) (c : Char) : depthAfter (d + e) c = depthAfter d c + e := by
  rw [depthAfter_eq, depthAfter_eq]
  omega

/-- Only the difference of the depths counts for the closing bracket that is found. -/
theorem closingFrom_add (target d e : Int) (s : List Char) :
    closingFrom (target + e) (d + e) s = closingFrom target d s := by
  induction s generalizing d with
  | nil => rfl
  | cons c s ih =>
      have hat : (depthAt (d + e) c == target + e) = (depthAt d c == target) := by
        rw [depthAt_add, Bool.eq_iff_iff, beq_iff_eq, beq_iff_eq]
        omega
      rw [closingFrom, closingFrom, hat, depthAfter_add, ih]

theorem closingFrom_eq_findIdx? (target d : Int) (s : List Char) :
    closingFrom target d s =
      (depthsFrom d s).findIdx? fun p => isCloser p.1 && p.2 == target := by
  induction s generalizing d with
  | nil => rfl
  | cons c s ih => rw [closingFrom, depthsFrom, List.findIdx?_cons, ih]

/-- **The depth may be counted from the start of the text**: the closing bracket that is found for a
place is the first one behind it that stands at the depth of that place in the whole text. -/
theorem closingIndex?_eq_findIdx? (s : List Char) (i : Nat) :
    closingIndex? s i = (depths s)[i]?.bind fun p =>
      (((depths s).drop (i + 1)).findIdx? fun q => isCloser q.1 && q.2 == p.2).map (i + 1 + ·) := by
  cases hc : s[i]? with
  | none =>
      have hi : s.length ≤ i := List.getElem?_eq_none_iff.1 hc
      have hdepths : (depths s)[i]? = none :=
        List.getElem?_eq_none_iff.2 (by rwa [depths, length_depthsFrom])
      rw [closingIndex?, List.drop_eq_nil_of_le hi, hdepths]
      rfl
  | some c =>
      obtain ⟨before, rest, rfl, rfl⟩ := exists_append_of_getElem? hc
      have hdepths : depths (before ++ c :: rest) = depthsFrom 0 before ++
          (c, depthAt (rise before) c) :: depthsFrom (depthAfter (rise before) c) rest := by
        rw [depths, depthsFrom_append, Int.zero_add, depthsFrom]
      have hget : (depths (before ++ c :: rest))[before.length]? =
          some (c, depthAt (rise before) c) := by
        rw [hdepths, List.getElem?_append_right (by rw [length_depthsFrom]), length_depthsFrom,
          Nat.sub_self]
        rfl
      have hdrop : (depths (before ++ c :: rest)).drop (before.length + 1) =
          depthsFrom (depthAfter (rise before) c) rest := by
        rw [hdepths, ← List.drop_drop, List.drop_left' (length_depthsFrom 0 before)]
        rfl
      -- The text in front of the place raises both depths alike.
      have hshift := closingFrom_add (depthAt 0 c) (depthAfter 0 c) (rise before) rest
      rw [← depthAt_add, ← depthAfter_add, Int.zero_add] at hshift
      rw [hget, Option.bind_some, hdrop, ← closingFrom_eq_findIdx?, hshift, closingIndex?,
        List.drop_left]

/-! ### Finding partners -/

/-- In a balanced text, the closing bracket that is found is the partner. -/
theorem exists_isPartner {s : List Char} (h : balanced s = true) {i : Nat} {o k : Char}
    (ho : s[i]? = some o) (hk : closer? o = some k) :
    ∃ j, closingIndex? s i = some j ∧ IsPartner s i j := by
  obtain ⟨before, rest, rfl, rfl⟩ := exists_append_of_getElem? ho
  obtain ⟨inside, behind, rfl, hinside, -⟩ := exists_partner hk h
  exact ⟨_, closingIndex?_enclosed (isOpener_of_closer? hk) (isCloser_of_closer? hk) hinside _ _,
    isPartner_append hk hinside before behind⟩

/-- A bracket that is found to be closed at the end of a balanced text has a balanced text behind it, up
to the last character. -/
theorem exists_of_closed_last {before rest : List Char} {o k : Char} (hk : closer? o = some k)
    (h : balanced (before ++ o :: rest) = true)
    (hlast : closingIndex? (before ++ o :: rest) before.length =
      some ((before ++ o :: rest).length - 1)) :
    ∃ inside, rest = inside ++ [k] ∧ balanced inside = true := by
  obtain ⟨inside, behind, rfl, hinside, -⟩ := exists_partner hk h
  rw [closingIndex?_enclosed (isOpener_of_closer? hk) (isCloser_of_closer? hk) hinside] at hlast
  have hbehind : behind = [] := by
    have hlen := Option.some.inj hlast
    simp only [List.length_append, List.length_cons] at hlen
    exact List.length_eq_zero_iff.1 (by omega)
  exact ⟨inside, by rw [hbehind], hinside⟩

/-- A balanced text is one pair of brackets exactly if it is a balanced text with a bracket and its
partner around it. -/
theorem enclosesAll_iff {s : List Char} (h : balanced s = true) {o k : Char}
    (hk : closer? o = some k) :
    enclosesAll (· == o) s = true ↔ ∃ inside, s = o :: inside ++ [k] ∧ balanced inside = true := by
  constructor
  · intro hall
    cases s with
    | nil => simp [enclosesAll] at hall
    | cons c rest =>
        simp only [enclosesAll, Bool.and_eq_true, beq_iff_eq] at hall
        obtain ⟨rfl, hlast⟩ := hall
        obtain ⟨inside, rfl, hinside⟩ := @exists_of_closed_last [] rest c k hk h hlast
        exact ⟨inside, rfl, hinside⟩
  · rintro ⟨inside, rfl, hinside⟩
    exact enclosesAll_enclosed (beq_self_eq_true o) (isOpener_of_closer? hk) (isCloser_of_closer? hk)
      hinside

/-- **The partner of a bracket is found by the depth alone**: in a balanced text, the place that is
found for an opening bracket is that of its only partner, and a text is found to be one pair of
brackets of a kind exactly if these are around a balanced text. -/
theorem finds_partners {s : List Char} (h : balanced s = true) :
    (∀ i o k, s[i]? = some o → closer? o = some k →
      ∃ j, closingIndex? s i = some j ∧ ∀ j', IsPartner s i j' ↔ j' = j) ∧
    ∀ o k, closer? o = some k →
      (enclosesAll (· == o) s = true ↔ ∃ inside, s = o :: inside ++ [k] ∧ balanced inside = true) := by
  refine ⟨fun i o k ho hk => ?_, fun o k hk => enclosesAll_iff h hk⟩
  obtain ⟨j, hj, hpartner⟩ := exists_isPartner h ho hk
  refine ⟨j, hj, fun j' => ⟨fun h' => h'.unique hpartner, ?_⟩⟩
  rintro rfl
  exact hpartner

/-- Brackets of all kinds inside each other, and side by side. -/
theorem finds_partners_of_nested :
    balanced "(a<\x7bb\x7d,(c)>)".toList = true ∧
      (∃ j, closingIndex? "(a<\x7bb\x7d,(c)>)".toList 2 = some j ∧
        ∀ j', IsPartner "(a<\x7bb\x7d,(c)>)".toList 2 j' ↔ j' = j) ∧
      ∃ inside, "(a<\x7bb\x7d,(c)>)".toList = '(' :: inside ++ [')'] ∧ balanced inside = true := by
  have h : balanced "(a<\x7bb\x7d,(c)>)".toList = true := by decide
  exact ⟨h, (finds_partners h).1 2 '<' '>' (by decide) rfl,
    ((finds_partners h).2 '(' ')' rfl).1 (by decide)⟩

end LuaAmbient.Nesting
