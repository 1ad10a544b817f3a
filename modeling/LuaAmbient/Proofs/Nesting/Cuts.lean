/-
**The cuts of a text at depth zero.**

The places at which a separator stands at depth zero determine the pieces between them, and every text
is taken apart at these places and no others.  In a balanced text no bracket is open at depth zero, so
that each piece is balanced again and has no cut of its own: what was counted from the start of the
text may be counted from the start of the piece.

Main definitions:

* `LuaAmbient.Nesting.joints` — the places of the separators between pieces;
* `LuaAmbient.Nesting.IsCutting` — pieces between the separators at depth zero.

Main results:

* `LuaAmbient.Nesting.cut_induction` — induction over the cuts of a text;
* `LuaAmbient.Nesting.isCutting_pieces`, `LuaAmbient.Nesting.IsCuttingFrom.unique` — a text is taken
  apart in one way;
* `LuaAmbient.Nesting.uncut_of_mem_pieces` — the pieces of a balanced text;
* `LuaAmbient.Nesting.cuts_uniquely` — **what cuts at depth zero leave of a text**.
-/

import LuaAmbient.Proofs.Nesting.Partner

set_option relaxedAutoImplicit false
set_option autoImplicit false

namespace LuaAmbient.Nesting

open LuaAmbient.Text

/-! ### The first cut -/

/-- A text has no cut, or it has a first one. -/
theorem uncutFrom_or_exists_cut (sep : Char → Bool) (d : Int) (s : List Char) :
    UncutFrom sep d s ∨ ∃ a c b, s = a ++ c :: b ∧ UncutFrom sep d a ∧
      isCut sep (d + rise a) c = true := by
  induction s generalizing d with
  | nil => exact .inl (by simp [UncutFrom, depthsFrom])
  | cons c s ih =>
      cases hcut : isCut sep d c with
      | true => exact .inr ⟨[], c, s, rfl, by simp [UncutFrom, depthsFrom], by simpa using hcut⟩
      | false =>
          rcases ih (d + step c) with hs | ⟨a, c', b, rfl, ha, hc'⟩
          · exact .inl (uncutFrom_cons.2 ⟨hcut, hs⟩)
          · refine .inr ⟨c :: a, c', b, rfl, uncutFrom_cons.2 ⟨hcut, ha⟩, ?_⟩
            rwa [rise_cons, ← Int.add_assoc]

/-- Induction over the cuts of a text: what holds of texts without a cut, and of a text if it holds of
what stands behind the first cut, holds of every text. -/
theorem cut_induction (sep : Char → Bool) {motive : Int → List Char → Prop}
    (uncut : ∀ d s, UncutFrom sep d s → motive d s)
    (cut : ∀ d a c b, UncutFrom sep d a → isCut sep (d + rise a) c = true →
      motive (d + rise a + step c) b → motive d (a ++ c :: b))
    (d : Int) (s : List Char) : motive d s := by
  generalize hn : s.length = n
  induction n using Nat.strongRecOn generalizing d s with
  | _ n ih =>
      rcases uncutFrom_or_exists_cut sep d s with hs | ⟨a, c, b, rfl, ha, hc⟩
      · exact uncut d s hs
      · refine cut d a c b ha hc (ih b.length ?_ _ b rfl)
        simp only [List.length_append, List.length_cons] at hn
        omega

theorem breakFrom_of_uncut {sep : Char → Bool} {d : Int} {s : List Char} (h : UncutFrom sep d s) :
    breakFrom sep d s = none := by
  induction s generalizing d with
  | nil => rfl
  | cons c s ih =>
      obtain ⟨hcut, hs⟩ := uncutFrom_cons.1 h
      rw [breakFrom, hcut, depthAfter_eq, ih hs]
      rfl

theorem breakFrom_append_cut {sep : Char → Bool} {d : Int} {s : List Char}
    (h : UncutFrom sep d s) {c : Char} (hc : isCut sep (d + rise s) c = true) (rest : List Char) :
    breakFrom sep d (s ++ c :: rest) = some (s, rest) := by
  induction s generalizing d with
  | nil =>
      rw [rise_nil, Int.add_zero] at hc
      rw [List.nil_append, breakFrom, hc]
      rfl
  | cons x s ih =>
      obtain ⟨hcut, hs⟩ := uncutFrom_cons.1 h
      rw [rise_cons, ← Int.add_assoc] at hc
      rw [List.cons_append, breakFrom, hcut, depthAfter_eq, ih hs hc]
      rfl

/-- A cut at a single separator. -/
theorem isCut_beq_iff {sep : Char} {d : Int} {c : Char} :
    isCut (· == sep) d c = true ↔ c = sep ∧ depthAt d c = 0 := by
  simp [isCut]

/-! ### Places of cuts -/

/-- The places of the separators between pieces, a separator taking up one place. -/
def joints : List (List Char) → List Nat
  | [] | [_] => []
  | p :: q :: ps => p.length :: (joints (q :: ps)).map (· + (p.length + 1))

theorem mem_joints_cons {p : List Char} {ps : List (List Char)} (h : ps ≠ []) {i : Nat} :
    i ∈ joints (p :: ps) ↔ i = p.length ∨ ∃ j ∈ joints ps, i = p.length + 1 + j := by
  obtain ⟨q, ps, rfl⟩ := List.exists_cons_of_ne_nil h
  simp only [joints, List.mem_cons, List.mem_map]
  refine or_congr_right (exists_congr fun j => and_congr_right fun _ => ?_)
  omega

/-- Behind the first piece, the places are those of the other pieces. -/
theorem add_mem_joints_cons {p : List Char} {ps : List (List Char)} (h : ps ≠ []) {j : Nat} :
    p.length + 1 + j ∈ joints (p :: ps) ↔ j ∈ joints ps := by
  rw [mem_joints_cons h]
  constructor
  · rintro (h | ⟨j', hj', h⟩)
    · omega
    · obtain rfl : j = j' := by omega
      exact hj'
  · exact fun hj => .inr ⟨j, hj, rfl⟩

theorem length_le_of_mem_joints_cons {p : List Char} {ps : List (List Char)} {i : Nat}
    (h : i ∈ joints (p :: ps)) : p.length ≤ i := by
  cases ps with
  | nil => simp [joints] at h
  | cons q ps =>
      rcases (mem_joints_cons (by simp)).1 h with rfl | ⟨j, -, rfl⟩
      · exact le_refl _
      · omega

/-- Pieces of one text with the separators between them at the same places are the same. -/
theorem eq_of_joints {sep : Char} {ps qs : List (List Char)} (hps : ps ≠ []) (hqs : qs ≠ [])
    (hjoin : [sep].intercalate ps = [sep].intercalate qs)
    (hplaces : ∀ i, i ∈ joints ps ↔ i ∈ joints qs) : ps = qs := by
  induction ps generalizing qs with
  | nil => exact absurd rfl hps
  | cons p ps ih =>
      obtain ⟨q, qs, rfl⟩ := List.exists_cons_of_ne_nil hqs
      have hfirst : ∀ {a : List Char} {as : List (List Char)}, as ≠ [] → a.length ∈ joints (a :: as) :=
        fun h => (mem_joints_cons h).2 (.inl rfl)
      have hnone : ∀ {i : Nat} {a : List Char}, i ∉ joints [a] := by simp [joints]
      by_cases hp : ps = []
      · by_cases hq : qs = []
        · subst hp hq
          simpa using hjoin
        · subst hp
          exact absurd ((hplaces _).2 (hfirst hq)) hnone
      · by_cases hq : qs = []
        · subst hq
          exact absurd ((hplaces _).1 (hfirst hp)) hnone
        · -- the first separator stands behind the first piece on either side
          have hlen : p.length = q.length :=
            le_antisymm (length_le_of_mem_joints_cons ((hplaces _).2 (hfirst hq)))
              (length_le_of_mem_joints_cons ((hplaces _).1 (hfirst hp)))
          obtain ⟨p', ps', rfl⟩ := List.exists_cons_of_ne_nil hp
          obtain ⟨q', qs', rfl⟩ := List.exists_cons_of_ne_nil hq
          rw [List.intercalate_cons_cons, List.intercalate_cons_cons, List.append_assoc,
            List.append_assoc] at hjoin
          obtain ⟨rfl, htail⟩ := List.append_inj hjoin hlen
          have hrest := ih hp hq (List.append_cancel_left htail) fun j => by
            rw [← add_mem_joints_cons hp, hplaces, add_mem_joints_cons hq]
          rw [hrest]

/-! ### Cuttings -/

/-- A text, standing at depth `d`, is written as pieces with separators between them, which are the
separators at depth zero. -/
structure IsCuttingFrom (sep : Char) (d : Int) (s : List Char) (ps : List (List Char)) : Prop where
  ne_nil : ps ≠ []
  joined : [sep].intercalate ps = s
  places : ∀ i, i ∈ joints ps ↔ (depthsFrom d s)[i]? = some (sep, 0)

/-- A text is written as pieces with separators between them, which are the separators at depth
zero. -/
abbrev IsCutting (sep : Char) (s : List Char) (ps : List (List Char)) : Prop :=
  IsCuttingFrom sep 0 s ps

theorem not_getElem?_of_uncutFrom {sep : Char} {d : Int} {s : List Char}
    (h : UncutFrom (· == sep) d s) (i : Nat) : (depthsFrom d s)[i]? ≠ some (sep, 0) :=
  fun hi => h _ (List.mem_of_getElem? hi) (beq_self_eq_true sep) rfl

theorem isCuttingFrom_of_uncutFrom {sep : Char} {d : Int} {s : List Char}
    (h : UncutFrom (· == sep) d s) : IsCuttingFrom sep d s [s] where
  ne_nil := by simp
  joined := List.intercalate_singleton
  places i := by simp [joints, not_getElem?_of_uncutFrom h i]

/-- A first piece, the separator behind it, and the pieces of the rest. -/
theorem IsCuttingFrom.cons {sep : Char} {d : Int} {a b : List Char} {ps : List (List Char)}
    (ha : UncutFrom (· == sep) d a) (hsep : depthAt (d + rise a) sep = 0)
    (h : IsCuttingFrom sep (d + rise a + step sep) b ps) :
    IsCuttingFrom sep d (a ++ sep :: b) (a :: ps) where
  ne_nil := by simp
  joined := by
    obtain ⟨q, ps, rfl⟩ := List.exists_cons_of_ne_nil h.ne_nil
    rw [List.intercalate_cons_cons, h.joined, List.append_assoc, List.singleton_append]
  places i := by
    rw [depthsFrom_append, depthsFrom_cons, hsep, mem_joints_cons h.ne_nil]
    have hlen := length_depthsFrom d a
    rcases Nat.lt_trichotomy i a.length with hi | rfl | hi
    · -- no separator stands at depth zero in the first piece
      rw [List.getElem?_append_left (by omega)]
      refine iff_of_false ?_ (not_getElem?_of_uncutFrom ha i)
      rintro (rfl | ⟨j, -, rfl⟩) <;> omega
    · rw [List.getElem?_append_right (by omega), hlen, Nat.sub_self]
      exact iff_of_true (.inl rfl) rfl
    · obtain ⟨j, rfl⟩ := Nat.exists_eq_add_of_lt hi
      have hplace : a.length + j + 1 - a.length = j + 1 := by omega
      rw [List.getElem?_append_right (by omega), hlen, hplace, List.getElem?_cons_succ, ← h.places]
      constructor
      · rintro (hj | ⟨j', hj', hj⟩)
        · omega
        · obtain rfl : j = j' := by omega
          exact hj'
      · exact fun hj => .inr ⟨j, hj, by omega⟩

/-- A text is taken apart at its separators of depth zero. -/
theorem isCuttingFrom_piecesFrom (sep : Char) (d : Int) (s : List Char) :
    IsCuttingFrom sep d s (piecesFrom (· == sep) d s) := by
  induction d, s using cut_induction (· == sep) with
  | uncut d s hs =>
      rw [piecesFrom_of_uncut hs]
      exact isCuttingFrom_of_uncutFrom hs
  | cut d a c b ha hc ih =>
      obtain ⟨rfl, hdepth⟩ := isCut_beq_iff.1 hc
      rw [piecesFrom_append_cut ha hc]
      exact .cons ha hdepth ih

theorem isCutting_pieces (sep : Char) (s : List Char) : IsCutting sep s (pieces (· == sep) s) :=
  isCuttingFrom_piecesFrom sep 0 s

/-- A text is taken apart in one way. -/
theorem IsCuttingFrom.unique {sep : Char} {d : Int} {s : List Char} {ps qs : List (List Char)}
    (hps : IsCuttingFrom sep d s ps) (hqs : IsCuttingFrom sep d s qs) : ps = qs :=
  eq_of_joints hps.ne_nil hqs.ne_nil (hps.joined.trans hqs.joined.symm) fun i =>
    (hps.places i).trans (hqs.places i).symm

/-! ### What the cuts leave -/

/-- The pieces of a balanced text are balanced, and no separator stands at depth zero in them. -/
theorem uncut_of_mem_pieces {sep : Char} (hsep : IsPlain sep) {s : List Char}
    (h : balanced s = true) :
    ∀ p ∈ pieces (· == sep) s, balanced p = true ∧ Uncut (· == sep) p := by
  suffices hfrom : ∀ d, d = 0 → ∀ p ∈ piecesFrom (· == sep) d s,
      balanced p = true ∧ Uncut (· == sep) p from hfrom 0 rfl
  intro d
  induction d, s using cut_induction (· == sep) with
  | uncut d s hs =>
      rintro rfl
      rw [piecesFrom_of_uncut hs]
      simpa using ⟨h, hs⟩
  | cut d a c b ha hc ih =>
      rintro rfl
      obtain ⟨rfl, hdepth⟩ := isCut_beq_iff.1 hc
      -- the depth of a separator is the number of brackets that are open there
      have hrise : rise a = 0 := by
        rwa [depthAt_of_not_isCloser hsep.2, Int.zero_add] at hdepth
      obtain ⟨hbal, hrest⟩ := balanced_of_append h hrise
      rw [balanced, closes_plain hsep] at hrest
      rw [piecesFrom_append_cut ha hc, List.forall_mem_cons]
      refine ⟨⟨hbal, ha⟩, ih hrest ?_⟩
      rw [hrise, step_of_isPlain hsep]
      rfl

/-- The parts of a balanced text are balanced. -/
theorem balanced_of_mem_split {sep : Char} (hsep : IsPlain sep) {s : List Char}
    (h : balanced s = true) {p : List Char} (hp : p ∈ split (· == sep) s) : balanced p = true := by
  obtain ⟨q, hq, rfl, -⟩ := exists_piece_of_mem_split hp
  rw [balanced_strip]
  exact (uncut_of_mem_pieces hsep h q hq).1

/-- The part behind the first separator has all other pieces. -/
theorem partition_of_isCutting {sep : Char} {s first : List Char} {rest : List (List Char)}
    (h : IsCutting sep s (first :: rest)) :
    partition (· == sep) s = (strip first, strip ([sep].intercalate rest)) := by
  rcases uncutFrom_or_exists_cut (· == sep) 0 s with hs | ⟨a, c, b, rfl, ha, hc⟩
  · obtain ⟨rfl, rfl⟩ := List.cons.inj (h.unique (isCuttingFrom_of_uncutFrom hs))
    rw [partition, breakFrom_of_uncut hs]
    rfl
  · obtain ⟨rfl, hdepth⟩ := isCut_beq_iff.1 hc
    have hb := isCuttingFrom_piecesFrom c (0 + rise a + step c) b
    obtain ⟨rfl, rfl⟩ := List.cons.inj (h.unique (.cons ha hdepth hb))
    rw [partition, breakFrom_append_cut ha hc, hb.joined]

/-- **What cuts at depth zero leave of a text**: a text is written in one way as pieces with separators
between them that are those at depth zero; splitting gives the stripped pieces that are not empty, and
parting it in two gives the first piece and what stands behind the first separator; and the pieces of a
balanced text are balanced, and have no separator at depth zero when it is counted from their own
start. -/
theorem cuts_uniquely {sep : Char} (hsep : IsPlain sep) (s : List Char) :
    (∃! ps, IsCutting sep s ps) ∧
    ∀ first rest, IsCutting sep s (first :: rest) →
      split (· == sep) s = ((first :: rest).map strip).filter (· ≠ []) ∧
      partition (· == sep) s = (strip first, strip ([sep].intercalate rest)) ∧
      (balanced s = true → ∀ p ∈ first :: rest, balanced p = true ∧ (sep, 0) ∉ depths p) := by
  refine ⟨⟨_, isCutting_pieces sep s, fun ps hps => hps.unique (isCutting_pieces sep s)⟩, ?_⟩
  intro first rest h
  have hpieces : pieces (· == sep) s = first :: rest := (isCutting_pieces sep s).unique h
  refine ⟨?_, partition_of_isCutting h, fun hbal p hp => ?_⟩
  · rw [split, hpieces]
    exact List.filter_congr fun p _ => by cases p <;> rfl
  · obtain ⟨hp', huncut⟩ := uncut_of_mem_pieces hsep hbal p (hpieces ▸ hp)
    exact ⟨hp', fun hmem => huncut _ hmem (beq_self_eq_true sep) rfl⟩

/-- Commas inside brackets are no cuts, and an empty piece is left out. -/
theorem cuts_uniquely_of_nested :
    IsPlain ',' ∧ IsCutting ',' "a<b,c>, ,(d,e)".toList
        ["a<b,c>".toList, " ".toList, "(d,e)".toList] ∧
      split (· == ',') "a<b,c>, ,(d,e)".toList = ["a<b,c>".toList, "(d,e)".toList] ∧
      partition (· == ',') "a<b,c>, ,(d,e)".toList = ("a<b,c>".toList, ",(d,e)".toList) ∧
      balanced "a<b,c>, ,(d,e)".toList = true ∧ (',', 0) ∉ depths "(d,e)".toList := by
  have hsep : IsPlain ',' := by decide
  have hbal : balanced "a<b,c>, ,(d,e)".toList = true := by decide
  have hcut : IsCutting ',' "a<b,c>, ,(d,e)".toList
      ["a<b,c>".toList, " ".toList, "(d,e)".toList] := isCutting_pieces ',' _
  obtain ⟨hsplit, hpart, hpieces⟩ := (cuts_uniquely hsep "a<b,c>, ,(d,e)".toList).2 _ _ hcut
  exact ⟨hsep, hcut, hsplit, hpart, hbal, (hpieces hbal "(d,e)".toList (by simp)).2⟩

end LuaAmbient.Nesting
