/-
**Where a type ends and its description begins.**

A space at depth zero goes on with the type if a joiner stands on either side of it or a colon in
front of it.  In a text of which all such spaces are held by the character before them, no cut is
made; so the first cut behind it is the one that sets off the description.

Main definitions:

* `LuaAmbient.Nesting.Held` — every space at depth zero stands behind a comma or a colon;
* `LuaAmbient.Nesting.Seamless` — a text that is one type for the cut, whatever follows it;
* `LuaAmbient.Nesting.IsDescription` — a text that can be told from the type in front of it;
* `LuaAmbient.Nesting.Joins` — a space between two texts keeps the type going.

Main results:

* `LuaAmbient.Nesting.cutFrom_append_of_held` — no cut is made inside;
* `LuaAmbient.Nesting.splitDescription_described` — **a type and its description are found again**;
* `LuaAmbient.Nesting.isCutOff_cutFrom` — the cut is made at the first space that does not join;
* `LuaAmbient.Nesting.sets_off_description` — **a description is set off without a loss of text or of
  balance**.
-/

import LuaAmbient.Proofs.Nesting.Partner
import LuaAmbient.Proofs.Nesting.Parts

set_option relaxedAutoImplicit false
set_option autoImplicit false

namespace LuaAmbient.Nesting

open LuaAmbient.Text

/-! ### Held spaces -/

/-- Every space at depth zero stands behind a comma or a colon. -/
def Held (s : List Char) : Prop :=
  ∀ before after, s = before ++ ' ' :: after → rise before = 0 →
    ∃ c ∈ before.getLast?, c = ',' ∨ c = ':'

theorem depthAt_space (d : Int) : depthAt d ' ' = d :=
  depthAt_of_not_isCloser (by decide) d

theorem held_of_not_mem {s : List Char} (h : ' ' ∉ s) : Held s := by
  rintro before after rfl -
  simp at h

/-- A space behind a comma or a colon. -/
theorem held_behind {c : Char} (h : c = ',' ∨ c = ':') : Held [c, ' '] := by
  intro before after heq _
  match before with
  | [] =>
      obtain ⟨rfl, -⟩ := List.cons.inj heq
      rcases h with h | h <;> exact absurd h (by decide)
  | [d] =>
      obtain ⟨rfl, -⟩ := List.cons.inj heq
      exact ⟨c, rfl, h⟩
  | _ :: _ :: _ => simp at heq

theorem Held.append {s t : List Char} (hb : balanced s = true) (hs : Held s) (ht : Held t) :
    Held (s ++ t) := by
  intro before after heq hrise
  rcases List.append_eq_append_iff.1 heq with ⟨u, rfl, htail⟩ | ⟨u, rfl, htail⟩
  · -- the space stands in the second text
    rw [rise_append, rise_of_balanced hb, Int.zero_add] at hrise
    obtain ⟨c, hc, hcases⟩ := ht u after htail hrise
    exact ⟨c, by rw [List.getLast?_append, hc]; rfl, hcases⟩
  · cases u with
    | nil =>
        -- it is the first character of the second text
        rw [List.append_nil] at hb
        obtain ⟨c, hc, -⟩ := ht [] after htail.symm rfl
        simp at hc
    | cons c u =>
        obtain ⟨rfl, rfl⟩ := List.cons.inj htail
        exact hs before u rfl hrise

/-- In brackets, no space stands at depth zero. -/
theorem held_enclosed {o k : Char} (hk : closer? o = some k) {s : List Char}
    (h : balanced s = true) : Held (o :: s ++ [k]) := by
  intro before after heq hrise
  cases before with
  | nil =>
      obtain ⟨rfl, -⟩ := List.cons.inj heq
      exact absurd (isOpener_of_closer? hk) (by decide)
  | cons c before =>
      rw [List.cons_append, List.cons_append, List.cons.injEq] at heq
      obtain ⟨rfl, htail⟩ := heq
      rcases List.eq_nil_or_concat after with rfl | ⟨after, d, rfl⟩
      · obtain ⟨-, hlast⟩ := List.append_inj' htail rfl
        obtain rfl := List.singleton_inj.1 hlast
        exact absurd (isCloser_of_closer? hk) (by decide)
      · rw [List.concat_eq_append, ← List.cons_append, ← List.append_assoc] at htail
        obtain ⟨rfl, -⟩ := List.append_inj' htail rfl
        have hnonneg := rise_nonneg_of_balanced h
        rw [rise_cons, step_of_isOpener (isOpener_of_closer? hk)] at hrise
        omega

theorem held_intercalate {m : List Char} (hb : balanced m = true) (hm : Held m)
    {items : List (List Char)} (h : ∀ i ∈ items, balanced i = true ∧ Held i) :
    Held (m.intercalate items) := by
  induction items with
  | nil => exact held_of_not_mem (by simp)
  | cons i items ih =>
      obtain ⟨hbi, hi⟩ := h i List.mem_cons_self
      cases items with
      | nil => rwa [List.intercalate_singleton]
      | cons j items =>
          rw [List.intercalate_cons_cons]
          exact (hi.append hbi hm).append (balanced_append hbi hb)
            (ih fun x hx => h x (List.mem_cons_of_mem _ hx))

/-! ### The cut -/

/-- A blank behind a comma or a colon keeps the type going. -/
theorem continues_of_last {before : List Char} {c : Char} (hlast : before.getLast? = some c)
    (hc : c = ',' ∨ c = ':') (rest : List Char) : continues before.reverse rest = true := by
  obtain ⟨init, rfl⟩ := List.getLast?_eq_some_iff.1 hlast
  rw [List.reverse_append, List.reverse_singleton, List.singleton_append, continues]
  have hself : ∀ d, isBlank d = false → ∀ r, stripLeft (d :: r) = d :: r := fun d hd r =>
    stripLeft_eq_self (by simpa using hd)
  rcases hc with rfl | rfl
  · simp only [leadsWith, hself ',' (by decide)]
    rfl
  · simp only [leadsWith, hself ':' (by decide)]
    simp

/-- **No cut is made in a text whose spaces are held**, of which a part has been passed already. -/
theorem cutFrom_append_of_held {seen s : List Char} (h : Held (seen ++ s)) (rest : List Char) :
    cutFrom seen.reverse (rise seen) (s ++ rest) =
      (s ++ (cutFrom (seen ++ s).reverse (rise (seen ++ s)) rest).1,
        (cutFrom (seen ++ s).reverse (rise (seen ++ s)) rest).2) := by
  induction s generalizing seen with
  | nil => simp
  | cons c s ih =>
      have hgoes : (c == ' ' && depthAt (rise seen) c == 0 &&
          !continues seen.reverse (c :: s ++ rest)) = false := by
        by_contra hcut
        simp only [Bool.not_eq_false, Bool.and_eq_true, beq_iff_eq] at hcut
        obtain ⟨⟨rfl, hdepth⟩, hcontinues⟩ := hcut
        obtain ⟨d, hd, hcases⟩ := h seen s rfl ((depthAt_space _).symm.trans hdepth)
        rw [continues_of_last hd hcases] at hcontinues
        exact absurd hcontinues (by decide)
      have hmore : seen ++ c :: s = (seen ++ [c]) ++ s := by simp
      have hstep := ih (hmore ▸ h)
      rw [List.reverse_append, rise_append, List.reverse_singleton, List.singleton_append,
        rise_cons, rise_nil, Int.add_zero] at hstep
      rw [List.cons_append, cutFrom, ← List.cons_append, if_neg (by rw [hgoes]; decide),
        depthAfter_eq, hstep, hmore]
      rfl

/-! ### Types with descriptions -/

/-- A text that is one type for the cut, whatever follows it. -/
structure Seamless (s : List Char) : Prop where
  balanced : balanced s = true
  trimmed : Trimmed s
  held : Held s
  last : ∀ c ∈ s.getLast?, isJoiner c = false ∧ c ≠ ':'

/-- A text that can be told from the type in front of it; it may be empty. -/
structure IsDescription (s : List Char) : Prop where
  trimmed : Trimmed s
  head : ∀ c ∈ s.head?, isJoiner c = false ∧ c ≠ '#'

/-- A type with its description behind it. -/
def described (s description : List Char) : List Char :=
  if description = [] then s else s ++ ' ' :: description

theorem described_ne_nil {s : List Char} (hne : s ≠ []) (d : List Char) : described s d ≠ [] := by
  rw [described]
  split <;> simp [hne]

theorem trimmed_described {s d : List Char} (hs : Trimmed s) (hne : s ≠ []) (hd : Trimmed d) :
    Trimmed (described s d) := by
  rw [described]
  split
  · exact hs
  · next hd' => exact hs.spaced hd hne hd'

/-- A description ends the type. -/
theorem continues_of_seamless {s d : List Char} (hs : Seamless s) (hd : IsDescription d)
    (hne : d ≠ []) : continues s.reverse (' ' :: d) = false := by
  obtain ⟨c, d, rfl⟩ := List.exists_cons_of_ne_nil hne
  have hc := hd.trimmed.head c (by simp)
  have hrest : stripLeft (' ' :: c :: d) = c :: d :=
    (stripLeft_append allBlank_space (c :: d)).trans (stripLeft_eq_self (by simpa using hc))
  have hbefore : ∀ p : Char → Bool, (∀ x ∈ s.getLast?, p x = false) →
      leadsWith p s.reverse = false := by
    intro p hp
    have hself : stripLeft s.reverse = s.reverse :=
      stripLeft_eq_self (by simpa using hs.trimmed.last)
    rw [leadsWith, hself]
    rw [← List.head?_reverse] at hp
    cases hr : s.reverse with
    | nil => rfl
    | cons x r => exact hp x (by rw [hr]; rfl)
  have hjoiner := hbefore isJoiner fun x hx => (hs.last x hx).1
  have hcolon := hbefore (· == ':') fun x hx => beq_eq_false_iff_ne.2 (hs.last x hx).2
  have hhead : leadsWith isJoiner (' ' :: c :: d) = false := by
    rw [leadsWith, hrest]
    exact (hd.head c (by simp)).1
  simp [continues, hjoiner, hcolon, hhead]

/-- **A type and its description are found again.** -/
theorem splitDescription_described {s d : List Char} (hs : Seamless s) (hne : s ≠ [])
    (hd : IsDescription d) : splitDescription (described s d) = (s, d) := by
  have hcut := @cutFrom_append_of_held [] s hs.held
  rw [List.reverse_nil, rise_nil, List.nil_append, rise_of_balanced hs.balanced] at hcut
  rw [splitDescription, strip_eq_self (trimmed_described hs.trimmed hne hd.trimmed), described]
  split
  · next hnil =>
    have h := hcut []
    rw [List.append_nil] at h
    rw [h, hnil]
    simp only [cutFrom, List.append_nil, strip_eq_self hs.trimmed]
    rfl
  · next hd' =>
    have hend : cutFrom s.reverse 0 (' ' :: d) = ([], ' ' :: d) := by
      rw [cutFrom, if_pos]
      rw [continues_of_seamless hs hd hd']
      decide
    have hmark : dropMark d = d := by
      rw [dropMark.eq_def]
      split
      · next rest => exact absurd rfl (hd.head '#' (by simp)).2
      · rfl
    rw [hcut, hend, List.append_nil]
    have hstrip : strip (' ' :: d) = d :=
      (strip_append_left allBlank_space d).trans (strip_eq_self hd.trimmed)
    rw [strip_eq_self hs.trimmed, hstrip, hmark]

/-! ### Any text -/

/-- A space between two texts keeps a type going: the last character in front of it that is not blank
is a comma, a bar or a colon, or the first one behind it is a comma or a bar. -/
def Joins (before after : List Char) : Prop :=
  (∃ c ∈ (stripRight before).getLast?, c = ',' ∨ c = '|' ∨ c = ':') ∨
    ∃ c ∈ (stripLeft after).head?, c = ',' ∨ c = '|'

theorem leadsWith_iff {p : Char → Bool} {s : List Char} :
    leadsWith p s = true ↔ ∃ c ∈ (stripLeft s).head?, p c = true := by
  rw [leadsWith]
  split
  · next h => simp [h]
  · next c rest h => simp [h]

theorem continues_iff_joins {before after : List Char} :
    continues before.reverse (' ' :: after) = true ↔ Joins before after := by
  have hlast : (stripLeft before.reverse).head? = (stripRight before).getLast? := by
    rw [stripRight_eq_reverse, List.getLast?_reverse]
  have hspace : stripLeft (' ' :: after) = stripLeft after := stripLeft_append allBlank_space after
  simp only [continues, Bool.or_eq_true, leadsWith_iff, hlast, hspace, Joins, isJoiner, beq_iff_eq]
  constructor
  · rintro ((⟨c, hc, h⟩ | h) | ⟨c, hc, h⟩)
    · exact .inl ⟨c, hc, h.imp_right .inl⟩
    · exact .inr h
    · exact .inl ⟨c, hc, .inr (.inr h)⟩
  · rintro (⟨c, hc, h | h | h⟩ | h)
    · exact .inl (.inl ⟨c, hc, .inl h⟩)
    · exact .inl (.inl ⟨c, hc, .inr h⟩)
    · exact .inr ⟨c, hc, h⟩
    · exact .inl (.inr h)

/-- A text behind `seen` is cut in two: every space at depth zero in the first part joins, and the
second part, unless it is empty, starts with one that does not. -/
structure IsCutOff (seen type rest : List Char) : Prop where
  goes_on : ∀ before after, type = before ++ ' ' :: after → rise (seen ++ before) = 0 →
    Joins (seen ++ before) (after ++ rest)
  stops : rest = [] ∨ ∃ after, rest = ' ' :: after ∧ rise (seen ++ type) = 0 ∧
    ¬ Joins (seen ++ type) after

/-- The cut is made at the first space at depth zero that does not join. -/
theorem isCutOff_cutFrom (seen s : List Char) :
    IsCutOff seen (cutFrom seen.reverse (rise seen) s).1 (cutFrom seen.reverse (rise seen) s).2 := by
  induction s generalizing seen with
  | nil => exact ⟨by simp [cutFrom], .inl rfl⟩
  | cons c s ih =>
      have hseen : cutFrom (c :: seen.reverse) (depthAfter (rise seen) c) s =
          cutFrom (seen ++ [c]).reverse (rise (seen ++ [c])) s := by
        rw [depthAfter_eq, rise_append, rise_cons, rise_nil, Int.add_zero, List.reverse_append]
        rfl
      rw [cutFrom]
      split
      · next hcut =>
        simp only [Bool.and_eq_true, beq_iff_eq, Bool.not_eq_true', ← Bool.not_eq_true] at hcut
        obtain ⟨⟨rfl, hdepth⟩, hjoins⟩ := hcut
        refine ⟨by simp, .inr ⟨s, rfl, ?_, ?_⟩⟩
        · rwa [List.append_nil, ← depthAt_space (rise seen)]
        · rwa [List.append_nil, ← continues_iff_joins]
      · next hcut =>
        simp only [hseen]
        have hrest := cutFrom_append (seen ++ [c]).reverse (rise (seen ++ [c])) s
        obtain ⟨hgoes, hstops⟩ := ih (seen ++ [c])
        generalize cutFrom (seen ++ [c]).reverse (rise (seen ++ [c])) s = r at hrest hgoes hstops ⊢
        refine ⟨fun before after heq hrise => ?_, ?_⟩
        · cases before with
          | nil =>
              -- the first character itself is a space that has not been cut at
              obtain ⟨rfl, rfl⟩ := List.cons.inj heq
              rw [List.append_nil] at hrise ⊢
              rw [hrest, ← continues_iff_joins]
              by_contra hjoins
              exact hcut (by simp [hrise, depthAt_space, hjoins])
          | cons d before =>
              obtain ⟨rfl, htype⟩ := List.cons.inj heq
              have hmore := hgoes before after htype
              simp only [List.append_assoc, List.singleton_append] at hmore
              exact hmore hrise
        · simpa only [List.append_assoc, List.singleton_append] using hstops

/-- What joins with more text behind a text that does not end with a blank joins with this text
alone. -/
theorem joins_of_append {before after rest : List Char} (hne : ¬ AllBlank after)
    (h : Joins before (after ++ rest)) : Joins before after := by
  refine h.imp_right fun hright => ?_
  obtain ⟨c, s, hs⟩ := List.exists_cons_of_ne_nil fun he => hne (stripLeft_eq_nil_iff.1 he)
  rw [stripLeft_append_right hne, hs] at hright
  rwa [hs]

/-- A description loses at most a number sign and the blanks behind it. -/
theorem exists_dropMark {s : List Char} (h : Trimmed s) :
    ∃ mark b, s = mark ++ b ++ dropMark s ∧ (mark = [] ∨ mark = ['#']) ∧ AllBlank b := by
  rw [dropMark.eq_def]
  split
  · next rest =>
    obtain ⟨b, hb, hs, -⟩ := exists_stripLeft rest
    rw [strip_eq_stripLeft (show Trimmed (['#'] ++ rest) from h)]
    exact ⟨['#'], b, congrArg ('#' :: ·) hs, .inr rfl, hb⟩
  · exact ⟨[], [], rfl, .inl rfl, allBlank_nil⟩

theorem balanced_dropMark {s : List Char} (h : balanced s = true) : balanced (dropMark s) = true := by
  rw [dropMark.eq_def]
  split
  · next rest =>
    rw [balanced_strip]
    exact (balanced_append_left (s := ['#']) (by decide) rest).symm.trans h
  · exact h

/-- The two parts of a text that is cut off, and their stripped forms. -/
theorem exists_cutOff (s : List Char) :
    ∃ type rest, strip s = type ++ rest ∧ IsCutOff [] type rest ∧
      splitDescription s = (strip type, dropMark (strip rest)) :=
  ⟨_, _, (cutFrom_append [] 0 (strip s)).symm, isCutOff_cutFrom [] (strip s), rfl⟩

/-- Blanks, and at most a number sign with blanks behind it, are all that stands between a type and its
description. -/
theorem exists_between {type rest : List Char} (h : Trimmed (type ++ rest)) :
    ∃ b mark b', type ++ rest = strip type ++ b ++ mark ++ b' ++ dropMark (strip rest) ∧
      AllBlank b ∧ (mark = [] ∨ mark = ['#']) ∧ AllBlank b' := by
  obtain ⟨w, hw, htype, -⟩ := exists_stripRight type
  obtain ⟨b, hb, hrest, -⟩ := exists_stripLeft rest
  obtain ⟨mark, b', hmark, hcases, hb'⟩ := exists_dropMark (trimmed_strip rest)
  rw [← strip_eq_stripRight h] at htype
  rw [← strip_eq_stripLeft h] at hrest
  refine ⟨w ++ b, mark, b', ?_, hw.append hb, hcases, hb'⟩
  calc type ++ rest = (strip type ++ w) ++ (b ++ strip rest) := by rw [← htype, ← hrest]
    _ = strip type ++ (w ++ b) ++ (mark ++ b' ++ dropMark (strip rest)) := by
        rw [← hmark]
        simp
    _ = strip type ++ (w ++ b) ++ mark ++ b' ++ dropMark (strip rest) := by simp

/-- A balanced text is cut off where no bracket is open. -/
theorem IsCutOff.balanced_parts {type rest : List Char} (h : IsCutOff [] type rest)
    (hbal : balanced (type ++ rest) = true) : balanced type = true ∧ balanced rest = true := by
  rcases h.stops with rfl | ⟨after, -, hrise, -⟩
  · rw [List.append_nil] at hbal
    exact ⟨hbal, rfl⟩
  · exact balanced_of_append hbal (by simpa using hrise)

/-- A space at depth zero joins what stands on both sides of it in the stripped type. -/
theorem IsCutOff.joins {type rest : List Char} (h : IsCutOff [] type rest)
    (htrim : Trimmed (type ++ rest)) {i : Nat} (hi : (depths (strip type))[i]? = some (' ', 0)) :
    Joins ((strip type).take i) ((strip type).drop (i + 1)) := by
  obtain ⟨before, after, ht, rfl, hdepth⟩ := getElem?_depthsFrom_iff.1 hi
  rw [depthAt_space, Int.zero_add] at hdepth
  obtain ⟨w, -, htype, -⟩ := exists_stripRight type
  rw [← strip_eq_stripRight htrim] at htype
  have hends := trimmed_strip type
  rw [ht] at htype hends ⊢
  have hne : ¬ AllBlank after := fun hblank =>
    hends.not_allBlank (by simp) (allBlank_space.append hblank)
  have hjoins := h.goes_on before (after ++ w) (by rw [htype]; simp) (by simpa using hdepth)
  rw [List.nil_append, List.append_assoc] at hjoins
  simpa using joins_of_append hne hjoins

/-- The type ends at the end of the text, or at a space at depth zero that does not join. -/
theorem IsCutOff.ends {type rest : List Char} (h : IsCutOff [] type rest) :
    rest = [] ∨ ∃ i, (depths (type ++ rest))[i]? = some (' ', 0) ∧ (type ++ rest).take i = type ∧
      ¬ Joins ((type ++ rest).take i) ((type ++ rest).drop (i + 1)) := by
  refine h.stops.imp_right ?_
  rintro ⟨after, rfl, hrise, hjoins⟩
  refine ⟨type.length, ?_, List.take_left, ?_⟩
  · refine getElem?_depthsFrom_iff.2 ⟨type, after, rfl, rfl, ?_⟩
    rwa [depthAt_space, Int.zero_add]
  · rw [List.take_left]
    simpa using hjoins

/-- **A description is set off without a loss of text or of balance**: the text is the type, blanks, at
most one number sign with blanks behind it, and the description; the two parts of a balanced text are
balanced; every space at depth zero in the type joins; and the type ends at the end of the text or at
the first space at depth zero that does not. -/
theorem sets_off_description (s : List Char) :
    ∃ t d, splitDescription s = (t, d) ∧
      (∃ b mark b', strip s = t ++ b ++ mark ++ b' ++ d ∧ AllBlank b ∧ (mark = [] ∨ mark = ['#']) ∧
        AllBlank b') ∧
      (balanced (strip s) = true → balanced t = true ∧ balanced d = true) ∧
      (∀ i, (depths t)[i]? = some (' ', 0) → Joins (t.take i) (t.drop (i + 1))) ∧
      (t = strip s ∨ ∃ i, (depths (strip s))[i]? = some (' ', 0) ∧ t = strip ((strip s).take i) ∧
        ¬ Joins ((strip s).take i) ((strip s).drop (i + 1))) := by
  obtain ⟨type, rest, hs, hcut, hsplit⟩ := exists_cutOff s
  have htrim : Trimmed (type ++ rest) := hs ▸ trimmed_strip s
  refine ⟨_, _, hsplit, hs ▸ exists_between htrim, fun hbal => ?_, fun i => hcut.joins htrim, ?_⟩
  · obtain ⟨htype, hrest⟩ := hcut.balanced_parts (hs ▸ hbal)
    rw [← balanced_strip] at htype hrest
    exact ⟨htype, balanced_dropMark hrest⟩
  · rw [hs]
    rcases hcut.ends with rfl | ⟨i, hi, htype, hjoins⟩
    · left
      rw [List.append_nil] at htrim ⊢
      exact strip_eq_self htrim
    · exact .inr ⟨i, hi, by rw [htype], hjoins⟩

/-- A space behind a colon and one in front of a bar join, and the one in front of the number sign does
not. -/
theorem sets_off_description_of_marked :
    splitDescription " fun(a): b<c d> |e  # see (f)".toList =
        ("fun(a): b<c d> |e".toList, "see (f)".toList) ∧
      balanced "fun(a): b<c d> |e".toList = true ∧ balanced "see (f)".toList = true := by
  obtain ⟨t, d, hsplit, -, hbal, -⟩ := sets_off_description " fun(a): b<c d> |e  # see (f)".toList
  have hparts : splitDescription " fun(a): b<c d> |e  # see (f)".toList =
      ("fun(a): b<c d> |e".toList, "see (f)".toList) := by decide
  obtain ⟨rfl, rfl⟩ := Prod.mk.inj (hsplit.symm.trans hparts)
  exact ⟨hparts, hbal (by decide)⟩

end LuaAmbient.Nesting
