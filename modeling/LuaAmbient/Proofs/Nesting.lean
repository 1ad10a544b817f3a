/-
**Depth in balanced texts, and cuts at the outermost level.**

The depth of a character counts all kinds of brackets alike.  In a balanced text it never falls below
the depth at which the text stands, and behind the text it is what it was before.  So a balanced text
can be put into another one without a cut inside it and without closing a bracket around it.

Main definitions:

* `LuaAmbient.Nesting.rise` — how much a text changes the depth;
* `LuaAmbient.Nesting.Uncut` — no separator stands at depth zero;
* `LuaAmbient.Nesting.Item` — a text that can stand between separators.

Main results:

* `LuaAmbient.Nesting.closes_append` — what is behind a text that closes its brackets;
* `LuaAmbient.Nesting.rise_of_balanced`, `LuaAmbient.Nesting.le_of_mem_depthsFrom` — **the depth in a
  balanced text**;
* `LuaAmbient.Nesting.split_intercalate` — **items with separators between them are found again**;
* `LuaAmbient.Nesting.closingIndex?_enclosed`, `LuaAmbient.Nesting.enclosesAll_enclosed` — the partner
  of a bracket around a balanced text.
-/

import Mathlib.Data.List.Basic
import Mathlib.Tactic.Common
import LuaAmbient.Nesting
import LuaAmbient.Proofs.Text.Blank

set_option relaxedAutoImplicit false
set_option autoImplicit false

namespace LuaAmbient.Nesting

open LuaAmbient.Text

/-! ### Brackets -/

/-- A character that neither opens nor closes a bracket. -/
def IsPlain (c : Char) : Prop :=
  isOpener c = false ∧ isCloser c = false

instance (c : Char) : Decidable (IsPlain c) :=
  inferInstanceAs (Decidable (_ ∧ _))

theorem closer?_eq_none_iff {c : Char} : closer? c = none ↔ isOpener c = false := by
  simp only [closer?, isOpener]
  split_ifs <;> simp_all

theorem isCloser_of_closer? {c k : Char} (h : closer? c = some k) : isCloser k = true := by
  rw [closer?] at h
  split_ifs at h <;> · rw [← Option.some.inj h]; rfl

theorem isOpener_of_closer? {c k : Char} (h : closer? c = some k) : isOpener c = true := by
  rw [← Bool.not_eq_false, ← closer?_eq_none_iff, h]
  simp

theorem isCloser_eq_false_of_isOpener {c : Char} (h : isOpener c = true) : isCloser c = false := by
  simp only [isOpener, Bool.or_eq_true, beq_iff_eq] at h
  rcases h with (rfl | rfl) | rfl <;> rfl

/-- Blanks are no brackets. -/
theorem isPlain_of_isBlank {c : Char} (h : isBlank c = true) : IsPlain c := by
  constructor
  · by_contra ho
    simp only [isOpener, Bool.not_eq_false, Bool.or_eq_true, beq_iff_eq] at ho
    rcases ho with (rfl | rfl) | rfl <;> exact absurd h (by decide)
  · by_contra hk
    simp only [isCloser, Bool.not_eq_false, Bool.or_eq_true, beq_iff_eq] at hk
    rcases hk with (rfl | rfl) | rfl <;> exact absurd h (by decide)

/-! ### Depth -/

/-- How much a character changes the depth. -/
def step (c : Char) : Int :=
  if isOpener c then 1 else if isCloser c then -1 else 0

theorem depthAfter_eq (d : Int) (c : Char) : depthAfter d c = d + step c := by
  rw [depthAfter, step]
  split
  · rfl
  · split
    · rfl
    · rw [Int.add_zero]

/-- Only a closing bracket does not stand at the depth of the text in front of it. -/
theorem depthAt_of_not_isCloser {c : Char} (h : isCloser c = false) (d : Int) : depthAt d c = d := by
  rw [depthAt, h]
  rfl

theorem step_of_isPlain {c : Char} (h : IsPlain c) : step c = 0 := by
  simp [step, h.1, h.2]

theorem step_of_isOpener {c : Char} (h : isOpener c = true) : step c = 1 :=
  if_pos h

theorem step_of_isCloser {c : Char} (h : isCloser c = true) : step c = -1 := by
  have ho : isOpener c = false := by
    by_contra ho
    rw [isCloser_eq_false_of_isOpener (by simpa using ho)] at h
    exact absurd h (by decide)
  simp [step, ho, h]

/-- How much a text changes the depth. -/
def rise : List Char → Int
  | [] => 0
  | c :: cs => step c + rise cs

@[simp] theorem rise_nil : rise [] = 0 := rfl

theorem rise_cons (c : Char) (s : List Char) : rise (c :: s) = step c + rise s := rfl

theorem rise_append (s t : List Char) : rise (s ++ t) = rise s + rise t := by
  induction s with
  | nil => simp
  | cons c s ih => rw [List.cons_append, rise_cons, ih, rise_cons, Int.add_assoc]

theorem depthsFrom_cons (d : Int) (c : Char) (s : List Char) :
    depthsFrom d (c :: s) = (c, depthAt d c) :: depthsFrom (d + step c) s := by
  rw [depthsFrom, depthAfter_eq]

theorem depthsFrom_append (d : Int) (s t : List Char) :
    depthsFrom d (s ++ t) = depthsFrom d s ++ depthsFrom (d + rise s) t := by
  induction s generalizing d with
  | nil => simp [depthsFrom]
  | cons c s ih => rw [List.cons_append, depthsFrom_cons, ih, depthsFrom_cons, rise_cons,
      List.cons_append, Int.add_assoc]

theorem length_depthsFrom (d : Int) (s : List Char) : (depthsFrom d s).length = s.length := by
  induction s generalizing d with
  | nil => rfl
  | cons c s ih => rw [depthsFrom, List.length_cons, List.length_cons, ih]

/-- The depth of a character is told by the text in front of it. -/
theorem getElem?_depthsFrom_iff {d : Int} {s : List Char} {i : Nat} {p : Char × Int} :
    (depthsFrom d s)[i]? = some p ↔
      ∃ before after, s = before ++ p.1 :: after ∧ before.length = i ∧
        depthAt (d + rise before) p.1 = p.2 := by
  constructor
  · intro h
    induction s generalizing d i with
    | nil => simp [depthsFrom] at h
    | cons c s ih =>
        rw [depthsFrom_cons] at h
        cases i with
        | zero =>
            obtain rfl := Option.some.inj h
            exact ⟨[], s, rfl, rfl, by simp⟩
        | succ i =>
            rw [List.getElem?_cons_succ] at h
            obtain ⟨before, after, rfl, rfl, hdepth⟩ := ih h
            exact ⟨c :: before, after, rfl, rfl, by rwa [rise_cons, ← Int.add_assoc]⟩
  · rintro ⟨before, after, rfl, rfl, hdepth⟩
    rw [depthsFrom_append, List.getElem?_append_right (by rw [length_depthsFrom]), length_depthsFrom,
      Nat.sub_self, depthsFrom_cons, hdepth]
    rfl

theorem mem_of_mem_depthsFrom {d : Int} {s : List Char} {p : Char × Int}
    (h : p ∈ depthsFrom d s) : p.1 ∈ s := by
  induction s generalizing d with
  | nil => simp [depthsFrom] at h
  | cons c s ih =>
      rw [depthsFrom_cons] at h
      rcases List.mem_cons.1 h with rfl | h
      · exact List.mem_cons_self
      · exact List.mem_cons_of_mem _ (ih h)

/-! ### Balanced texts -/

/-- A character opens a bracket, closes one or does neither. -/
theorem bracket_cases (c : Char) :
    (∃ k, closer? c = some k) ∨ isCloser c = true ∨ IsPlain c := by
  cases hk : closer? c with
  | some k => exact .inl ⟨k, rfl⟩
  | none =>
      by_cases hc : isCloser c = true
      · exact .inr (.inl hc)
      · exact .inr (.inr ⟨closer?_eq_none_iff.1 hk, by simpa using hc⟩)

theorem closes_opener {c k : Char} (h : closer? c = some k) (awaited s : List Char) :
    closes awaited (c :: s) = closes (k :: awaited) s := by
  rw [closes.eq_def]
  simp only [h]

theorem closes_closer {c : Char} (h : isCloser c = true) {awaited s : List Char} :
    closes awaited (c :: s) = true ↔ ∃ ks, awaited = c :: ks ∧ closes ks s = true := by
  have hnone : closer? c = none := by
    rw [closer?_eq_none_iff, ← Bool.not_eq_true]
    intro ho
    rw [isCloser_eq_false_of_isOpener ho] at h
    exact absurd h (by decide)
  rw [closes.eq_def]
  simp only [hnone, h, if_true]
  cases awaited with
  | nil => simp
  | cons k ks => simp [and_assoc]

theorem closes_plain {c : Char} (h : IsPlain c) (awaited s : List Char) :
    closes awaited (c :: s) = closes awaited s := by
  rw [closes.eq_def]
  simp [closer?_eq_none_iff.2 h.1, h.2]

/-- Behind a text that closes the brackets awaited first, the others are awaited. -/
theorem closes_append {awaited s : List Char} (h : closes awaited s = true)
    (more rest : List Char) : closes (awaited ++ more) (s ++ rest) = closes more rest := by
  induction s generalizing awaited with
  | nil =>
      have hnil : awaited = [] := by simpa [closes] using h
      rw [hnil, List.nil_append, List.nil_append]
  | cons c s ih =>
      rw [List.cons_append]
      rcases bracket_cases c with ⟨k, hk⟩ | hc | hc
      · rw [closes_opener hk] at h ⊢
        exact ih h
      · obtain ⟨ks, rfl, hks⟩ := (closes_closer hc).1 h
        rw [← ih hks, Bool.eq_iff_iff, List.cons_append, closes_closer hc]
        simp
      · rw [closes_plain hc] at h ⊢
        exact ih h

theorem closes_balanced {s : List Char} (h : balanced s = true) (awaited rest : List Char) :
    closes awaited (s ++ rest) = closes awaited rest :=
  closes_append (show closes [] s = true from h) awaited rest

/-- A text that closes brackets takes the depth down by their number, and nothing in it stands
lower. -/
theorem depth_of_closes {awaited s : List Char} (h : closes awaited s = true) (d : Int) :
    rise s = -awaited.length ∧ ∀ p ∈ depthsFrom d s, d - awaited.length ≤ p.2 := by
  induction s generalizing awaited d with
  | nil =>
      have hnil : awaited = [] := by simpa [closes] using h
      simp [hnil, depthsFrom]
  | cons c s ih =>
      rw [rise_cons, depthsFrom_cons]
      rcases bracket_cases c with ⟨k, hk⟩ | hc | hc
      · rw [closes_opener hk] at h
        have ho := isOpener_of_closer? hk
        obtain ⟨hrise, hle⟩ := ih h (d + step c)
        rw [step_of_isOpener ho] at hle ⊢
        rw [List.length_cons] at hrise hle
        refine ⟨by omega, fun p hp => ?_⟩
        rcases List.mem_cons.1 hp with rfl | hp
        · simp only [depthAt_of_not_isCloser (isCloser_eq_false_of_isOpener ho)]
          omega
        · have := hle p hp
          omega
      · obtain ⟨ks, rfl, hks⟩ := (closes_closer hc).1 h
        obtain ⟨hrise, hle⟩ := ih hks (d + step c)
        rw [step_of_isCloser hc] at hle ⊢
        rw [List.length_cons]
        refine ⟨by omega, fun p hp => ?_⟩
        rcases List.mem_cons.1 hp with rfl | hp
        · simp only [depthAt, hc, if_true]
          omega
        · have := hle p hp
          omega
      · rw [closes_plain hc] at h
        obtain ⟨hrise, hle⟩ := ih h (d + step c)
        rw [step_of_isPlain hc] at hle ⊢
        refine ⟨by omega, fun p hp => ?_⟩
        rcases List.mem_cons.1 hp with rfl | hp
        · simp only [depthAt_of_not_isCloser hc.2]
          omega
        · have := hle p hp
          omega

/-- Behind a balanced text the depth is what it was before. -/
theorem rise_of_balanced {s : List Char} (h : balanced s = true) : rise s = 0 := by
  simpa using (depth_of_closes h 0).1

/-- In a balanced text nothing stands lower than the text. -/
theorem le_of_mem_depthsFrom {s : List Char} (h : balanced s = true) {d : Int} {p : Char × Int}
    (hp : p ∈ depthsFrom d s) : d ≤ p.2 := by
  simpa using (depth_of_closes h d).2 p hp

theorem balanced_append {s t : List Char} (hs : balanced s = true) (ht : balanced t = true) :
    balanced (s ++ t) = true := by
  rw [balanced, closes_balanced hs]
  exact ht

/-- Behind a balanced text, only the rest has to be balanced. -/
theorem balanced_append_iff {s t : List Char} (hs : balanced s = true) :
    balanced (s ++ t) = true ↔ balanced t = true := by
  rw [balanced, closes_balanced hs, ← balanced]

theorem closes_of_isPlain {s : List Char} (h : ∀ c ∈ s, IsPlain c) (awaited rest : List Char) :
    closes awaited (s ++ rest) = closes awaited rest := by
  induction s with
  | nil => rfl
  | cons c s ih =>
      have hc := h c List.mem_cons_self
      rw [List.cons_append, closes_plain hc]
      exact ih fun d hd => h d (List.mem_cons_of_mem _ hd)

/-- Behind a text, characters that are no brackets do not count either. -/
theorem closes_append_of_isPlain {t : List Char} (h : ∀ c ∈ t, IsPlain c) (awaited s : List Char) :
    closes awaited (s ++ t) = closes awaited s := by
  induction s generalizing awaited with
  | nil => simpa using closes_of_isPlain h awaited []
  | cons c s ih =>
      rw [List.cons_append, closes.eq_def, closes.eq_def awaited]
      simp only [ih]

theorem balanced_append_left {s : List Char} (h : ∀ c ∈ s, IsPlain c) (t : List Char) :
    balanced (s ++ t) = balanced t :=
  closes_of_isPlain h [] t

theorem balanced_append_right (s : List Char) {t : List Char} (h : ∀ c ∈ t, IsPlain c) :
    balanced (s ++ t) = balanced s :=
  closes_append_of_isPlain h [] s

theorem balanced_of_isPlain {s : List Char} (h : ∀ c ∈ s, IsPlain c) : balanced s = true := by
  have := closes_of_isPlain h [] []
  rwa [List.append_nil] at this

/-- Brackets around a balanced text. -/
theorem balanced_enclosed {o k : Char} (hk : closer? o = some k) {s : List Char}
    (h : balanced s = true) : balanced (o :: s ++ [k]) = true := by
  rw [balanced, List.cons_append, closes_opener hk, closes_balanced h,
    closes_closer (isCloser_of_closer? hk)]
  exact ⟨[], rfl, rfl⟩

/-- The brackets of a text are those of its stripped part. -/
theorem balanced_strip (s : List Char) : balanced (strip s) = balanced s := by
  obtain ⟨a, b, ha, hb, hs, -⟩ := exists_strip s
  conv_rhs => rw [hs]
  rw [balanced_append_right _ fun c hc => isPlain_of_isBlank (hb c hc),
    balanced_append_left fun c hc => isPlain_of_isBlank (ha c hc)]

/-! ### Cuts -/

/-- No separator stands at depth zero in a text that stands at depth `d`. -/
def UncutFrom (sep : Char → Bool) (d : Int) (s : List Char) : Prop :=
  ∀ p ∈ depthsFrom d s, sep p.1 = true → p.2 ≠ 0

/-- No separator stands at depth zero. -/
abbrev Uncut (sep : Char → Bool) (s : List Char) : Prop :=
  UncutFrom sep 0 s

theorem uncutFrom_append {sep : Char → Bool} {d : Int} {s t : List Char} :
    UncutFrom sep d (s ++ t) ↔ UncutFrom sep d s ∧ UncutFrom sep (d + rise s) t := by
  simp only [UncutFrom, depthsFrom_append, List.mem_append]
  constructor
  · intro h
    exact ⟨fun p hp => h p (.inl hp), fun p hp => h p (.inr hp)⟩
  · rintro ⟨hs, ht⟩ p (hp | hp)
    · exact hs p hp
    · exact ht p hp

theorem uncutFrom_cons {sep : Char → Bool} {d : Int} {c : Char} {s : List Char} :
    UncutFrom sep d (c :: s) ↔ isCut sep d c = false ∧ UncutFrom sep (d + step c) s := by
  rw [UncutFrom, depthsFrom_cons, List.forall_mem_cons]
  refine and_congr_left fun _ => ?_
  simp [isCut]

theorem uncutFrom_of_forall {sep : Char → Bool} {s : List Char} (h : ∀ c ∈ s, sep c = false)
    (d : Int) : UncutFrom sep d s := by
  intro p hp hsep
  rw [h p.1 (mem_of_mem_depthsFrom hp)] at hsep
  exact absurd hsep (by decide)

/-- In brackets, a balanced text has no cut. -/
theorem uncutFrom_of_balanced (sep : Char → Bool) {s : List Char} (h : balanced s = true) {d : Int}
    (hd : 0 < d) : UncutFrom sep d s := by
  intro p hp _
  have := le_of_mem_depthsFrom h hp
  omega

theorem uncut_append {sep : Char → Bool} {s t : List Char} (hb : balanced s = true) :
    Uncut sep (s ++ t) ↔ Uncut sep s ∧ Uncut sep t := by
  rw [Uncut, uncutFrom_append, rise_of_balanced hb, Int.add_zero]

/-- Brackets around a balanced text hide all separators in it. -/
theorem uncut_enclosed {sep : Char → Bool} {o k : Char} (hk : closer? o = some k)
    (ho' : sep o = false) (hk' : sep k = false) {s : List Char} (h : balanced s = true) :
    Uncut sep (o :: s ++ [k]) := by
  have ho := isOpener_of_closer? hk
  rw [List.cons_append, ← List.singleton_append, Uncut, uncutFrom_append, uncutFrom_append]
  refine ⟨uncutFrom_of_forall (by simpa using ho') _, uncutFrom_of_balanced sep h ?_,
    uncutFrom_of_forall (by simpa using hk') _⟩
  rw [rise_cons, rise_nil, step_of_isOpener ho]
  decide

theorem piecesFrom_of_uncut {sep : Char → Bool} {d : Int} {s : List Char}
    (h : UncutFrom sep d s) : piecesFrom sep d s = [s] := by
  induction s generalizing d with
  | nil => rfl
  | cons c s ih =>
      obtain ⟨hcut, hs⟩ := uncutFrom_cons.1 h
      rw [piecesFrom, hcut, depthAfter_eq, ih hs]
      rfl

theorem piecesFrom_append_cut {sep : Char → Bool} {d : Int} {s : List Char}
    (h : UncutFrom sep d s) {c : Char} (hc : isCut sep (d + rise s) c = true) (rest : List Char) :
    piecesFrom sep d (s ++ c :: rest) = s :: piecesFrom sep (d + rise s + step c) rest := by
  induction s generalizing d with
  | nil =>
      rw [rise_nil, Int.add_zero] at hc ⊢
      rw [List.nil_append, piecesFrom, hc, depthAfter_eq]
      rfl
  | cons x s ih =>
      obtain ⟨hcut, hs⟩ := uncutFrom_cons.1 h
      rw [rise_cons, ← Int.add_assoc] at hc ⊢
      rw [List.cons_append, piecesFrom, hcut, depthAfter_eq, ih hs hc]
      rfl

/-- A text that can stand between separators. -/
structure Item (sep : Char → Bool) (s : List Char) : Prop where
  balanced : balanced s = true
  trimmed : Trimmed s
  ne_nil : s ≠ []
  uncut : Uncut sep s

/-- A text of characters that are neither blank nor brackets nor separators. -/
theorem item_of_forall {sep : Char → Bool} {s : List Char} (hne : s ≠ [])
    (h : ∀ c ∈ s, IsPlain c ∧ isBlank c = false ∧ sep c = false) : Item sep s where
  balanced := balanced_of_isPlain fun c hc => (h c hc).1
  trimmed := trimmed_of_forall fun c hc => (h c hc).2.1
  ne_nil := hne
  uncut := uncutFrom_of_forall (fun c hc => (h c hc).2.2) 0

/-- A balanced text in brackets. -/
theorem item_enclosed {sep : Char → Bool} {o k : Char} (hk : closer? o = some k)
    (ho' : sep o = false) (hk' : sep k = false) {s : List Char} (h : Nesting.balanced s = true) :
    Item sep (o :: s ++ [k]) where
  balanced := balanced_enclosed hk h
  trimmed := by
    refine trimmed_of_ends ?_ ?_
    · have ho := isOpener_of_closer? hk
      rw [← Bool.not_eq_true]
      intro hb
      rw [(isPlain_of_isBlank hb).1] at ho
      exact absurd ho (by decide)
    · have hk := isCloser_of_closer? hk
      rw [← Bool.not_eq_true]
      intro hb
      rw [(isPlain_of_isBlank hb).2] at hk
      exact absurd hk (by decide)
  ne_nil := by simp
  uncut := uncut_enclosed hk ho' hk' h

/-- Two items with something without cuts between them. -/
theorem Item.around {sep : Char → Bool} {s m t : List Char} (hs : Item sep s) (ht : Item sep t)
    (hm : Nesting.balanced m = true) (hm' : Uncut sep m) : Item sep (s ++ m ++ t) where
  balanced := balanced_append (balanced_append hs.balanced hm) ht.balanced
  trimmed := hs.trimmed.around ht.trimmed hs.ne_nil ht.ne_nil
  ne_nil := by simp [hs.ne_nil]
  uncut := (uncut_append (balanced_append hs.balanced hm)).2
    ⟨(uncut_append hs.balanced).2 ⟨hs.uncut, hm'⟩, ht.uncut⟩

theorem Item.append {sep : Char → Bool} {s t : List Char} (hs : Item sep s) (ht : Item sep t) :
    Item sep (s ++ t) := by
  have h : Item sep (s ++ [] ++ t) := hs.around ht rfl (by simp [UncutFrom, depthsFrom])
  rwa [List.append_nil] at h

/-- Items with something without cuts between neighbours. -/
theorem item_intercalate {sep : Char → Bool} {m : List Char}
    (hm : Nesting.balanced m = true) (hm' : Uncut sep m) {items : List (List Char)}
    (hne : items ≠ []) (h : ∀ i ∈ items, Item sep i) : Item sep (m.intercalate items) := by
  induction items with
  | nil => exact absurd rfl hne
  | cons i items ih =>
      have hi := h i List.mem_cons_self
      cases items with
      | nil => rwa [List.intercalate_singleton]
      | cons j items =>
          rw [List.intercalate_cons_cons]
          exact hi.around (ih (by simp) fun x hx => h x (List.mem_cons_of_mem _ hx)) hm hm'

/-- Fewer separators leave fewer cuts. -/
theorem Item.mono {sep sep' : Char → Bool} {s : List Char} (h : Item sep s)
    (hsep : ∀ c, sep' c = true → sep c = true) : Item sep' s :=
  { h with uncut := fun p hp hc => h.uncut p hp (hsep _ hc) }

theorem balanced_intercalate {m : List Char} (hm : balanced m = true) {items : List (List Char)}
    (h : ∀ i ∈ items, balanced i = true) : balanced (m.intercalate items) = true := by
  induction items with
  | nil => rfl
  | cons i items ih =>
      have hi := h i List.mem_cons_self
      have hrest := ih fun j hj => h j (List.mem_cons_of_mem _ hj)
      cases items with
      | nil => rwa [List.intercalate_singleton]
      | cons j items =>
          rw [List.intercalate_cons_cons]
          exact balanced_append (balanced_append hi hm) hrest

theorem split_of_item {sep : Char → Bool} {s : List Char} (h : Item sep s) : split sep s = [s] := by
  rw [split, pieces, piecesFrom_of_uncut h.uncut]
  simp [strip_eq_self h.trimmed, h.ne_nil]

/-- The stripped pieces in front of and behind a separator. -/
theorem split_append_cut {c : Char} (hc : IsPlain c) {b s : List Char} (hb : AllBlank b)
    (hcb : isBlank c = false) (h : Item (· == c) s) (rest : List Char) :
    split (· == c) (b ++ s ++ c :: rest) = s :: split (· == c) rest := by
  have hblank : ∀ x ∈ b, (x == c) = false := by
    intro x hx
    rw [beq_eq_false_iff_ne]
    rintro rfl
    rw [hb x hx] at hcb
    exact absurd hcb (by decide)
  have hplain : balanced b = true := balanced_of_isPlain fun x hx => isPlain_of_isBlank (hb x hx)
  have huncut : Uncut (· == c) (b ++ s) :=
    (uncut_append hplain).2 ⟨uncutFrom_of_forall hblank 0, h.uncut⟩
  have hrise : rise (b ++ s) = 0 := rise_of_balanced (balanced_append hplain h.balanced)
  have hcut : isCut (· == c) (0 + rise (b ++ s)) c = true := by
    simp [isCut, hrise, depthAt_of_not_isCloser hc.2]
  rw [split, pieces, piecesFrom_append_cut huncut hcut, hrise, step_of_isPlain hc]
  simp [split, pieces, strip_append_left hb, strip_eq_self h.trimmed, h.ne_nil]

/-- **Items with a separator and blanks between them are found again.** -/
theorem split_intercalate {c : Char} (hc : IsPlain c) (hcb : isBlank c = false) {b : List Char}
    (hb : AllBlank b) {items : List (List Char)} (h : ∀ i ∈ items, Item (· == c) i) :
    split (· == c) ((c :: b).intercalate items) = items := by
  -- behind a separator the blanks stand in front of the next item
  suffices hgen : ∀ {a : List Char}, AllBlank a →
      split (· == c) (a ++ (c :: b).intercalate items) = items from hgen allBlank_nil
  induction items with
  | nil =>
      intro a ha
      have huncut : UncutFrom (· == c) 0 a := by
        refine uncutFrom_of_forall (fun x hx => ?_) 0
        rw [beq_eq_false_iff_ne]
        rintro rfl
        rw [ha x hx] at hcb
        exact absurd hcb (by decide)
      rw [List.intercalate_nil, List.append_nil, split, pieces, piecesFrom_of_uncut huncut]
      simp [strip_eq_nil_iff.2 ha]
  | cons i items ih =>
      intro a ha
      have hi := h i List.mem_cons_self
      cases items with
      | nil =>
          have hplain : balanced a = true :=
            balanced_of_isPlain fun x hx => isPlain_of_isBlank (ha x hx)
          have huncut : UncutFrom (· == c) 0 a := by
            refine uncutFrom_of_forall (fun x hx => ?_) 0
            rw [beq_eq_false_iff_ne]
            rintro rfl
            rw [ha x hx] at hcb
            exact absurd hcb (by decide)
          rw [List.intercalate_singleton, split, pieces,
            piecesFrom_of_uncut ((uncut_append hplain).2 ⟨huncut, hi.uncut⟩)]
          simp [strip_append_left ha, strip_eq_self hi.trimmed, hi.ne_nil]
      | cons j items =>
          have ih' := ih (fun x hx => h x (List.mem_cons_of_mem _ hx)) hb
          rw [List.intercalate_cons_cons, List.append_assoc, List.cons_append, ← List.append_assoc,
            split_append_cut hc ha hcb hi, ih']

/-! ### Pieces of any text -/

theorem flatten_consFirst (c : Char) (ps : List (List Char)) :
    (consFirst c ps).flatten = c :: ps.flatten := by
  cases ps <;> rfl

theorem length_consFirst (c : Char) {ps : List (List Char)} (h : ps ≠ []) :
    (consFirst c ps).length = ps.length := by
  cases ps with
  | nil => exact absurd rfl h
  | cons => rfl

theorem piecesFrom_ne_nil (sep : Char → Bool) (d : Int) (s : List Char) :
    piecesFrom sep d s ≠ [] := by
  cases s with
  | nil => simp [piecesFrom]
  | cons c s =>
      rw [piecesFrom]
      split
      · simp
      · cases piecesFrom sep (depthAfter d c) s <;> simp [consFirst]

/-- A text has as many characters as its pieces and the separators between them. -/
theorem length_flatten_piecesFrom (sep : Char → Bool) (d : Int) (s : List Char) :
    (piecesFrom sep d s).flatten.length + (piecesFrom sep d s).length = s.length + 1 := by
  induction s generalizing d with
  | nil => rfl
  | cons c s ih =>
      have := ih (depthAfter d c)
      rw [piecesFrom]
      split
      · simp only [List.flatten_cons, List.nil_append, List.length_cons]
        omega
      · rw [flatten_consFirst, length_consFirst _ (piecesFrom_ne_nil _ _ _)]
        simp only [List.length_cons]
        omega

theorem length_add_of_mem_pieces {sep : Char → Bool} {s p : List Char} (h : p ∈ pieces sep s) :
    p.length + (pieces sep s).length ≤ s.length + 1 := by
  have hp := (List.sublist_flatten_of_mem h).length_le
  have := length_flatten_piecesFrom sep 0 s
  rw [pieces] at *
  omega

theorem count_flatten_piecesFrom {sep : Char → Bool} {c : Char} (hc : sep c = false) (d : Int)
    (s : List Char) : (piecesFrom sep d s).flatten.count c = s.count c := by
  induction s generalizing d with
  | nil => rfl
  | cons x s ih =>
      rw [piecesFrom]
      split
      · next hcut =>
        have hne : x ≠ c := by
          rintro rfl
          simp [isCut, hc] at hcut
        rw [List.flatten_cons, List.nil_append, ih, List.count_cons_of_ne hne]
      · rw [flatten_consFirst, List.count_cons, List.count_cons, ih]

/-- The parts of a text have all of its characters except separators and blanks. -/
theorem count_flatten_split {sep : Char → Bool} {c : Char} (hc : sep c = false)
    (hb : isBlank c = false) (s : List Char) : (split sep s).flatten.count c = s.count c := by
  have hfilter : ∀ ps : List (List Char),
      ((ps.map strip).filter fun p => !p.isEmpty).flatten.count c = ps.flatten.count c := by
    intro ps
    induction ps with
    | nil => rfl
    | cons p ps ih =>
        have hp := count_strip hb p
        rw [List.map_cons, List.filter_cons, List.flatten_cons, List.count_append]
        split
        · rw [List.flatten_cons, List.count_append, hp, ih]
        · next hnil =>
          have hstrip : strip p = [] := by simpa using hnil
          rw [hstrip, List.count_nil] at hp
          rw [ih, ← hp, Nat.zero_add]
  rw [split, hfilter, pieces, count_flatten_piecesFrom hc]

theorem exists_piece_of_mem_split {sep : Char → Bool} {s p : List Char} (h : p ∈ split sep s) :
    ∃ q ∈ pieces sep s, p = strip q ∧ p ≠ [] := by
  rw [split, List.mem_filter, List.mem_map] at h
  obtain ⟨⟨q, hq, rfl⟩, hne⟩ := h
  exact ⟨q, hq, rfl, by simpa using hne⟩

theorem length_le_of_mem_split {sep : Char → Bool} {s p : List Char} (h : p ∈ split sep s) :
    p.length ≤ s.length := by
  obtain ⟨q, hq, rfl, -⟩ := exists_piece_of_mem_split h
  have h₁ := length_add_of_mem_pieces hq
  have h₂ := length_strip_le q
  have h₃ := List.length_pos_iff.2 (piecesFrom_ne_nil sep 0 s)
  rw [pieces] at h₁
  omega

/-- Where there is a cut, every part is shorter than the text. -/
theorem length_lt_of_mem_split {sep : Char → Bool} {s p : List Char} (h : p ∈ split sep s)
    (hcut : 1 < (split sep s).length) : p.length < s.length := by
  obtain ⟨q, hq, rfl, -⟩ := exists_piece_of_mem_split h
  have h₁ := length_add_of_mem_pieces hq
  have h₂ := length_strip_le q
  have h₃ : (split sep s).length ≤ (pieces sep s).length := by
    rw [split]
    exact (List.length_filter_le _ _).trans (by simp)
  omega

/-! ### Partners -/

theorem closingFrom_append {target d : Int} {s : List Char}
    (h : ∀ p ∈ depthsFrom d s, p.2 ≠ target) (rest : List Char) :
    closingFrom target d (s ++ rest) =
      (closingFrom target (d + rise s) rest).map (· + s.length) := by
  induction s generalizing d with
  | nil => simp
  | cons c s ih =>
      rw [depthsFrom_cons, List.forall_mem_cons] at h
      rw [List.cons_append, closingFrom, if_neg (by simp [h.1]), depthAfter_eq, ih h.2, rise_cons,
        Int.add_assoc, Option.map_map]
      refine congrArg (Option.map · _) (funext fun n => ?_)
      simp only [Function.comp_apply, List.length_cons]
      omega

/-- The partner of a bracket around a balanced text. -/
theorem closingIndex?_enclosed {o k : Char} (ho : isOpener o = true) (hk : isCloser k = true)
    {s : List Char} (h : balanced s = true) (before behind : List Char) :
    closingIndex? (before ++ o :: (s ++ k :: behind)) before.length =
      some (before.length + 1 + s.length) := by
  have hdepth : depthAt 0 o = 0 := depthAt_of_not_isCloser (isCloser_eq_false_of_isOpener ho) 0
  have hinside : ∀ p ∈ depthsFrom 1 s, p.2 ≠ 0 := by
    intro p hp
    have := le_of_mem_depthsFrom h hp
    omega
  have hk' : depthAt 1 k = 0 := by simp [depthAt, hk]
  rw [closingIndex?, List.drop_left]
  simp only [hdepth, depthAfter_eq, step_of_isOpener ho, Int.zero_add]
  rw [closingFrom_append hinside, rise_of_balanced h, Int.add_zero, closingFrom,
    if_pos (by simp [hk, hk'])]
  simp

theorem enclosesAll_enclosed {opener : Char → Bool} {o k : Char} (hp : opener o = true)
    (ho : isOpener o = true) (hk : isCloser k = true) {s : List Char} (h : balanced s = true) :
    enclosesAll opener (o :: s ++ [k]) = true := by
  have hclose := closingIndex?_enclosed ho hk h [] []
  simp only [List.nil_append, List.length_nil, Nat.zero_add] at hclose
  rw [List.cons_append, enclosesAll, hp, hclose]
  simp [Nat.add_comm]

theorem enclosesAll_of_head {opener : Char → Bool} {s : List Char}
    (h : ∀ c ∈ s.head?, opener c = false) : enclosesAll opener s = false := by
  cases s with
  | nil => rfl
  | cons c s => simp [enclosesAll, h c (by simp)]

/-- What stands between a bracket and its partner. -/
theorem drop_take_partner (before inside behind : List Char) (o k : Char) :
    ((before ++ o :: (inside ++ k :: behind)).take (before.length + 1 + inside.length)).drop
      (before.length + 1) = inside := by
  have hs : before ++ o :: (inside ++ k :: behind) = (before ++ [o]) ++ inside ++ k :: behind := by
    simp
  rw [hs, List.take_left' (by simp; omega), List.drop_left' (by simp)]

/-- What stands behind the partner of a bracket. -/
theorem drop_partner (before inside behind : List Char) (o k : Char) :
    (before ++ o :: (inside ++ k :: behind)).drop (before.length + 1 + inside.length + 1) =
      behind := by
  have hs : before ++ o :: (inside ++ k :: behind) =
      (before ++ [o] ++ inside ++ [k]) ++ behind := by
    simp
  rw [hs, List.drop_left' (by simp; omega)]

theorem exists_of_closingFrom {target d : Int} {s : List Char} {i : Nat}
    (h : closingFrom target d s = some i) :
    ∃ inside k behind, s = inside ++ k :: behind ∧ inside.length = i ∧ isCloser k = true := by
  induction s generalizing d i with
  | nil => simp [closingFrom] at h
  | cons c s ih =>
      rw [closingFrom] at h
      split at h
      · next hc =>
        rw [Bool.and_eq_true] at hc
        exact ⟨[], c, s, rfl, Option.some.inj h, hc.1⟩
      · obtain ⟨j, hj, rfl⟩ := Option.map_eq_some_iff.1 h
        obtain ⟨inside, k, behind, rfl, rfl, hk⟩ := ih hj
        exact ⟨c :: inside, k, behind, rfl, rfl, hk⟩

/-- A text with the partner of one of its characters. -/
theorem exists_of_closingIndex? {s : List Char} {i j : Nat} (h : closingIndex? s i = some j) :
    ∃ before o inside k behind, s = before ++ o :: (inside ++ k :: behind) ∧ before.length = i ∧
      j = i + 1 + inside.length ∧ isCloser k = true := by
  rw [closingIndex?] at h
  cases hd : s.drop i with
  | nil => simp [hd] at h
  | cons o rest =>
      rw [hd] at h
      obtain ⟨n, hn, rfl⟩ := Option.map_eq_some_iff.1 h
      obtain ⟨inside, k, behind, rfl, rfl, hk⟩ := exists_of_closingFrom hn
      refine ⟨s.take i, o, inside, k, behind, ?_, ?_, rfl, hk⟩
      · rw [← hd, List.take_append_drop]
      · have := congrArg List.length hd
        simp only [List.length_drop, List.length_cons] at this
        rw [List.length_take]
        omega

theorem exists_of_enclosesAll {opener : Char → Bool} {s : List Char}
    (h : enclosesAll opener s = true) :
    ∃ o inside k, s = o :: inside ++ [k] ∧ opener o = true ∧ isCloser k = true := by
  cases s with
  | nil => simp [enclosesAll] at h
  | cons o s =>
      simp only [enclosesAll, Bool.and_eq_true, beq_iff_eq] at h
      obtain ⟨before, o', inside, k, behind, hs, hlen, hj, hk⟩ := exists_of_closingIndex? h.2
      obtain rfl := List.length_eq_zero_iff.1 hlen
      rw [List.nil_append] at hs
      obtain ⟨rfl, rfl⟩ := List.cons.inj hs
      have hbehind : behind = [] := by
        simp only [List.length_cons, List.length_append] at hj
        exact List.length_eq_zero_iff.1 (by omega)
      exact ⟨o, inside, k, by rw [hbehind]; rfl, h.1, hk⟩

end LuaAmbient.Nesting
