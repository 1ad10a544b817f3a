/-
**Definitions of one function make one signature that covers them.**

Two definitions are merged position by position.  As long as both have a parameter that has to be
given, so does the signature; from the first other position on all parameters may be left out, and the
rest of the arguments ends the list.  A signature of this form is not changed by merging it with
itself, and all that merging makes is of this form.

Main definitions:

* `LuaAmbient.FunctionDecl.IsOrdered` — required parameters, then optional ones, then the rest;
* `LuaAmbient.FunctionDecl.RequiredThrough` — both definitions require all arguments up to a position;
* `LuaAmbient.FunctionDecl.coveringType?` — the type that covers those of two definitions;
* `LuaAmbient.FunctionDecl.IsMerged` — a signature as merging leaves it.

Main results:

* `LuaAmbient.FunctionDecl.inOrder_mergePositions` — the order of the parameters;
* `LuaAmbient.FunctionDecl.of_getElem?_mergePositions` — the parameter at a position;
* `LuaAmbient.FunctionDecl.merge_covers` — **merging yields a signature that covers both definitions**;
* `LuaAmbient.FunctionDecl.merge_merge_self` — **to merge a result with itself only repeats its
  comments**.
-/

import LuaAmbient.Declaration.Overload
import LuaAmbient.Proofs.Keyed
import LuaAmbient.Proofs.TypeScript.OptionalName
import Mathlib.Tactic.Common

set_option relaxedAutoImplicit false
set_option autoImplicit false

namespace LuaAmbient.FunctionDecl

open LuaAmbient.Keyed LuaAmbient.TypeScript

/-! ### Names -/

theorem isOptionalName_sharedName {a b : String} (ha : isOptionalName a = false)
    (hb : isOptionalName b = false) : isOptionalName (sharedName a b) = false := by
  rw [sharedName]
  split
  · exact ha
  · by_cases hempty : b = ""
    · subst hempty
      rw [String.append_empty, isOptionalName_append a (by decide)]
      rfl
    · rw [isOptionalName_append _ hempty]
      exact hb

theorem isOptionalName_sharedName_bareName (a b : String) :
    isOptionalName (sharedName (bareName a) (bareName b)) = false :=
  isOptionalName_sharedName (isOptionalName_bareName a) (isOptionalName_bareName b)

/-- Two names put together are not the name of the rest. -/
theorem sharedName_ne_restName {a : String} (ha : a ≠ restName) (b : String) :
    sharedName a b ≠ restName := by
  rw [sharedName]
  split
  · exact ha
  · intro h
    have hbar : '_' ∈ restName.toList := by
      rw [← h]
      simp
    exact absurd hbar (by decide)

@[simp] theorem markOptional_true (n : String) : markOptional n true = n ++ "?" := rfl

@[simp] theorem markOptional_false (n : String) : markOptional n false = n := rfl

/-- A mark behind a bare name says what it is put there for. -/
theorem isOptionalName_markOptional {n : String} (h : isOptionalName n = false) (mark : Bool) :
    isOptionalName (markOptional n mark) = mark := by
  cases mark with
  | true => exact isOptionalName_append_mark n
  | false => exact h

theorem append_mark_ne_restName (n : String) : n ++ "?" ≠ restName := by
  intro h
  have hmark := isOptionalName_append_mark n
  rw [h] at hmark
  exact absurd hmark (by decide)

/-- A position that both definitions have is not named like the rest: an optional one has a mark, and
one that is not has a name that both definitions leave without a mark. -/
theorem markOptional_sharedName_ne_restName {a : String} (ha : a ≠ restName) (b : String)
    {seen mark : Bool} (hmark : (seen || (isOptionalName a || isOptionalName b)) = mark) :
    markOptional (sharedName (bareName a) (bareName b)) mark ≠ restName := by
  cases mark with
  | true => exact append_mark_ne_restName _
  | false =>
      have hopt := (Bool.or_eq_false_iff.1 hmark).2
      rw [markOptional_false, bareName_eq_self_iff.2 (Bool.or_eq_false_iff.1 hopt).1]
      exact sharedName_ne_restName ha _

/-! ### The order of parameters -/

/-- Required parameters come first, then those that may be left out, and the rest of the arguments can
only be taken by the last one. -/
def IsOrdered (names : List String) : Prop :=
  ∃ required optional rest, names = required ++ optional ++ rest ∧
    (∀ n ∈ required, isOptionalName n = false ∧ n ≠ restName) ∧
    (∀ n ∈ optional, isOptionalName n = true) ∧ (rest = [] ∨ rest = [restName])

/-- Names of parameters in order, none of which is required once an optional one has been seen.  An
optional name has one mark. -/
inductive InOrder : Bool → List String → Prop
  | nil (seen : Bool) : InOrder seen []
  | rest (seen : Bool) : InOrder seen [restName]
  | required {name : String} {names : List String} (hname : isOptionalName name = false)
      (hne : name ≠ restName) (hnames : InOrder false names) : InOrder false (name :: names)
  | optional (seen : Bool) {name : String} {names : List String}
      (hname : isOptionalName name = false) (hnames : InOrder true names) :
      InOrder seen ((name ++ "?") :: names)

namespace InOrder

variable {seen : Bool} {names : List String}

/-- What the first of several names can be. -/
theorem of_cons {name : String} (h : InOrder seen (name :: names)) :
    (name = restName ∧ names = []) ∨
      (seen = false ∧ isOptionalName name = false ∧ name ≠ restName ∧ InOrder false names) ∨
      ∃ stem, name = stem ++ "?" ∧ isOptionalName stem = false ∧ InOrder true names := by
  cases h with
  | rest => exact .inl ⟨rfl, rfl⟩
  | required hname hne hnames => exact .inr (.inl ⟨rfl, hname, hne, hnames⟩)
  | optional _ hname hnames => exact .inr (.inr ⟨_, rfl, hname, hnames⟩)

/-- Names without a required one are in order behind any others. -/
theorem weaken (h : InOrder true names) (seen : Bool) : InOrder seen names := by
  cases h with
  | nil => exact .nil seen
  | rest => exact .rest seen
  | optional _ hname hnames => exact .optional seen hname hnames

/-- Names that are left out do not disturb the order. -/
theorem sublist (h : InOrder seen names) {names' : List String} (hsub : names'.Sublist names) :
    InOrder seen names' := by
  induction h generalizing names' with
  | nil seen =>
      rw [List.sublist_nil.1 hsub]
      exact .nil seen
  | rest seen =>
      rcases List.sublist_singleton.1 hsub with rfl | rfl
      · exact .nil seen
      · exact .rest seen
  | required hname hne _ ih =>
      rcases List.sublist_cons_iff.1 hsub with hsub | ⟨r, rfl, hr⟩
      · exact ih hsub
      · exact .required hname hne (ih hr)
  | optional seen hname _ ih =>
      rcases List.sublist_cons_iff.1 hsub with hsub | ⟨r, rfl, hr⟩
      · exact (ih hsub).weaken seen
      · exact .optional seen hname (ih hr)

/-- Behind an optional parameter no other is required. -/
theorem exists_runs_of_seen (h : InOrder seen names) (hseen : seen = true) :
    ∃ optional rest, names = optional ++ rest ∧ (∀ n ∈ optional, isOptionalName n = true) ∧
      (rest = [] ∨ rest = [restName]) := by
  -- what has been seen is an index, so it stays a variable and is fixed by an equation
  induction h with
  | nil => exact ⟨[], [], rfl, by simp, .inl rfl⟩
  | rest => exact ⟨[], [restName], rfl, by simp, .inr rfl⟩
  | required => exact absurd hseen (by decide)
  | @optional _ name _ _ _ ih =>
      obtain ⟨optional, rest, rfl, hoptional, hrest⟩ := ih rfl
      refine ⟨(name ++ "?") :: optional, rest, rfl, ?_, hrest⟩
      intro n hn
      rcases List.mem_cons.1 hn with rfl | hn
      · exact isOptionalName_append_mark name
      · exact hoptional n hn

theorem isOrdered (h : InOrder seen names) : IsOrdered names := by
  induction h with
  | nil => exact ⟨[], [], [], rfl, by simp, by simp, .inl rfl⟩
  | rest => exact ⟨[], [], [restName], rfl, by simp, by simp, .inr rfl⟩
  | @required name _ hname hne _ ih =>
      obtain ⟨required, optional, rest, rfl, hrequired, hoptional, hrest⟩ := ih
      refine ⟨name :: required, optional, rest, rfl, ?_, hoptional, hrest⟩
      intro n hn
      rcases List.mem_cons.1 hn with rfl | hn
      · exact ⟨hname, hne⟩
      · exact hrequired n hn
  | optional seen hname hnames =>
      obtain ⟨optional, rest, hsplit, hoptional, hrest⟩ :=
        (InOrder.optional true hname hnames).exists_runs_of_seen rfl
      exact ⟨[], optional, rest, hsplit, by simp, hoptional, hrest⟩

end InOrder

/-! ### One position after the other -/

section Positions

variable {a b : String × ParamDecl} (seen : Bool) (as bs : List (String × ParamDecl))

theorem mergePositions_nil_left : mergePositions seen [] bs = mergeTail bs := by
  rw [mergePositions]

theorem mergePositions_nil_right : mergePositions seen as [] = mergeTail as := by
  cases as with
  | nil => exact mergePositions_nil_left seen []
  | cons a as =>
      rw [mergePositions]
      simp

/-- The rest of the arguments of either definition ends the list. -/
theorem mergePositions_rest (h : a.1 = restName ∨ b.1 = restName) :
    mergePositions seen (a :: as) (b :: bs) = [(restName, mergeRest (some a) (some b))] := by
  rw [mergePositions, if_pos (by simpa using h)]

/-- A position that both definitions have is optional if it is in one of them, or if an optional one
has been seen. -/
theorem mergePositions_cons (ha : a.1 ≠ restName) (hb : b.1 ≠ restName) {mark : Bool}
    (hmark : (seen || (isOptionalName a.1 || isOptionalName b.1)) = mark) :
    mergePositions seen (a :: as) (b :: bs) =
      (markOptional (sharedName (bareName a.1) (bareName b.1)) mark,
        ⟨unionTexts a.2.type b.2.type, firstDescription a.2.description b.2.description⟩) ::
        mergePositions mark as bs := by
  subst hmark
  rw [mergePositions, if_neg (by simp [ha, hb]), mergeBoth]

end Positions

theorem inOrder_mergeTail (ps : List (String × ParamDecl)) (seen : Bool) :
    InOrder seen (keys (mergeTail ps)) := by
  induction ps generalizing seen with
  | nil => exact .nil seen
  | cons p ps ih =>
      rw [mergeTail]
      split
      · exact .rest seen
      · exact .optional seen (isOptionalName_bareName p.1) (ih true)

/-- Merged positions are in order. -/
theorem inOrder_mergePositions (seen : Bool) (as bs : List (String × ParamDecl)) :
    InOrder seen (keys (mergePositions seen as bs)) := by
  induction as generalizing seen bs with
  | nil =>
      rw [mergePositions_nil_left]
      exact inOrder_mergeTail bs seen
  | cons a as ih =>
      cases bs with
      | nil =>
          rw [mergePositions_nil_right]
          exact inOrder_mergeTail (a :: as) seen
      | cons b bs =>
          by_cases hrest : a.1 = restName ∨ b.1 = restName
          · rw [mergePositions_rest seen as bs hrest]
            exact .rest seen
          · obtain ⟨ha, hb⟩ := not_or.1 hrest
            have hname := isOptionalName_sharedName_bareName a.1 b.1
            simp only [mergePositions_cons seen as bs ha hb rfl, keys_cons]
            -- the flag of this position is the one that all later positions start with
            cases hmark : seen || (isOptionalName a.1 || isOptionalName b.1) with
            | true =>
                rw [markOptional_true]
                exact .optional seen hname (ih true bs)
            | false =>
                have hne := markOptional_sharedName_ne_restName ha b.1 hmark
                obtain ⟨rfl, -⟩ := Bool.or_eq_false_iff.1 hmark
                rw [markOptional_false] at hne ⊢
                exact .required hname hne (ih false bs)

/-! ### The parameter at a position -/

/-- Both definitions have a parameter at every position up to this one, and none of these may be left
out. -/
def RequiredThrough (as bs : List (String × ParamDecl)) (i : Nat) : Prop :=
  ∀ j ≤ i, ∃ a b, as[j]? = some a ∧ bs[j]? = some b ∧
    isOptionalName a.1 = false ∧ isOptionalName b.1 = false

/-- The type that covers those of two definitions: that of the only one, the common one or the union. -/
def coveringType? : Option String → Option String → Option String
  | some t, some u => some (if t = u then t else "(" ++ t ++ ") | (" ++ u ++ ")")
  | some t, none => some t
  | none, u? => u?

/-- A parameter is the one that covers those at a position of two definitions. -/
structure CoversAt (as bs : List (String × ParamDecl)) (i : Nat) (p : String × ParamDecl) : Prop where
  required_iff : isOptionalName p.1 = false ↔ RequiredThrough as bs i
  type_eq : some p.2.type = coveringType? (as[i]?.map (·.2.type)) (bs[i]?.map (·.2.type))

theorem unionTexts_eq (t u : String) :
    unionTexts t u = if t = u then t else "(" ++ t ++ ") | (" ++ u ++ ")" := by
  simp only [unionTexts, beq_iff_eq]

section Required

variable {a b : String × ParamDecl} {as bs : List (String × ParamDecl)}

theorem not_requiredThrough_nil_left (i : Nat) : ¬ RequiredThrough [] bs i := by
  intro h
  obtain ⟨a, b, ha, -⟩ := h i le_rfl
  simp at ha

theorem not_requiredThrough_nil_right (i : Nat) : ¬ RequiredThrough as [] i := by
  intro h
  obtain ⟨a, b, -, hb, -⟩ := h i le_rfl
  simp at hb

theorem requiredThrough_zero : RequiredThrough (a :: as) (b :: bs) 0 ↔
    (isOptionalName a.1 || isOptionalName b.1) = false := by
  rw [Bool.or_eq_false_iff]
  constructor
  · intro h
    obtain ⟨a', b', ha, hb, hopt⟩ := h 0 le_rfl
    obtain rfl : a = a' := Option.some.inj ha
    obtain rfl : b = b' := Option.some.inj hb
    exact hopt
  · intro hopt j hj
    obtain rfl : j = 0 := by omega
    exact ⟨a, b, rfl, rfl, hopt⟩

theorem requiredThrough_succ (i : Nat) : RequiredThrough (a :: as) (b :: bs) (i + 1) ↔
    (isOptionalName a.1 || isOptionalName b.1) = false ∧ RequiredThrough as bs i := by
  rw [← @requiredThrough_zero a b as bs]
  constructor
  · intro h
    exact ⟨fun j hj => h j (by omega), fun j hj => h (j + 1) (by omega)⟩
  · rintro ⟨hzero, hsucc⟩ j hj
    cases j with
    | zero => exact hzero 0 le_rfl
    | succ j => exact hsucc j (by omega)

end Required

/-- Without the rest of the arguments, all parameters behind the last common position are optional. -/
theorem mergeTail_eq_map {ps : List (String × ParamDecl)} (h : restName ∉ keys ps) :
    mergeTail ps = ps.map fun p => (bareName p.1 ++ "?", p.2) := by
  induction ps with
  | nil => rfl
  | cons p ps ih =>
      rw [keys_cons, List.mem_cons, not_or] at h
      rw [mergeTail, if_neg (by simpa using Ne.symm h.1), ih h.2, List.map_cons, markOptional_true]

section WithoutRest

variable {as bs : List (String × ParamDecl)} (seen : Bool)

theorem length_mergePositions (has : restName ∉ keys as) (hbs : restName ∉ keys bs) :
    (mergePositions seen as bs).length = max as.length bs.length := by
  induction as generalizing seen bs with
  | nil => simp [mergePositions_nil_left, mergeTail_eq_map hbs]
  | cons a as ih =>
      cases bs with
      | nil => simp [mergePositions_nil_right, mergeTail_eq_map has]
      | cons b bs =>
          rw [keys_cons, List.mem_cons, not_or] at has hbs
          rw [mergePositions_cons seen as bs (Ne.symm has.1) (Ne.symm hbs.1) rfl, List.length_cons,
            ih _ has.2 hbs.2, List.length_cons, List.length_cons]
          omega

theorem of_getElem?_mergeTail {ps : List (String × ParamDecl)} (hps : restName ∉ keys ps) {i : Nat}
    {p : String × ParamDecl} (h : (mergeTail ps)[i]? = some p) :
    isOptionalName p.1 = true ∧ ps[i]?.map (·.2.type) = some p.2.type := by
  rw [mergeTail_eq_map hps, List.getElem?_map, Option.map_eq_some_iff] at h
  obtain ⟨q, hq, rfl⟩ := h
  exact ⟨isOptionalName_append_mark _, by rw [hq, Option.map_some]⟩

/-- The parameter at a position.  It is required if nothing optional has been seen and both definitions
require all arguments up to it. -/
theorem of_getElem?_mergePositions (has : restName ∉ keys as) (hbs : restName ∉ keys bs) {i : Nat}
    {p : String × ParamDecl} (h : (mergePositions seen as bs)[i]? = some p) :
    (isOptionalName p.1 = false ↔ seen = false ∧ RequiredThrough as bs i) ∧
      some p.2.type = coveringType? (as[i]?.map (·.2.type)) (bs[i]?.map (·.2.type)) := by
  induction as generalizing seen bs i with
  | nil =>
      rw [mergePositions_nil_left] at h
      obtain ⟨hopt, htype⟩ := of_getElem?_mergeTail hbs h
      refine ⟨?_, ?_⟩
      · simp [hopt, not_requiredThrough_nil_left]
      · rw [htype]
        rfl
  | cons a as ih =>
      cases bs with
      | nil =>
          rw [mergePositions_nil_right] at h
          obtain ⟨hopt, htype⟩ := of_getElem?_mergeTail has h
          refine ⟨?_, ?_⟩
          · simp [hopt, not_requiredThrough_nil_right]
          · rw [htype]
            rfl
      | cons b bs =>
          rw [keys_cons, List.mem_cons, not_or] at has hbs
          rw [mergePositions_cons seen as bs (Ne.symm has.1) (Ne.symm hbs.1) rfl] at h
          cases i with
          | zero =>
              obtain rfl := Option.some.inj h
              refine ⟨?_, ?_⟩
              · rw [isOptionalName_markOptional (isOptionalName_sharedName_bareName a.1 b.1),
                  Bool.or_eq_false_iff, requiredThrough_zero]
              · rw [unionTexts_eq]
                rfl
          | succ i =>
              rw [List.getElem?_cons_succ] at h
              obtain ⟨hopt, htype⟩ := ih _ has.2 hbs.2 h
              refine ⟨?_, ?_⟩
              · rw [hopt, Bool.or_eq_false_iff, requiredThrough_succ, and_assoc]
              · rw [htype, List.getElem?_cons_succ, List.getElem?_cons_succ]

end WithoutRest

/-! ### Signatures that cover two definitions -/

/-- The names that the positions of two definitions get, before positions of one name are put
together. -/
def mergedNames (as bs : List (String × ParamDecl)) : List String :=
  keys (mergePositions false as bs)

/-- The parameters of a merged signature are in order. -/
theorem inOrder_merge (f g : FunctionDecl) : InOrder false (keys (f.merge g).params) :=
  (inOrder_mergePositions false f.params g.params).sublist (sublist_keys_ofList _)

/-- **Merging yields a signature that covers both definitions.**  Required parameters come first, then
optional ones and then the rest.  Without the rest, the signature has as many parameters as the longer
definition exactly if no two positions get one name, and then each of them covers its position. -/
theorem merge_covers (f g : FunctionDecl) :
    IsOrdered (keys (f.merge g).params) ∧
      (restName ∉ keys f.params → restName ∉ keys g.params →
        ((f.merge g).params.length = max f.params.length g.params.length ↔
          (mergedNames f.params g.params).Nodup) ∧
        ((mergedNames f.params g.params).Nodup →
          ∀ i p, (f.merge g).params[i]? = some p → CoversAt f.params g.params i p)) := by
  refine ⟨(inOrder_merge f g).isOrdered, fun hf hg => ⟨?_, ?_⟩⟩
  · rw [← length_mergePositions false hf hg]
    exact length_ofList_eq_iff
  · intro hnodup i p hp
    rw [merge, mergeParams, ofList_eq_self hnodup] at hp
    obtain ⟨hrequired, htype⟩ := of_getElem?_mergePositions false hf hg hp
    exact ⟨by rw [hrequired, eq_self, true_and], htype⟩

/-- A definition with an optional parameter. -/
def briefRun : FunctionDecl :=
  ⟨"run", false, [], [("a", ⟨"string", none⟩), ("b?", ⟨"number", none⟩)], none, []⟩

/-- A definition with more parameters. -/
def fullRun : FunctionDecl :=
  ⟨"run", false, [], [("a", ⟨"number", none⟩), ("c", ⟨"number", none⟩), ("d", ⟨"Item", none⟩)],
    some "boolean", []⟩

/-- The first parameter stays required, the second one is optional because it is in one definition, and
the third one because the other definition does not have it. -/
theorem merge_covers_of_longer :
    restName ∉ keys briefRun.params ∧ restName ∉ keys fullRun.params ∧
      mergedNames briefRun.params fullRun.params = ["a", "b_or_c?", "d?"] ∧
      (briefRun.merge fullRun).params.length = 3 ∧
      CoversAt briefRun.params fullRun.params 0 ("a", ⟨"(string) | (number)", none⟩) ∧
      CoversAt briefRun.params fullRun.params 2 ("d?", ⟨"Item", none⟩) := by
  have hf : restName ∉ keys briefRun.params := by decide
  have hg : restName ∉ keys fullRun.params := by decide
  have hnames : mergedNames briefRun.params fullRun.params = ["a", "b_or_c?", "d?"] := by
    decide +kernel
  have hnodup : (mergedNames briefRun.params fullRun.params).Nodup := by
    rw [hnames]
    decide
  obtain ⟨hlength, hcovers⟩ := (merge_covers briefRun fullRun).2 hf hg
  exact ⟨hf, hg, hnames, hlength.2 hnodup, hcovers hnodup 0 _ (by decide +kernel),
    hcovers hnodup 2 _ (by decide +kernel)⟩

/-! ### Merging a signature with itself -/

@[simp] theorem sharedName_self (n : String) : sharedName n n = n := by
  simp [sharedName]

@[simp] theorem unionTexts_self (t : String) : unionTexts t t = t := by
  simp [unionTexts]

@[simp] theorem firstDescription_self (d : Option String) : firstDescription d d = d := by
  cases d with
  | none => rfl
  | some s => simp [firstDescription]

@[simp] theorem description_mergeRest (a b : Option (String × ParamDecl)) :
    (mergeRest a b).description = none := by
  rw [mergeRest]
  split
  · rfl
  · split <;> rfl
  · rfl

theorem mergeRest_self {info : ParamDecl} (h : info.description = none) :
    mergeRest (some (restName, info)) (some (restName, info)) = info := by
  obtain ⟨type, description⟩ := info
  obtain rfl : description = none := h
  simp [mergeRest]

/-- A signature as merging leaves it. -/
structure IsMerged (f : FunctionDecl) : Prop where
  inOrder : InOrder false (keys f.params)
  nodup : (keys f.params).Nodup
  /-- Nothing is said of the rest of the arguments. -/
  rest : ∀ p ∈ f.params, p.1 = restName → p.2.description = none
  result : f.returnType ≠ some ""

theorem description_of_mem_mergeTail {ps : List (String × ParamDecl)} {p : String × ParamDecl}
    (h : p ∈ mergeTail ps) (hp : p.1 = restName) : p.2.description = none := by
  induction ps with
  | nil => simp [mergeTail] at h
  | cons q ps ih =>
      rw [mergeTail] at h
      split at h
      · obtain rfl := List.mem_singleton.1 h
        exact description_mergeRest _ _
      · rcases List.mem_cons.1 h with rfl | h
        · exact absurd hp (append_mark_ne_restName _)
        · exact ih h

/-- Nothing is said of the rest of the arguments. -/
theorem description_of_mem_mergePositions {seen : Bool} {as bs : List (String × ParamDecl)}
    {p : String × ParamDecl} (h : p ∈ mergePositions seen as bs) (hp : p.1 = restName) :
    p.2.description = none := by
  induction as generalizing seen bs with
  | nil =>
      rw [mergePositions_nil_left] at h
      exact description_of_mem_mergeTail h hp
  | cons a as ih =>
      cases bs with
      | nil =>
          rw [mergePositions_nil_right] at h
          exact description_of_mem_mergeTail h hp
      | cons b bs =>
          by_cases hrest : a.1 = restName ∨ b.1 = restName
          · rw [mergePositions_rest seen as bs hrest] at h
            obtain rfl := List.mem_singleton.1 h
            exact description_mergeRest _ _
          · obtain ⟨ha, hb⟩ := not_or.1 hrest
            rw [mergePositions_cons seen as bs ha hb rfl] at h
            rcases List.mem_cons.1 h with rfl | h
            · exact absurd hp (markOptional_sharedName_ne_restName ha b.1 rfl)
            · exact ih h

theorem resultText_ne_empty (t : Option String) : resultText t ≠ "" := by
  cases t with
  | none => simp [resultText]
  | some s =>
      rw [resultText]
      split
      · simp
      · next h => simpa using h

/-- A result that is given is not empty. -/
theorem mergeResults_ne_empty (a b : Option String) : mergeResults a b ≠ some "" := by
  have hunion : unionTexts (resultText a) (resultText b) ≠ "" := by
    rw [unionTexts_eq]
    split
    · exact resultText_ne_empty a
    · simp
  cases a with
  | none =>
      cases b with
      | none => simp [mergeResults]
      | some u => exact fun he => hunion (Option.some.inj he)
  | some t => exact fun he => hunion (Option.some.inj he)

/-- Merging leaves signatures of this form. -/
theorem isMerged_merge (f g : FunctionDecl) : (f.merge g).IsMerged where
  inOrder := inOrder_merge f g
  nodup := nodup_keys_ofList _
  rest _ hp hname := description_of_mem_mergePositions (mem_of_mem_ofList hp) hname
  result := mergeResults_ne_empty f.returnType g.returnType

/-- Parameters in order are not changed by merging them with themselves. -/
theorem mergePositions_self {seen : Bool} {ps : List (String × ParamDecl)}
    (h : InOrder seen (keys ps)) (hrest : ∀ p ∈ ps, p.1 = restName → p.2.description = none) :
    mergePositions seen ps ps = ps := by
  induction ps generalizing seen with
  | nil => rw [mergePositions_nil_left, mergeTail]
  | cons p ps ih =>
      have htail := fun q hq => hrest q (List.mem_cons_of_mem p hq)
      obtain ⟨name, info⟩ := p
      have hcons : InOrder seen (name :: keys ps) := h
      -- at one position only the name is left to compare
      have hstep := mergePositions_cons seen ps ps (a := (name, info)) (b := (name, info))
      rw [sharedName_self, unionTexts_self, firstDescription_self, Bool.or_self] at hstep
      rcases hcons.of_cons with ⟨rfl, hkeys⟩ | ⟨rfl, hopt, hne, hnames⟩ | ⟨stem, rfl, hopt, hnames⟩
      · obtain rfl : ps = [] := List.map_eq_nil_iff.1 hkeys
        have hinfo := hrest _ List.mem_cons_self rfl
        rw [mergePositions_rest seen [] [] (.inl rfl), mergeRest_self hinfo]
      · rw [hstep hne hne hopt, ih hnames htail, bareName_eq_self_iff.2 hopt, markOptional_false]
      · have hne := append_mark_ne_restName stem
        have hmark : (seen || isOptionalName (stem ++ "?")) = true := by
          rw [isOptionalName_append_mark, Bool.or_true]
        rw [hstep hne hne hmark, ih hnames htail, bareName_append_mark, bareName_eq_self_iff.2 hopt,
          markOptional_true]

theorem mergeResults_self {t : Option String} (h : t ≠ some "") : mergeResults t t = t := by
  cases t with
  | none => rfl
  | some s =>
      have hs : s ≠ "" := fun he => h (congrArg some he)
      simp [mergeResults, resultText, hs]

/-- A signature as merging leaves it stays as it is, but for its comments. -/
theorem IsMerged.merge_self {f : FunctionDecl} (h : f.IsMerged) :
    f.merge f = { f with comments := f.comments ++ f.comments } := by
  have hparams : mergeParams f.params f.params = f.params := by
    rw [mergeParams, mergePositions_self h.inOrder h.rest, ofList_eq_self h.nodup]
  rw [merge, hparams, mergeResults_self h.result]

/-- **To merge a result with itself only repeats its comments.** -/
theorem merge_merge_self (f g : FunctionDecl) :
    (f.merge g).merge (f.merge g) =
      { f.merge g with comments := (f.merge g).comments ++ (f.merge g).comments } :=
  (isMerged_merge f g).merge_self

end LuaAmbient.FunctionDecl
