/-
**The TypeScript text of a type means the type.**

A function takes everything to the right of its arrow, so a function among the members of a union is
put in parentheses; nothing else is.  This module shows that this is enough: whatever a type is put
together from, its text is read as the tree of the type and as no other.  Names have to be words,
which the text does not check; unions in unions dissolve, because their bars stand side by side.

Main definitions:

* `LuaAmbient.TypeScript.tree` — the TypeScript type that a type stands for;
* `LuaAmbient.TypeScript.Nameable` — the types whose names are words.

Main results:

* `LuaAmbient.TypeScript.lexes_label` — the label of a parameter is read as the parameter;
* `LuaAmbient.TypeScript.Nameable.spelled` — the text of a type spells the tree;
* `LuaAmbient.TypeScript.Nameable.reads_text_iff` — **the text is read as the tree, and as nothing
  else**.
-/

import LuaAmbient.Proofs.Text.Word
import LuaAmbient.Proofs.TypeScript.OptionalName
import LuaAmbient.Proofs.TypeScript.Spelling

set_option relaxedAutoImplicit false
set_option autoImplicit false

namespace LuaAmbient.TypeScript

open LuaAmbient.Text

/-! ### The meaning of a type -/

/-- The members of a type as a union. -/
def Tree.options : Tree → List Tree
  | .union ts => ts
  | t => [t]

/-- The parameter at position `i`. -/
def parameter (i : Nat) : DocType.Label → Parameter
  | .rest => .rest "args"
  | .named name =>
    if isOptionalName name then .optional (parameterName (bareName name))
    else .required (parameterName (bareName name))
  | .unnamed => .required ("arg" ++ toString i)

/-- The type of a parameter, by the type of the values that are passed. -/
def parameterType : DocType.Label → Tree → Tree
  | .rest, t => .reference "Array" [t]
  | .named _, t | .unnamed, t => t

mutual

/-- **The TypeScript type that a type stands for.**  Unions in unions are dissolved. -/
def tree : DocType → Tree
  | .plain n => .reference n []
  | .generic base args => .reference base (trees args)
  | .union options => .union ((trees options).flatMap Tree.options)
  | .optional inner => .union ((tree inner).options ++ [.reference "undefined" []])
  | .function params result => .function (parameters 0 params) (tree result)
  | .table fields => if fields.isEmpty then .object else .meet (records fields)
  | .array element => .reference "Array" [tree element]
  | .tuple elements => .tuple (trees elements)

/-- The types that several types stand for. -/
def trees : List DocType → List Tree
  | [] => []
  | t :: ts => tree t :: trees ts

/-- The parameters of a function, the first of which stands at position `i`. -/
def parameters (i : Nat) : List (DocType.Label × DocType) → List (Parameter × Tree)
  | [] => []
  | (label, t) :: ps => (parameter i label, parameterType label (tree t)) :: parameters (i + 1) ps

/-- The record types of table fields. -/
def records : List (DocType × DocType) → List Tree
  | [] => []
  | (k, v) :: fs => .reference "Record" [tree k, tree v] :: records fs

end

/-! ### Names -/

/-- A parameter is labelled by a word, which question marks may follow, or by no name. -/
def IsWordLabel : DocType.Label → Prop
  | .named name => ∃ n marks : List Char, name.toList = n ++ marks ∧ n ≠ [] ∧
      (∀ c ∈ n, isWordPart c = true) ∧ ∀ c ∈ marks, c = '?'
  | .unnamed | .rest => True

/-- A type whose names are words.  A union has at least two options and a generic type at least one
argument. -/
inductive Nameable : DocType → Prop
  | plain {n : String} (hn : IsWordName n) : Nameable (.plain n)
  | optional {t : DocType} (ht : Nameable t) : Nameable (.optional t)
  | generic {base : String} {args : List DocType} (hbase : IsWordName base)
      (hlen : 1 ≤ args.length) (hargs : ∀ t ∈ args, Nameable t) : Nameable (.generic base args)
  | union {options : List DocType} (hlen : 2 ≤ options.length)
      (hoptions : ∀ t ∈ options, Nameable t) : Nameable (.union options)
  | function {params : List (DocType.Label × DocType)} {result : DocType}
      (hlabels : ∀ p ∈ params, IsWordLabel p.1) (hparams : ∀ p ∈ params, Nameable p.2)
      (hresult : Nameable result) : Nameable (.function params result)
  | table {fields : List (DocType × DocType)} (hkeys : ∀ f ∈ fields, Nameable f.1)
      (hvalues : ∀ f ∈ fields, Nameable f.2) : Nameable (.table fields)
  | array {t : DocType} (ht : Nameable t) : Nameable (.array t)
  | tuple {elements : List DocType} (helements : ∀ t ∈ elements, Nameable t) :
      Nameable (.tuple elements)

theorem isWordPart_of_isDigit {c : Char} (h : c.isDigit = true) : isWordPart c = true := by
  have halnum : c.isAlphanum = true := by rw [Char.isAlphanum, h, Bool.or_true]
  rw [isWordPart, isNamePart, isWord_of_isAlphanum halnum, Bool.true_or, Bool.true_or]

theorem isWordName_append {n m : String} (hn : IsWordName n)
    (hm : ∀ c ∈ m.toList, isWordPart c = true) : IsWordName (n ++ m) := by
  refine ⟨?_, ?_⟩
  · intro h
    exact hn.1 (String.append_eq_empty_iff.1 h).1
  · intro c hc
    rw [String.toList_append] at hc
    rcases List.mem_append.1 hc with hc | hc
    · exact hn.2 c hc
    · exact hm c hc

theorem isWordName_numbered (i : Nat) : IsWordName ("arg" ++ toString i) := by
  refine isWordName_append ⟨by decide, by decide⟩ fun c hc => isWordPart_of_isDigit ?_
  rw [Nat.toString_eq_repr, Nat.toList_repr] at hc
  exact Nat.isDigit_of_mem_toDigits (by decide) (by decide) hc

theorem isWordName_parameterName {n : String} (h : IsWordName n) :
    IsWordName (parameterName n) := by
  rw [parameterName]
  split
  · exact isWordName_append h (by decide)
  · exact h

/-- A word has no mark. -/
theorem isOptionalName_ofList {n : List Char} (h : ∀ c ∈ n, isWordPart c = true) :
    isOptionalName (String.ofList n) = false := by
  rw [isOptionalName, String.toList_ofList, beq_eq_false_iff_ne]
  intro hlast
  exact ne_of_isWordPart (h '?' (List.mem_of_getLast? hlast)) (by decide) rfl

/-- The label of a parameter and the colon behind it. -/
theorem lexes_label {label : DocType.Label} (h : IsWordLabel label) (i : Nat) :
    Lexes (labelText i label ++ ": ").toList (parameter i label).tokens := by
  have hcolon {n : String} (hn : IsWordName n) :
      Lexes (n ++ ": ").toList (Parameter.required n).tokens := by
    rw [String.toList_append]
    exact hn.lexes.append rfl lexes_colon
  cases label with
  | rest =>
    have hword : IsWordName "args" := ⟨by decide, by decide⟩
    have htext :
        (labelText i .rest ++ ": ").toList = ['.', '.', '.'] ++ ("args" ++ ": ").toList := by
      simp [labelText]
    rw [htext]
    exact lexes_dots.append (hcolon hword)
  | unnamed => exact hcolon (isWordName_numbered i)
  | named name =>
    obtain ⟨n, marks, hname, hne, hn, hmarks⟩ := h
    have hsplit : name = String.ofList n ++ String.ofList marks := by
      rw [← String.ofList_append, ← hname, String.ofList_toList]
    have hbare : bareName name = String.ofList n := by
      rw [hsplit, bareName_append_marks (isOptionalName_ofList hn) hmarks]
    have hopt : isOptionalName name = !marks.isEmpty := by
      rw [hsplit, isOptionalName_append_marks (isOptionalName_ofList hn) hmarks]
    have hword : IsWordName (parameterName (bareName name)) := by
      refine isWordName_parameterName ?_
      rw [hbare]
      exact ⟨by simpa using hne, by simpa using hn⟩
    rw [parameter, labelText, hopt]
    cases marks with
    | nil =>
      rw [if_neg (by simp), if_neg (by simp), String.append_empty]
      exact hcolon hword
    | cons c marks =>
      rw [if_pos (by simp), if_pos (by simp), String.append_assoc, String.toList_append]
      exact hword.lexes.append rfl fun _ => rfl

/-! ### The text of a type -/

/-- The text of a type spells the tree, by itself and as members of a union. -/
structure Spelled (t : DocType) : Prop where
  type : Spells (text t) (.type (tree t))
  members : Spells (group (groupsInUnion t) (text t)) (.members (tree t).options)

/-- Members of a union are at least one. -/
theorem Spells.one_le {s : String} {ts : List Tree} (h : Spells s (.members ts)) :
    1 ≤ ts.length := by
  obtain ⟨l, -, h⟩ := h
  cases h <;> simp

theorem Tree.join_of_two_le {ts : List Tree} (h : 2 ≤ ts.length) : Tree.join ts = .union ts := by
  match ts, h with
  | _ :: _ :: _, _ => rfl

/-- A text without parentheses around it. -/
theorem spelled_of_primary {t : DocType} (hgroup : groupsInUnion t = false)
    (hoptions : (tree t).options = [tree t]) (h : Spells (text t) (.primary (tree t))) :
    Spelled t where
  type := h.member.type
  members := by
    rw [hgroup, hoptions]
    exact h.member

/-- A union of at least two members. -/
theorem spelled_of_members {t : DocType} {ts : List Tree} (hgroup : groupsInUnion t = false)
    (htree : tree t = .union ts) (hlen : 2 ≤ ts.length) (h : Spells (text t) (.members ts)) :
    Spelled t where
  type := by
    rw [htree, ← Tree.join_of_two_le hlen]
    exact h.type
  members := by
    rw [hgroup, htree]
    exact h

theorem spells_parameterType (label : DocType.Label) {s : String} {t : Tree}
    (h : Spells s (.type t)) :
    Spells (match label with
      | .rest => "Array<" ++ s ++ ">"
      | _ => s) (.type (parameterType label t)) := by
  cases label with
  | rest => exact (spells_array h).member.type
  | named | unnamed => exact h

theorem spells_texts : ∀ {ts : List DocType}, ts ≠ [] → (∀ t ∈ ts, Spelled t) →
    Spells (joinWith ", " (texts ts)) (.types (trees ts))
  | [], hne, _ => absurd rfl hne
  | [t], _, h => by
    obtain ⟨l, hl, hd⟩ := (h t List.mem_cons_self).type
    exact ⟨l, hl, .one hd⟩
  | t :: u :: ts, _, h =>
    spells_more (h t List.mem_cons_self).type
      (spells_texts (List.cons_ne_nil u ts) fun v hv => h v (List.mem_cons_of_mem _ hv))

/-- Every option adds a member to the union. -/
theorem length_le_flatMap_options {ts : List DocType} (h : ∀ t ∈ ts, Spelled t) :
    ts.length ≤ ((trees ts).flatMap Tree.options).length := by
  induction ts with
  | nil => exact Nat.zero_le _
  | cons t ts ih =>
    have hone := (h t List.mem_cons_self).members.one_le
    have hrest := ih fun u hu => h u (List.mem_cons_of_mem _ hu)
    rw [trees, List.flatMap_cons, List.length_append, List.length_cons]
    omega

theorem spells_optionTexts : ∀ {ts : List DocType}, ts ≠ [] → (∀ t ∈ ts, Spelled t) →
    Spells (joinWith " | " (optionTexts ts)) (.members ((trees ts).flatMap Tree.options))
  | [], hne, _ => absurd rfl hne
  | [t], _, h => by
    rw [trees, trees, List.flatMap_singleton]
    exact (h t List.mem_cons_self).members
  | t :: u :: ts, _, h =>
    spells_or (h t List.mem_cons_self).members
      (spells_optionTexts (List.cons_ne_nil u ts) fun v hv => h v (List.mem_cons_of_mem _ hv))

theorem spells_fieldTexts : ∀ {fs : List (DocType × DocType)}, fs ≠ [] →
    (∀ f ∈ fs, Spelled f.1) → (∀ f ∈ fs, Spelled f.2) →
    Spells (joinWith " & " (fieldTexts fs)) (.operands (records fs))
  | [], hne, _, _ => absurd rfl hne
  | [(k, v)], _, hk, hv => by
    obtain ⟨l, hl, hd⟩ :=
      spells_record (hk _ List.mem_cons_self).type (hv _ List.mem_cons_self).type
    exact ⟨l, hl, .operand hd⟩
  | (k, v) :: f :: fs, _, hk, hv =>
    spells_and (spells_record (hk _ List.mem_cons_self).type (hv _ List.mem_cons_self).type)
      (spells_fieldTexts (List.cons_ne_nil f fs) (fun g hg => hk g (List.mem_cons_of_mem _ hg))
        fun g hg => hv g (List.mem_cons_of_mem _ hg))

theorem spells_paramTexts : ∀ {ps : List (DocType.Label × DocType)} (i : Nat), ps ≠ [] →
    (∀ p ∈ ps, IsWordLabel p.1) → (∀ p ∈ ps, Spelled p.2) →
    Spells (joinWith ", " (paramTexts i ps)) (.params (parameters i ps))
  | [], _, hne, _, _ => absurd rfl hne
  | [p], i, _, hlabel, h =>
    spells_param (lexes_label (hlabel p List.mem_cons_self) i)
      (spells_parameterType p.1 (h p List.mem_cons_self).type)
  | p :: q :: ps, i, _, hlabel, h =>
    spells_moreParams (lexes_label (hlabel p List.mem_cons_self) i)
      (spells_parameterType p.1 (h p List.mem_cons_self).type)
      (spells_paramTexts (i + 1) (List.cons_ne_nil q ps)
        (fun r hr => hlabel r (List.mem_cons_of_mem _ hr))
        fun r hr => h r (List.mem_cons_of_mem _ hr))

/-- **The text of a type spells the type.** -/
theorem Nameable.spelled {t : DocType} (h : Nameable t) : Spelled t := by
  induction h with
  | plain hn => exact spelled_of_primary rfl rfl (spells_name hn)
  | @generic base args hbase hlen _ ih =>
    have hne : args ≠ [] := List.ne_nil_of_length_pos hlen
    exact spelled_of_primary rfl rfl (spells_applied hbase (spells_texts hne ih))
  | @tuple elements _ ih =>
    refine spelled_of_primary rfl rfl ?_
    cases elements with
    | nil => exact spells_unit
    | cons e es => exact spells_tuple (spells_texts (List.cons_ne_nil e es) ih)
  | array _ ih => exact spelled_of_primary rfl rfl (spells_array ih.type)
  | @optional t _ ih =>
    have hundefined : Spells "undefined" (.members [.reference "undefined" []]) :=
      (spells_name ⟨by decide, by decide⟩).member
    refine spelled_of_members rfl rfl ?_ ?_
    · simpa using ih.members.one_le
    · rw [text, show " | undefined" = " | " ++ "undefined" by decide, ← String.append_assoc]
      exact spells_or ih.members hundefined
  | @union options hlen _ ih =>
    have hne : options ≠ [] := List.ne_nil_of_length_pos (by omega)
    exact spelled_of_members rfl rfl (Nat.le_trans hlen (length_le_flatMap_options ih))
      (spells_optionTexts hne ih)
  | @function params result hlabels _ _ ihs ih =>
    have htype :
        Spells (text (.function params result)) (.type (tree (.function params result))) := by
      cases params with
      | nil => exact spells_thunk ih.type
      | cons p ps =>
        have hparams := spells_paramTexts 0 (List.cons_ne_nil p ps) hlabels ihs
        exact spells_function hparams ih.type
    exact ⟨htype, (spells_group htype).member⟩
  | @table fields _ _ ihk ihv =>
    cases fields with
    | nil => exact spelled_of_primary rfl rfl spells_object
    | cons f fs =>
      have hs : Spells (text (.table (f :: fs))) (.members [tree (.table (f :: fs))]) :=
        (spells_fieldTexts (List.cons_ne_nil f fs) ihk ihv).meet
      have hoptions : (tree (.table (f :: fs))).options = [tree (.table (f :: fs))] := by
        cases fs <;> rfl
      exact ⟨hs.type, hoptions ▸ hs⟩

/-- **Reading the TypeScript text of a type under the usual precedence gives the type back**, and
gives nothing else. -/
theorem Nameable.reads_text_iff {t : DocType} (h : Nameable t) (u : Tree) :
    Reads (text t) u ↔ u = tree t := by
  have hreads : Reads (text t) (tree t) := h.spelled.type.reads
  constructor
  · intro hu
    exact hu.unique hreads
  · rintro rfl
    exact hreads

/-- A callback with a reserved name, an optional table and a rest parameter, whose result is a union
with a function. -/
def callback : DocType :=
  .function [(.named "default", .optional (.table [(.plain "string", .plain "a")])),
      (.unnamed, .array (.plain "b")), (.rest, .plain "c")]
    (.union [.plain "a", .function [] (.plain "b"), .optional (.plain "c")])

theorem reads_text_of_callback : Nameable callback ∧ ∀ u,
    Reads ("(default_: Record<string, a> | undefined, arg1: Array<b>, ...args: Array<c>) => " ++
        "a | (() => b) | c | undefined") u ↔
      u = .function
        [(.required "default_", .union [.reference "Record"
            [.reference "string" [], .reference "a" []], .reference "undefined" []]),
          (.required "arg1", .reference "Array" [.reference "b" []]),
          (.rest "args", .reference "Array" [.reference "c" []])]
        (.union [.reference "a" [], .function [] (.reference "b" []), .reference "c" [],
          .reference "undefined" []]) := by
  have hname {n : String} (hne : n ≠ "") (h : n.toList.all isWordPart = true) :
      Nameable (.plain n) := .plain ⟨hne, List.all_eq_true.1 h⟩
  have hstring := hname (n := "string") (by decide) (by decide)
  have ha := hname (n := "a") (by decide) (by decide)
  have hb := hname (n := "b") (by decide) (by decide)
  have hc := hname (n := "c") (by decide) (by decide)
  have hcallback : Nameable callback := by
    refine .function ?_ ?_ (.union (by decide) ?_)
    · simp only [List.forall_mem_cons, IsWordLabel, List.not_mem_nil, false_implies, implies_true,
        and_true]
      exact ⟨"default".toList, [], by decide, by decide, by decide, by decide⟩
    · simpa using ⟨.optional (.table (by simpa using hstring) (by simpa using ha)), .array hb, hc⟩
    · simpa using ⟨ha, .function nofun nofun hb, .optional hc⟩
  refine ⟨hcallback, fun u => ?_⟩
  exact hcallback.reads_text_iff u

end LuaAmbient.TypeScript
