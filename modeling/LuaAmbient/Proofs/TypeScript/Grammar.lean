/-
**The grammar of TypeScript types, and that it is unambiguous.**

A text is first cut into words and marks; an arrow and the dots of a rest parameter are one mark
each.  Then the usual precedence decides: the arrow of a function takes everything to its right, a
bar binds looser than an ampersand, and both bind looser than references, tuples and parentheses.
The rules leave the tree no choice: what follows an opening parenthesis tells whether it starts the
parameters of a function or a type in parentheses.

Main definitions:

* `LuaAmbient.TypeScript.Token`, `LuaAmbient.TypeScript.tokens` — the words and marks of a text;
* `LuaAmbient.TypeScript.Tree` — a type as a tree;
* `LuaAmbient.TypeScript.Derives` — the rules of the grammar;
* `LuaAmbient.TypeScript.Reads` — a text is read as a tree.

Main results:

* `LuaAmbient.TypeScript.Derives.unique` — **a phrase ends where it has to, and is one phrase**;
* `LuaAmbient.TypeScript.Reads.unique` — a text is read as one tree only.
-/

import Mathlib.Tactic.Common
import LuaAmbient.Text.Blank
import LuaAmbient.Text.Word

set_option relaxedAutoImplicit false
set_option autoImplicit false

namespace LuaAmbient.TypeScript

open LuaAmbient.Text

/-! ### Tokens -/

/-- A word or a mark of a TypeScript type. -/
inductive Token where
  | word (name : String)
  | mark (c : Char)
  /-- The arrow of a function type. -/
  | arrow
  /-- The three dots before a rest parameter. -/
  | dots
deriving Repr, DecidableEq

/-- A character of a word: a character of a name or of an identifier. -/
def isWordPart (c : Char) : Bool :=
  isNamePart c || isIdentifierContinue c

/-- The word of the given characters, if there are any. -/
def wordToken (w : List Char) : List Token :=
  if w.isEmpty then [] else [.word (String.ofList w)]

/-- The tokens of a text behind the characters `w` of a word.  Words are as long as possible. -/
def tokensFrom (w : List Char) : List Char → List Token
  | [] => wordToken w
  | '=' :: '>' :: cs => wordToken w ++ .arrow :: tokensFrom [] cs
  | '.' :: '.' :: '.' :: cs => wordToken w ++ .dots :: tokensFrom [] cs
  | c :: cs =>
    if isWordPart c then tokensFrom (w ++ [c]) cs
    else if isBlank c then wordToken w ++ tokensFrom [] cs
    else wordToken w ++ .mark c :: tokensFrom [] cs

/-- The tokens of a text. -/
def tokens (s : List Char) : List Token :=
  tokensFrom [] s

/-! ### Trees -/

/-- A parameter of a function type: one that has to be given, one that may be left out, or the rest
of the arguments. -/
inductive Parameter where
  | required (name : String)
  | optional (name : String)
  | rest (name : String)
deriving Repr, DecidableEq

/-- A type of TypeScript. -/
inductive Tree where
  /-- A name, applied to type arguments. -/
  | reference (name : String) (args : List Tree)
  /-- The type of objects without known fields. -/
  | object
  /-- A fixed sequence of values. -/
  | tuple (elements : List Tree)
  /-- One of several types. -/
  | union (members : List Tree)
  /-- All of several types. -/
  | intersection (operands : List Tree)
  /-- A function with its parameters and its result. -/
  | function (params : List (Parameter × Tree)) (result : Tree)
deriving Repr

/-- The union of several types; a single one stands for itself. -/
def Tree.join : List Tree → Tree
  | [t] => t
  | ts => .union ts

/-- The intersection of several types; a single one stands for itself. -/
def Tree.meet : List Tree → Tree
  | [t] => t
  | ts => .intersection ts

/-! ### Grammar -/

/-- What a sequence of tokens is. -/
inductive Phrase where
  /-- A type that no operator stands in, unless in brackets. -/
  | primary (t : Tree)
  /-- Types between ampersands. -/
  | operands (ts : List Tree)
  /-- Types between bars. -/
  | members (ts : List Tree)
  | type (t : Tree)
  /-- Types between commas. -/
  | types (ts : List Tree)
  /-- Parameters between commas. -/
  | params (ps : List (Parameter × Tree))

/-- What stands before the type of a parameter. -/
def Parameter.tokens : Parameter → List Token
  | .required name => [.word name, .mark ':']
  | .optional name => [.word name, .mark '?', .mark ':']
  | .rest name => [.dots, .word name, .mark ':']

/-- **The grammar.** -/
inductive Derives : List Token → Phrase → Prop
  | name (n : String) : Derives [.word n] (.primary (.reference n []))
  | applied (n : String) {l : List Token} {ts : List Tree} (h : Derives l (.types ts)) :
      Derives (.word n :: .mark '<' :: (l ++ [.mark '>'])) (.primary (.reference n ts))
  | object : Derives [.mark '\x7b', .mark '\x7d'] (.primary .object)
  | unit : Derives [.mark '[', .mark ']'] (.primary (.tuple []))
  | tuple {l : List Token} {ts : List Tree} (h : Derives l (.types ts)) :
      Derives (.mark '[' :: (l ++ [.mark ']'])) (.primary (.tuple ts))
  | group {l : List Token} {t : Tree} (h : Derives l (.type t)) :
      Derives (.mark '(' :: (l ++ [.mark ')'])) (.primary t)
  | operand {l : List Token} {t : Tree} (h : Derives l (.primary t)) : Derives l (.operands [t])
  | and {l m : List Token} {t : Tree} {ts : List Tree} (h : Derives l (.primary t))
      (hs : Derives m (.operands ts)) : Derives (l ++ .mark '&' :: m) (.operands (t :: ts))
  | member {l : List Token} {ts : List Tree} (h : Derives l (.operands ts)) :
      Derives l (.members [.meet ts])
  | or {l m : List Token} {ts us : List Tree} (h : Derives l (.operands ts))
      (hs : Derives m (.members us)) : Derives (l ++ .mark '|' :: m) (.members (.meet ts :: us))
  | union {l : List Token} {ts : List Tree} (h : Derives l (.members ts)) :
      Derives l (.type (.join ts))
  | thunk {l : List Token} {t : Tree} (h : Derives l (.type t)) :
      Derives (.mark '(' :: .mark ')' :: .arrow :: l) (.type (.function [] t))
  | function {l m : List Token} {ps : List (Parameter × Tree)} {t : Tree}
      (hs : Derives l (.params ps)) (h : Derives m (.type t)) :
      Derives (.mark '(' :: (l ++ .mark ')' :: .arrow :: m)) (.type (.function ps t))
  | one {l : List Token} {t : Tree} (h : Derives l (.type t)) : Derives l (.types [t])
  | more {l m : List Token} {t : Tree} {ts : List Tree} (h : Derives l (.type t))
      (hs : Derives m (.types ts)) : Derives (l ++ .mark ',' :: m) (.types (t :: ts))
  | param (p : Parameter) {l : List Token} {t : Tree} (h : Derives l (.type t)) :
      Derives (p.tokens ++ l) (.params [(p, t)])
  | moreParams (p : Parameter) {l m : List Token} {t : Tree} {ps : List (Parameter × Tree)}
      (h : Derives l (.type t)) (hs : Derives m (.params ps)) :
      Derives (p.tokens ++ (l ++ .mark ',' :: m)) (.params ((p, t) :: ps))

/-- The string is read as the type. -/
def Reads (s : String) (t : Tree) : Prop :=
  Derives (tokens s.toList) (.type t)

/-! ### How phrases start -/

/-- Whether tokens behind an opening parenthesis are those of a parameter list. -/
def startsParams : List Token → Bool
  | .mark ')' :: _ | .dots :: _ | .word _ :: .mark ':' :: _ | .word _ :: .mark '?' :: _ => true
  | _ => false

/-- Whether the next token cannot follow the name of a parameter. -/
def followsType : List Token → Bool
  | .mark ':' :: _ | .mark '?' :: _ => false
  | _ => true

/-- The phrases that are types. -/
def Phrase.isTypes : Phrase → Bool
  | .params _ => false
  | _ => true

/-- The phrases without an arrow outside of brackets. -/
def Phrase.isOperand : Phrase → Bool
  | .primary _ | .operands _ | .members _ => true
  | _ => false

theorem startsParams_tokens (p : Parameter) (r : List Token) :
    startsParams (p.tokens ++ r) = true := by
  cases p <;> rfl

theorem Parameter.tokens_inj {p q : Parameter} {l m : List Token}
    (h : p.tokens ++ l = q.tokens ++ m) : p = q ∧ l = m := by
  cases p <;> cases q <;> simp_all [Parameter.tokens]

theorem Derives.startsParams_of_params {l : List Token} {p : Phrase} (h : Derives l p)
    (hp : p.isTypes = false) (r : List Token) : startsParams (l ++ r) = true := by
  cases h with
  | param p | moreParams p =>
    rw [List.append_assoc]
    exact startsParams_tokens p _
  | _ => cases hp

/-- A type does not start like a parameter list, whatever may follow it. -/
theorem Derives.startsParams_append {l : List Token} {p : Phrase} (h : Derives l p) :
    p.isTypes = true → ∀ r, followsType r = true → startsParams (l ++ r) = false := by
  induction h with
  | name n =>
    rintro - r hr
    cases r with
    | nil => rfl
    | cons t r =>
      simp only [followsType] at hr
      simp only [startsParams, List.cons_append, List.nil_append]
      grind
  | applied | object | unit | tuple | group | thunk | function => exact fun _ _ _ => rfl
  | operand _ ih | member _ ih | union _ ih | one _ ih => exact fun _ => ih rfl
  | and _ _ ih _ | or _ _ ih _ | more _ _ ih _ =>
    intro _ r _
    rw [List.append_assoc]
    exact ih rfl _ rfl
  | param | moreParams => exact nofun

/-- An operand that starts with a parenthesis is a type in parentheses. -/
theorem Derives.startsParams_of_paren {l : List Token} {p : Phrase} (h : Derives l p) :
    p.isOperand = true → ∀ r x, l ++ r = .mark '(' :: x → startsParams x = false := by
  induction h with
  | group h =>
    rintro - r x heq
    simp only [List.cons_append, List.append_assoc, List.cons.injEq, true_and] at heq
    subst heq
    exact h.startsParams_append rfl _ rfl
  | name | applied | object | unit | tuple =>
    intro _ r x heq
    cases heq
  | operand _ ih | member _ ih => exact fun _ => ih rfl
  | and _ _ ih _ | or _ _ ih _ =>
    intro _ r x heq
    rw [List.append_assoc] at heq
    exact ih rfl _ x heq
  | union | thunk | function | one | more | param | moreParams => exact nofun

/-- No type starts with the bracket that closes a tuple. -/
theorem Derives.ne_bracket {l : List Token} {p : Phrase} (h : Derives l p) :
    p.isTypes = true → ∀ r x, l ++ r ≠ .mark ']' :: x := by
  induction h with
  | name | applied | object | unit | tuple | group | thunk | function =>
    intro _ r x heq
    cases heq
  | operand _ ih | member _ ih | union _ ih | one _ ih => exact fun _ => ih rfl
  | and _ _ ih _ | or _ _ ih _ | more _ _ ih _ =>
    intro _ r x
    rw [List.append_assoc]
    exact ih rfl _ x
  | param | moreParams => exact nofun

/-- No parameter starts with the parenthesis that closes the list. -/
theorem Derives.ne_paren {l : List Token} {ps : List (Parameter × Tree)}
    (h : Derives l (.params ps)) (r x : List Token) : l ++ r ≠ .mark ')' :: x := by
  cases h with
  | param p | moreParams p => cases p <;> exact nofun

/-! ### Where phrases end -/

/-- The kinds of phrases. -/
inductive Phrase.Kind where
  | primary
  | operands
  | members
  | type
  | types
  | params

def Phrase.kind : Phrase → Kind
  | .primary _ => .primary
  | .operands _ => .operands
  | .members _ => .members
  | .type _ => .type
  | .types _ => .types
  | .params _ => .params

/-- The marks that would go on a phrase. -/
def Phrase.Kind.joints : Kind → List Char
  | .primary => ['<']
  | .operands => ['<', '&']
  | .members | .type => ['<', '&', '|']
  | .types | .params => ['<', '&', '|', ',']

/-- The next token does not go on a phrase of the kind. -/
def Stops (k : Phrase.Kind) (r : List Token) : Prop :=
  ∀ c ∈ k.joints, r.head? ≠ some (.mark c)

theorem Stops.mono {j k : Phrase.Kind} {r : List Token} (h : Stops k r)
    (hsub : j.joints ⊆ k.joints) : Stops j r :=
  fun c hc => h c (hsub hc)

theorem stops_mark {k : Phrase.Kind} {c : Char} {r : List Token} (h : c ∉ k.joints) :
    Stops k (.mark c :: r) := by
  rintro d hd heq
  obtain rfl : c = d := by simpa using heq
  exact h hd

theorem Stops.not_mem {k : Phrase.Kind} {c : Char} {r : List Token} (h : Stops k (.mark c :: r)) :
    c ∉ k.joints :=
  fun hc => h c hc rfl

/-- A closing bracket goes on no phrase. -/
theorem stops_closing {k : Phrase.Kind} {c : Char} (hc : c ∈ ['>', ']', ')']) (r : List Token) :
    Stops k (.mark c :: r) := by
  refine stops_mark ?_
  revert c
  cases k <;> decide

/-- The phrase `p` over `l` is the only one of the kind `k` that starts a text in which nothing goes
on it. -/
def IsOnly (k : Phrase.Kind) (l : List Token) (p : Phrase) : Prop :=
  ∀ {m : List Token} {q : Phrase} {r s : List Token}, Derives m q → q.kind = k →
    l ++ r = m ++ s → Stops k r → Stops k s → l = m ∧ p = q ∧ r = s

section Steps

variable {j k : Phrase.Kind} {c : Char} {l l' m m' r s : List Token} {p p' q q' : Phrase}

/-- A closing bracket fixes the end of a phrase. -/
theorem IsOnly.closing (h : IsOnly k l p) (hm : Derives m q) (hk : q.kind = k)
    (hc : c ∈ ['>', ']', ')']) (heq : l ++ .mark c :: r = m ++ .mark c :: s) :
    l = m ∧ p = q ∧ r = s := by
  obtain ⟨hl, hp, hrest⟩ := h hm hk heq (stops_closing hc r) (stops_closing hc s)
  exact ⟨hl, hp, (List.cons.inj hrest).2⟩

/-- A separator fixes the end of a phrase. -/
theorem IsOnly.separator (h : IsOnly j l p) (hm : Derives m q) (hj : q.kind = j) (hc : c ∉ j.joints)
    (heq : l ++ .mark c :: r = m ++ .mark c :: s) : l = m ∧ p = q ∧ r = s := by
  obtain ⟨hl, hp, hrest⟩ := h hm hj heq (stops_mark hc) (stops_mark hc)
  exact ⟨hl, hp, (List.cons.inj hrest).2⟩

/-- A phrase that nothing goes on is followed by no separator. -/
theorem IsOnly.ne_separator (h : IsOnly j l p) (hm : Derives m q) (hj : q.kind = j)
    (hsub : j.joints ⊆ k.joints) (hc : c ∈ k.joints) (hcj : c ∉ j.joints) (hr : Stops k r) :
    l ++ r ≠ m ++ .mark c :: s := by
  intro heq
  obtain ⟨-, -, rfl⟩ := h hm hj heq (hr.mono hsub) (stops_mark hcj)
  exact hr.not_mem hc

theorem IsOnly.separator_ne (h : IsOnly j l p) (hm : Derives m q) (hj : q.kind = j)
    (hsub : j.joints ⊆ k.joints) (hc : c ∈ k.joints) (hcj : c ∉ j.joints) (hs : Stops k s) :
    l ++ .mark c :: r ≠ m ++ s := by
  intro heq
  obtain ⟨-, -, rfl⟩ := h hm hj heq (stops_mark hcj) (hs.mono hsub)
  exact hs.not_mem hc

end Steps

/-! ### One lemma for each rule -/

section Rules

variable {l m : List Token} {t : Tree} {ts us : List Tree} {ps : List (Parameter × Tree)}

theorem isOnly_name (n : String) : IsOnly .primary [.word n] (.primary (.reference n [])) := by
  intro m q r s hm hk heq hr hs
  cases q with
  | primary u =>
    cases hm with
    | name =>
      cases heq
      exact ⟨rfl, rfl, rfl⟩
    | applied =>
      cases heq
      exact absurd (by decide) hr.not_mem
    | object | unit | tuple | group => cases heq
  | _ => cases hk

theorem isOnly_applied (n : String) (h : IsOnly .types l (.types ts)) :
    IsOnly .primary (.word n :: .mark '<' :: (l ++ [.mark '>'])) (.primary (.reference n ts)) := by
  intro m q r s hm hk heq hr hs
  cases q with
  | primary u =>
    cases hm with
    | name =>
      cases heq
      exact absurd (by decide) hs.not_mem
    | applied _ hm =>
      simp only [List.cons_append, List.append_assoc, List.cons.injEq, Token.word.injEq,
        true_and] at heq
      obtain ⟨rfl, heq⟩ := heq
      obtain ⟨rfl, hts, rfl⟩ := h.closing hm rfl (by decide) heq
      cases hts
      exact ⟨rfl, rfl, rfl⟩
    | object | unit | tuple | group => cases heq
  | _ => cases hk

theorem isOnly_object :
    IsOnly .primary [.mark '\x7b', .mark '\x7d'] (.primary .object) := by
  intro m q r s hm hk heq hr hs
  cases q with
  | primary u =>
    cases hm with
    | object =>
      cases heq
      exact ⟨rfl, rfl, rfl⟩
    | name | applied | unit | tuple | group => cases heq
  | _ => cases hk

theorem isOnly_unit : IsOnly .primary [.mark '[', .mark ']'] (.primary (.tuple [])) := by
  intro m q r s hm hk heq hr hs
  cases q with
  | primary u =>
    cases hm with
    | unit =>
      cases heq
      exact ⟨rfl, rfl, rfl⟩
    | tuple hm =>
      simp only [List.cons_append, List.append_assoc, List.cons.injEq, true_and] at heq
      exact absurd heq.symm (hm.ne_bracket rfl _ _)
    | name | applied | object | group => cases heq
  | _ => cases hk

theorem isOnly_tuple (hl : Derives l (.types ts)) (h : IsOnly .types l (.types ts)) :
    IsOnly .primary (.mark '[' :: (l ++ [.mark ']'])) (.primary (.tuple ts)) := by
  intro m q r s hm hk heq hr hs
  cases q with
  | primary u =>
    cases hm with
    | unit =>
      simp only [List.cons_append, List.append_assoc, List.cons.injEq, true_and] at heq
      exact absurd heq (hl.ne_bracket rfl _ _)
    | tuple hm =>
      simp only [List.cons_append, List.append_assoc, List.cons.injEq, true_and] at heq
      obtain ⟨rfl, hts, rfl⟩ := h.closing hm rfl (by decide) heq
      cases hts
      exact ⟨rfl, rfl, rfl⟩
    | name | applied | object | group => cases heq
  | _ => cases hk

theorem isOnly_group (h : IsOnly .type l (.type t)) :
    IsOnly .primary (.mark '(' :: (l ++ [.mark ')'])) (.primary t) := by
  intro m q r s hm hk heq hr hs
  cases q with
  | primary u =>
    cases hm with
    | group hm =>
      simp only [List.cons_append, List.append_assoc, List.cons.injEq, true_and] at heq
      obtain ⟨rfl, ht, rfl⟩ := h.closing hm rfl (by decide) heq
      cases ht
      exact ⟨rfl, rfl, rfl⟩
    | name | applied | object | unit | tuple => cases heq
  | _ => cases hk

theorem isOnly_operand (h : IsOnly .primary l (.primary t)) :
    IsOnly .operands l (.operands [t]) := by
  intro m q r s hm hk heq hr hs
  cases q with
  | operands us =>
    cases hm with
    | operand hm =>
      obtain ⟨rfl, ht, rfl⟩ := h hm rfl heq (hr.mono (by decide)) (hs.mono (by decide))
      cases ht
      exact ⟨rfl, rfl, rfl⟩
    | and hm =>
      rw [List.append_assoc] at heq
      exact absurd heq (h.ne_separator hm rfl (by decide) (by decide) (by decide) hr)
  | _ => cases hk

theorem isOnly_and (h : IsOnly .primary l (.primary t)) (ht : IsOnly .operands m (.operands ts)) :
    IsOnly .operands (l ++ .mark '&' :: m) (.operands (t :: ts)) := by
  intro m' q r s hm hk heq hr hs
  rw [List.append_assoc] at heq
  cases q with
  | operands us =>
    cases hm with
    | operand hm =>
      exact absurd heq (h.separator_ne hm rfl (by decide) (by decide) (by decide) hs)
    | and hm hms =>
      rw [List.append_assoc] at heq
      obtain ⟨rfl, hu, heq⟩ := h.separator hm rfl (by decide) heq
      obtain ⟨rfl, hus, rfl⟩ := ht hms rfl heq hr hs
      cases hu
      cases hus
      exact ⟨rfl, rfl, rfl⟩
  | _ => cases hk

theorem isOnly_member (h : IsOnly .operands l (.operands ts)) :
    IsOnly .members l (.members [.meet ts]) := by
  intro m q r s hm hk heq hr hs
  cases q with
  | members us =>
    cases hm with
    | member hm =>
      obtain ⟨rfl, ht, rfl⟩ := h hm rfl heq (hr.mono (by decide)) (hs.mono (by decide))
      cases ht
      exact ⟨rfl, rfl, rfl⟩
    | or hm =>
      rw [List.append_assoc] at heq
      exact absurd heq (h.ne_separator hm rfl (by decide) (by decide) (by decide) hr)
  | _ => cases hk

theorem isOnly_or (h : IsOnly .operands l (.operands ts)) (hu : IsOnly .members m (.members us)) :
    IsOnly .members (l ++ .mark '|' :: m) (.members (.meet ts :: us)) := by
  intro m' q r s hm hk heq hr hs
  rw [List.append_assoc] at heq
  cases q with
  | members us =>
    cases hm with
    | member hm =>
      exact absurd heq (h.separator_ne hm rfl (by decide) (by decide) (by decide) hs)
    | or hm hms =>
      rw [List.append_assoc] at heq
      obtain ⟨rfl, ht, heq⟩ := h.separator hm rfl (by decide) heq
      obtain ⟨rfl, hus, rfl⟩ := hu hms rfl heq hr hs
      cases ht
      cases hus
      exact ⟨rfl, rfl, rfl⟩
  | _ => cases hk

theorem isOnly_union (hl : Derives l (.members ts)) (h : IsOnly .members l (.members ts)) :
    IsOnly .type l (.type (.join ts)) := by
  intro m q r s hm hk heq hr hs
  cases q with
  | type u =>
    cases hm with
    | union hm =>
      obtain ⟨rfl, ht, rfl⟩ := h hm rfl heq hr hs
      cases ht
      exact ⟨rfl, rfl, rfl⟩
    | thunk hm => exact absurd (hl.startsParams_of_paren rfl _ _ heq) (by simp [startsParams])
    | function hms hm =>
      have hfalse := hl.startsParams_of_paren rfl _ _ heq
      rw [List.append_eq, List.append_assoc, hms.startsParams_of_params rfl] at hfalse
      cases hfalse
  | _ => cases hk

theorem isOnly_thunk (h : IsOnly .type l (.type t)) :
    IsOnly .type (.mark '(' :: .mark ')' :: .arrow :: l) (.type (.function [] t)) := by
  intro m q r s hm hk heq hr hs
  cases q with
  | type u =>
    cases hm with
    | union hm =>
      exact absurd (hm.startsParams_of_paren rfl _ _ heq.symm) (by simp [startsParams])
    | thunk hm =>
      simp only [List.cons_append, List.cons.injEq, true_and] at heq
      obtain ⟨rfl, ht, rfl⟩ := h hm rfl heq hr hs
      cases ht
      exact ⟨rfl, rfl, rfl⟩
    | function hms hm =>
      simp only [List.cons_append, List.append_assoc, List.cons.injEq, true_and] at heq
      exact absurd heq.symm (hms.ne_paren _ _)
  | _ => cases hk

theorem isOnly_function (hl : Derives l (.params ps)) (hps : IsOnly .params l (.params ps))
    (h : IsOnly .type m (.type t)) :
    IsOnly .type (.mark '(' :: (l ++ .mark ')' :: .arrow :: m)) (.type (.function ps t)) := by
  intro m' q r s hm hk heq hr hs
  cases q with
  | type u =>
    cases hm with
    | union hm =>
      have hfalse := hm.startsParams_of_paren rfl _ _ heq.symm
      rw [List.append_eq, List.append_assoc, hl.startsParams_of_params rfl] at hfalse
      cases hfalse
    | thunk hm =>
      simp only [List.cons_append, List.append_assoc, List.cons.injEq, true_and] at heq
      exact absurd heq (hl.ne_paren _ _)
    | function hms hm =>
      simp only [List.cons_append, List.append_assoc, List.cons.injEq, true_and] at heq
      obtain ⟨rfl, hqs, heq⟩ := hps.closing hms rfl (by decide) heq
      obtain ⟨rfl, ht, rfl⟩ := h hm rfl (List.cons.inj heq).2 hr hs
      cases hqs
      cases ht
      exact ⟨rfl, rfl, rfl⟩
  | _ => cases hk

theorem isOnly_one (h : IsOnly .type l (.type t)) : IsOnly .types l (.types [t]) := by
  intro m q r s hm hk heq hr hs
  cases q with
  | types us =>
    cases hm with
    | one hm =>
      obtain ⟨rfl, ht, rfl⟩ := h hm rfl heq (hr.mono (by decide)) (hs.mono (by decide))
      cases ht
      exact ⟨rfl, rfl, rfl⟩
    | more hm =>
      rw [List.append_assoc] at heq
      exact absurd heq (h.ne_separator hm rfl (by decide) (by decide) (by decide) hr)
  | _ => cases hk

theorem isOnly_more (h : IsOnly .type l (.type t)) (ht : IsOnly .types m (.types ts)) :
    IsOnly .types (l ++ .mark ',' :: m) (.types (t :: ts)) := by
  intro m' q r s hm hk heq hr hs
  rw [List.append_assoc] at heq
  cases q with
  | types us =>
    cases hm with
    | one hm =>
      exact absurd heq (h.separator_ne hm rfl (by decide) (by decide) (by decide) hs)
    | more hm hms =>
      rw [List.append_assoc] at heq
      obtain ⟨rfl, hu, heq⟩ := h.separator hm rfl (by decide) heq
      obtain ⟨rfl, hus, rfl⟩ := ht hms rfl heq hr hs
      cases hu
      cases hus
      exact ⟨rfl, rfl, rfl⟩
  | _ => cases hk

theorem isOnly_param (p : Parameter) (h : IsOnly .type l (.type t)) :
    IsOnly .params (p.tokens ++ l) (.params [(p, t)]) := by
  intro m q r s hm hk heq hr hs
  rw [List.append_assoc] at heq
  cases q with
  | params qs =>
    cases hm with
    | param q hm =>
      rw [List.append_assoc] at heq
      obtain ⟨rfl, htype⟩ := Parameter.tokens_inj heq
      obtain ⟨rfl, ht, rfl⟩ := h hm rfl htype (hr.mono (by decide)) (hs.mono (by decide))
      cases ht
      exact ⟨rfl, rfl, rfl⟩
    | moreParams q hm =>
      simp only [List.append_assoc] at heq
      obtain ⟨rfl, htype⟩ := Parameter.tokens_inj heq
      exact absurd htype (h.ne_separator hm rfl (by decide) (by decide) (by decide) hr)
  | _ => cases hk

theorem isOnly_moreParams (p : Parameter) (h : IsOnly .type l (.type t))
    (hps : IsOnly .params m (.params ps)) :
    IsOnly .params (p.tokens ++ (l ++ .mark ',' :: m)) (.params ((p, t) :: ps)) := by
  intro m' q r s hm hk heq hr hs
  simp only [List.append_assoc] at heq
  cases q with
  | params qs =>
    cases hm with
    | param q hm =>
      simp only [List.append_assoc] at heq
      obtain ⟨rfl, htype⟩ := Parameter.tokens_inj heq
      exact absurd htype (h.separator_ne hm rfl (by decide) (by decide) (by decide) hs)
    | moreParams q hm hms =>
      simp only [List.append_assoc] at heq
      obtain ⟨rfl, htype⟩ := Parameter.tokens_inj heq
      obtain ⟨rfl, hu, hparams⟩ := h.separator hm rfl (by decide) htype
      obtain ⟨rfl, hqs, rfl⟩ := hps hms rfl hparams hr hs
      cases hu
      cases hqs
      exact ⟨rfl, rfl, rfl⟩
  | _ => cases hk

end Rules

/-! ### Uniqueness -/

/-- Phrases of one kind that start the same text are the same, as long as nothing goes on either of
them. -/
theorem Derives.unique {l : List Token} {p : Phrase} (h : Derives l p) : IsOnly p.kind l p := by
  induction h with
  | name n => exact isOnly_name n
  | applied n _ ih => exact isOnly_applied n ih
  | object => exact isOnly_object
  | unit => exact isOnly_unit
  | tuple h ih => exact isOnly_tuple h ih
  | group _ ih => exact isOnly_group ih
  | operand _ ih => exact isOnly_operand ih
  | and _ _ ih ihs => exact isOnly_and ih ihs
  | member _ ih => exact isOnly_member ih
  | or _ _ ih ihs => exact isOnly_or ih ihs
  | union h ih => exact isOnly_union h ih
  | thunk _ ih => exact isOnly_thunk ih
  | function hs _ ihs ih => exact isOnly_function hs ihs ih
  | one _ ih => exact isOnly_one ih
  | more _ _ ih ihs => exact isOnly_more ih ihs
  | param p _ ih => exact isOnly_param p ih
  | moreParams p _ _ ih ihs => exact isOnly_moreParams p ih ihs

theorem stops_nil (k : Phrase.Kind) : Stops k [] := by
  intro c _
  exact nofun

/-- A text is read as one tree only. -/
theorem Reads.unique {s : String} {t u : Tree} (ht : Reads s t) (hu : Reads s u) : t = u := by
  obtain ⟨-, h, -⟩ := Derives.unique ht hu rfl rfl (stops_nil _) (stops_nil _)
  exact Phrase.type.inj h

end LuaAmbient.TypeScript
