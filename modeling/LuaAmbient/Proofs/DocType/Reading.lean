/-
**How a type text is taken apart.**

The outermost form of a text tells how the text is put together from its components, from fixed
characters and from blanks.  So every component is shorter than the text, the bound on the levels is
always enough, and the reader does what a recursion over the texts would do.

Main definitions:

* `LuaAmbient.DocType.IsParamName` — names of parameters;
* `LuaAmbient.DocType.Shape.Forms` — how a text of a given form is put together;
* `LuaAmbient.DocType.Line` — a single line that is read as a type.

Main results:

* `LuaAmbient.DocType.Shape.afterColon?_eq_some_iff`, `LuaAmbient.DocType.Shape.splitField?_cases` —
  texts behind a colon, and table fields;
* `LuaAmbient.DocType.Shape.forms_of_readOption`, `LuaAmbient.DocType.Shape.read_options`,
  `LuaAmbient.DocType.Shape.read_cases` — **the form that is read tells how the text is put together**;
* `LuaAmbient.DocType.parse_eq` — **the reader as a recursion over texts**.
-/

import LuaAmbient.DocType.Parser
import LuaAmbient.Proofs.Except
import LuaAmbient.Proofs.Nesting

set_option relaxedAutoImplicit false
set_option autoImplicit false

namespace LuaAmbient.DocType

open LuaAmbient.Text

/-! ### Ends of texts -/

theorem endsWith_append (s tail : List Char) : endsWith (s ++ tail) tail = true :=
  List.isSuffixOf_iff_suffix.2 (List.suffix_append s tail)

theorem dropEnd_append (s tail : List Char) : dropEnd (s ++ tail) tail.length = s := by
  simp [dropEnd]

theorem exists_of_endsWith {s tail : List Char} (h : endsWith s tail = true) :
    ∃ t, s = t ++ tail ∧ dropEnd s tail.length = t := by
  obtain ⟨t, rfl⟩ := List.isSuffixOf_iff_suffix.1 h
  exact ⟨t, rfl, dropEnd_append t tail⟩

/-- A parameter name: a letter, an underscore or a dollar sign, then word characters and dollar
signs, and perhaps a question mark. -/
def IsParamName (s : List Char) : Prop :=
  ∃ c name mark, s = c :: name ++ mark ∧ isNameStart c = true ∧
    (∀ d ∈ name, isNamePart d = true) ∧ (mark = [] ∨ mark = ['?'])

namespace Shape

theorem inner_enclosed (o k : Char) (s : List Char) : inner (o :: s ++ [k]) = s := by
  rw [inner, List.cons_append, List.drop_one, List.tail_cons]
  exact dropEnd_append s [k]

/-! ### Parts behind a colon -/

/-- The text behind a colon. -/
theorem afterColon?_eq_some_iff {s v : List Char} :
    afterColon? s = some v ↔ ∃ b b', AllBlank b ∧ AllBlank b' ∧ s = b ++ ':' :: (b' ++ v) ∧
      v ≠ [] ∧ '\n' ∉ v ∧ ∀ c ∈ v.head?, isBlank c = false := by
  rw [afterColon?]
  constructor
  · intro h
    obtain ⟨b, hb, hs, -⟩ := exists_stripLeft s
    split at h
    · next rest hrest =>
      obtain ⟨b', hb', hrest', hhead⟩ := exists_stripLeft rest
      simp only [Option.ite_none_left_eq_some, Bool.or_eq_true, List.isEmpty_iff,
        List.contains_iff_mem, not_or, Option.some.injEq] at h
      obtain ⟨⟨hne, hline⟩, rfl⟩ := h
      refine ⟨b, b', hb, hb', ?_, hne, hline, hhead⟩
      rw [← hrest', ← hrest, ← hs]
    · simp at h
  · rintro ⟨b, b', hb, hb', rfl, hne, hline, hhead⟩
    have hcolon : stripLeft (':' :: (b' ++ v)) = ':' :: (b' ++ v) :=
      stripLeft_eq_self (by simp; decide)
    rw [stripLeft_append hb, hcolon]
    simp only [stripLeft_append hb', stripLeft_eq_self hhead]
    simp [hne, hline]

/-- A parameter name and what is behind it. -/
theorem takeName?_eq_some {s name rest : List Char} (h : takeName? s = some (name, rest)) :
    IsParamName name ∧ s = name ++ rest := by
  cases s with
  | nil => simp [takeName?] at h
  | cons c s =>
      have hs := (List.takeWhile_append_dropWhile (p := isNamePart) (l := s)).symm
      rw [takeName?] at h
      split at h
      · next hc =>
        have hpart : ∀ d ∈ s.takeWhile isNamePart, isNamePart d = true :=
          fun d hd => List.mem_takeWhile_imp hd
        simp only at h
        split at h
        · next rest' hrest =>
          obtain ⟨rfl, rfl⟩ := Prod.mk.inj (Option.some.inj h)
          refine ⟨⟨c, _, ['?'], rfl, hc, hpart, .inr rfl⟩, ?_⟩
          rw [hrest] at hs
          simp [← hs]
        · obtain ⟨rfl, rfl⟩ := Prod.mk.inj (Option.some.inj h)
          exact ⟨⟨c, _, [], by simp, hc, hpart, .inl rfl⟩, by simp⟩
      · simp at h

/-- A parameter is the rest of the arguments, a name, a name with a type, or a type. -/
theorem readParam_cases (s : List Char) :
    (s = ['.', '.', '.'] ∧ readParam s = (.rest, none)) ∨
      (∃ rest t, s = '.' :: '.' :: '.' :: rest ∧ afterColon? rest = some t ∧
        readParam s = (.rest, some t)) ∨
      (IsParamName s ∧ readParam s = (.named (String.ofList s), none)) ∨
      (∃ name rest t, IsParamName name ∧ s = name ++ rest ∧ afterColon? rest = some t ∧
        readParam s = (.named (String.ofList name), some t)) ∨
      readParam s = (.unnamed, some s) := by
  have hrest : ∀ t, readRest? s = some t → (s = ['.', '.', '.'] ∧ t = none) ∨
      ∃ rest u, s = '.' :: '.' :: '.' :: rest ∧ afterColon? rest = some u ∧ t = some u := by
    intro t ht
    rw [readRest?] at ht
    split at ht
    · next h =>
      have hs := List.isPrefixOf?_eq_some_iff_append_eq.1 h
      exact .inl ⟨by simpa using hs.symm, (Option.some.inj ht).symm⟩
    · next rest _ h =>
      have hs := List.isPrefixOf?_eq_some_iff_append_eq.1 h
      obtain ⟨u, hu, rfl⟩ := Option.map_eq_some_iff.1 ht
      exact .inr ⟨rest, u, hs.symm, hu, rfl⟩
    · simp at ht
  rw [readParam]
  split
  · next ht =>
    rcases hrest _ ht with ⟨hs, rfl⟩ | ⟨rest, u, hs, hu, rfl⟩
    · exact .inl ⟨hs, rfl⟩
    · exact .inr (.inl ⟨rest, u, hs, hu, rfl⟩)
  · next name _ hname =>
    obtain ⟨hparam, hs⟩ := takeName?_eq_some hname
    rw [List.append_nil] at hs
    exact .inr (.inr (.inl ⟨hs ▸ hparam, by rw [hs]⟩))
  · next name rest _ _ hname =>
    obtain ⟨hparam, hs⟩ := takeName?_eq_some hname
    cases hu : afterColon? rest with
    | some t => exact .inr (.inr (.inr (.inl ⟨name, rest, t, hparam, hs, hu, rfl⟩)))
    | none => exact .inr (.inr (.inr (.inr rfl)))
  · exact .inr (.inr (.inr (.inr rfl)))

/-! ### Table fields -/

/-- A table field that is found behind a part of the key. -/
theorem splitField?_cases {seen s k v : List Char} (h : splitField? seen s = some (k, v)) :
    ∃ x rest, s = x ++ ']' :: rest ∧ k = seen.reverse ++ x ∧ k ≠ [] ∧ afterColon? rest = some v := by
  induction s generalizing seen with
  | nil => simp [splitField?] at h
  | cons c s ih =>
      rw [splitField?] at h
      split at h
      · simp at h
      · split at h
        · next r hr =>
          obtain rfl := Option.some.inj h
          obtain ⟨x, rest, rfl, rfl, hne, hv⟩ := ih hr
          exact ⟨c :: x, rest, rfl, by simp, hne, hv⟩
        · split at h
          · next hc =>
            simp only [Bool.and_eq_true, beq_iff_eq, Bool.not_eq_true', List.isEmpty_eq_false_iff]
              at hc
            obtain ⟨v', hv, heq⟩ := Option.map_eq_some_iff.1 h
            obtain ⟨rfl, rfl⟩ := Prod.mk.inj heq
            obtain ⟨rfl, hseen⟩ := hc
            exact ⟨[], s, rfl, by simp, by simpa using hseen, hv⟩
          · simp at h

theorem readField?_cases {s k v : List Char} (h : readField? s = some (k, v)) :
    ∃ rest, s = '[' :: (k ++ ']' :: rest) ∧ k ≠ [] ∧ afterColon? rest = some v := by
  unfold readField? at h
  split at h
  · obtain ⟨x, rest, rfl, rfl, hne, hv⟩ := splitField?_cases h
    exact ⟨rest, rfl, hne, hv⟩
  · simp at h

/-! ### Forms -/

/-- How a text of a given form is put together. -/
inductive Forms : List Char → Shape → Prop
  | plain (s : List Char) : Forms s (.plain s)
  | optional (t : List Char) : Forms (t ++ ['?']) (.optional t)
  | tuple {s : List Char} : 1 < (Nesting.split (· == ',') s).length →
      Forms s (.tuple (Nesting.split (· == ',') s))
  | array (t : List Char) : Forms (t ++ ['[', ']']) (.array t)
  | group {k : Char} (t : List Char) : Nesting.isCloser k = true →
      Forms ('(' :: t ++ [k]) (.group t)
  | table {k : Char} (t : List Char) : Nesting.isCloser k = true →
      Forms ('{' :: t ++ [k])
        (.table ((Nesting.split (· == ',') t).map fun part => (part, readField? part)))
  | bare : Forms "function".toList (.function [] none)
  | function {b inside behind : List Char} {k : Char} {result : Option (List Char)} : AllBlank b →
      Nesting.isCloser k = true →
      (strip behind = [] ∧ result = none ∨ ∃ t, strip behind = ':' :: t ∧ result = some t) →
      Forms ('f' :: 'u' :: 'n' :: (b ++ '(' :: (inside ++ k :: behind)))
        (.function ((Nesting.split (· == ',') inside).map readParam) result)
  | generic {base b args : List Char} : (∀ c ∈ base, isDottedPart c = true) → AllBlank b →
      Forms (base ++ b ++ '<' :: (args ++ ['>'])) (.generic base (Nesting.split (· == ',') args))

/-- The word and the parenthesis that a function type starts with. -/
theorem exists_of_isFunction {s : List Char} (h : isFunction s = true)
    (hs : (s == "function".toList) = false) :
    ∃ b rest, AllBlank b ∧ s = 'f' :: 'u' :: 'n' :: (b ++ '(' :: rest) := by
  rw [isFunction, hs, Bool.false_or] at h
  split at h
  · next rest hrest =>
    have hs := List.isPrefixOf?_eq_some_iff_append_eq.1 hrest
    obtain ⟨b, hb, heq, -⟩ := exists_stripLeft rest
    obtain ⟨t, ht⟩ := List.head?_eq_some_iff.1 (beq_iff_eq.1 h)
    refine ⟨b, t, hb, ?_⟩
    rw [← hs, heq, ht]
    rfl
  · simp at h

/-- The parenthesis is the first one. -/
theorem takeWhile_function {b : List Char} (hb : AllBlank b) (rest : List Char) :
    ('f' :: 'u' :: 'n' :: (b ++ '(' :: rest)).takeWhile (· != '(') = 'f' :: 'u' :: 'n' :: b := by
  have hblank : ∀ c ∈ b, (c != '(') = true := by
    intro c hc
    rw [bne_iff_ne]
    rintro rfl
    exact absurd (hb _ hc) (by decide)
  rw [List.takeWhile_cons_of_pos (by decide), List.takeWhile_cons_of_pos (by decide),
    List.takeWhile_cons_of_pos (by decide), List.takeWhile_append_of_pos hblank,
    List.takeWhile_cons_of_neg (by decide), List.append_nil]

theorem forms_of_readFunction {s : List Char} {shape : Shape} (hf : isFunction s = true)
    (h : readFunction s = .ok shape) : Forms s shape := by
  rw [readFunction] at h
  split at h
  · next hs =>
    obtain rfl := Except.ok.inj h
    rw [beq_iff_eq.1 hs]
    exact .bare
  · next hs =>
    obtain ⟨b, rest, hb, rfl⟩ := exists_of_isFunction hf (by simpa using hs)
    rw [takeWhile_function hb] at h
    simp only at h
    split at h
    · simp at h
    · next closing hclosing =>
      obtain ⟨before, o, inside, k, behind, heq, hlen, hj, hk⟩ :=
        Nesting.exists_of_closingIndex? hclosing
      -- the parenthesis at the opening is the one behind the word
      obtain ⟨rfl, hrest⟩ := List.append_inj
        (show ('f' :: 'u' :: 'n' :: b) ++ '(' :: rest = before ++ o :: (inside ++ k :: behind)
          from heq) hlen.symm
      obtain ⟨rfl, rfl⟩ := List.cons.inj hrest
      have hinside := Nesting.drop_take_partner ('f' :: 'u' :: 'n' :: b) inside behind '(' k
      have hbehind := Nesting.drop_partner ('f' :: 'u' :: 'n' :: b) inside behind '(' k
      rw [← hj] at hinside hbehind
      rw [List.cons_append, List.cons_append, List.cons_append] at hinside hbehind
      rw [hinside, hbehind] at h
      split at h
      · next hnil =>
        obtain rfl := Except.ok.inj h
        exact .function hb hk (.inl ⟨hnil, rfl⟩)
      · next result hresult =>
        obtain rfl := Except.ok.inj h
        exact .function hb hk (.inr ⟨result, hresult, rfl⟩)
      · simp at h

/-- The name and the bracket that a name with arguments starts with. -/
theorem takeBase?_eq_some {s base rest : List Char} (h : takeBase? s = some (base, rest)) :
    ∃ b, AllBlank b ∧ (∀ c ∈ base, isDottedPart c = true) ∧ s = base ++ b ++ '<' :: rest := by
  rw [takeBase?] at h
  split at h
  · simp at h
  · next base' rest' hbase hrest hne =>
    obtain ⟨rfl, rfl⟩ := Prod.mk.inj (Option.some.inj h)
    obtain ⟨b, hb, heq, -⟩ := exists_stripLeft (s.dropWhile isDottedPart)
    refine ⟨b, hb, fun c hc => List.mem_takeWhile_imp hc, ?_⟩
    rw [List.append_assoc, ← hrest, ← heq, List.takeWhile_append_dropWhile]
  · simp at h

theorem readGeneric?_eq_some {s base args : List Char} (h : readGeneric? s = some (base, args)) :
    ∃ b, AllBlank b ∧ (∀ c ∈ base, isDottedPart c = true) ∧
      s = base ++ b ++ '<' :: (args ++ ['>']) := by
  rw [readGeneric?] at h
  split at h
  · next base' inside hbase =>
    obtain ⟨b, hb, hbase', hs⟩ := takeBase?_eq_some hbase
    split at h
    · next hend =>
      obtain ⟨rfl, rfl⟩ := Prod.mk.inj (Option.some.inj h)
      rw [Bool.and_eq_true, beq_iff_eq] at hend
      obtain ⟨hlast, hclose⟩ := hend
      -- the text ends in a bracket behind the opening one, so that the arguments end in it
      have hne : inside ≠ [] := by
        rintro rfl
        obtain ⟨before, o, mid, k, behind, heq, hlen, hj, -⟩ :=
          Nesting.exists_of_closingIndex? hclose
        have := congrArg List.length heq
        simp only [List.length_append, List.length_cons, List.length_nil] at this hlen hj
        omega
      refine ⟨b, hb, hbase', ?_⟩
      obtain ⟨t, ht, -⟩ := exists_of_endsWith hlast
      have hsuffix : ['>'] <:+ inside := by
        rw [hs] at ht
        have h₁ : ['>'] <:+ base' ++ b ++ '<' :: inside := ⟨t, ht.symm⟩
        refine List.suffix_of_suffix_length_le h₁ (List.suffix_append_of_suffix
          (List.suffix_cons _ _)) ?_
        exact List.length_pos_iff.2 hne
      obtain ⟨init, rfl⟩ := hsuffix
      rw [show dropEnd (init ++ ['>']) 1 = init from dropEnd_append init ['>']]
      exact hs
    · simp at h
  · simp at h

/-- **The form that is read tells how the text is put together.** -/
theorem forms_of_readOption {s : List Char} {shape : Shape} (h : readOption s = .ok shape) :
    Forms s shape := by
  rw [readOption] at h
  split at h
  · next hend =>
    obtain ⟨t, rfl, ht⟩ := exists_of_endsWith hend
    obtain rfl := Except.ok.inj h
    rw [show dropEnd (t ++ ['?']) 1 = t from ht]
    exact .optional t
  split at h
  · next hcut =>
    obtain rfl := Except.ok.inj h
    simp only [Bool.and_eq_true, decide_eq_true_eq] at hcut
    exact .tuple hcut.2
  split at h
  · next hend =>
    obtain ⟨t, rfl, ht⟩ := exists_of_endsWith hend
    obtain rfl := Except.ok.inj h
    rw [show dropEnd (t ++ ['[', ']']) 2 = t from ht]
    exact .array t
  split at h
  · next hall =>
    obtain ⟨o, t, k, rfl, ho, hk⟩ := Nesting.exists_of_enclosesAll hall
    obtain rfl := beq_iff_eq.1 ho
    obtain rfl := Except.ok.inj h
    rw [inner_enclosed]
    exact .group t hk
  split at h
  · next hall =>
    obtain ⟨o, t, k, rfl, ho, hk⟩ := Nesting.exists_of_enclosesAll hall
    obtain rfl := beq_iff_eq.1 ho
    obtain rfl := Except.ok.inj h
    rw [inner_enclosed]
    exact .table t hk
  split at h
  · next hf => exact forms_of_readFunction hf h
  split at h
  · next base args hgeneric =>
    split at h
    · simp at h
    · obtain rfl := Except.ok.inj h
      obtain ⟨b, hb, hbase, rfl⟩ := readGeneric?_eq_some hgeneric
      exact .generic hbase hb
  · obtain rfl := Except.ok.inj h
    exact .plain s

/-- A text is a union, or its only option is read. -/
theorem read_options {text : List Char} {shape : Shape} (h : read text = .ok shape) :
    Nesting.balanced text = true ∧
      ((shape = .union (Nesting.split (· == '|') (strip text)) ∧
          1 < (Nesting.split (· == '|') (strip text)).length) ∨
        ∃ s, Nesting.split (· == '|') (strip text) = [s] ∧ readOption s = .ok shape) := by
  rw [read] at h
  split at h
  · simp at h
  split at h
  · simp at h
  · next hbal =>
    refine ⟨by simpa [Nesting.balanced_strip] using hbal, ?_⟩
    split at h
    · simp at h
    · next s hs => exact .inr ⟨s, hs, h⟩
    · next hnil hone =>
      obtain rfl := Except.ok.inj h
      refine .inl ⟨rfl, ?_⟩
      match hsplit : Nesting.split (· == '|') (strip text) with
      | [] => exact absurd hsplit hnil
      | [s] => exact absurd hsplit (hone s)
      | _ :: _ :: _ => simp

/-- A text is a union, or it has the form of its only option. -/
theorem read_cases {text : List Char} {shape : Shape} (h : read text = .ok shape) :
    Nesting.balanced text = true ∧
      ((shape = .union (Nesting.split (· == '|') (strip text)) ∧
          1 < (Nesting.split (· == '|') (strip text)).length) ∨
        ∃ s, Nesting.split (· == '|') (strip text) = [s] ∧ Forms s shape) := by
  obtain ⟨hbal, hunion | ⟨s, hs, hread⟩⟩ := read_options h
  · exact ⟨hbal, .inl hunion⟩
  · exact ⟨hbal, .inr ⟨s, hs, forms_of_readOption hread⟩⟩

/-! ### Components -/

theorem length_le_of_afterColon? {s v : List Char} (h : afterColon? s = some v) :
    v.length < s.length := by
  obtain ⟨b, b', -, -, rfl, -⟩ := afterColon?_eq_some_iff.1 h
  simp only [List.length_append, List.length_cons]
  omega

theorem length_le_of_readParam {s t : List Char} (h : (readParam s).2 = some t) :
    t.length ≤ s.length := by
  rcases readParam_cases s with ⟨-, hs⟩ | ⟨rest, u, rfl, hu, hs⟩ | ⟨-, hs⟩ |
    ⟨name, rest, u, -, rfl, hu, hs⟩ | hs
  · simp [hs] at h
  · rw [hs] at h
    obtain rfl := Option.some.inj h
    have := length_le_of_afterColon? hu
    simp only [List.length_cons]
    omega
  · simp [hs] at h
  · rw [hs] at h
    obtain rfl := Option.some.inj h
    have := length_le_of_afterColon? hu
    simp only [List.length_append]
    omega
  · rw [hs] at h
    obtain rfl := Option.some.inj h
    exact le_refl _

theorem length_lt_of_readField? {s k v : List Char} (h : readField? s = some (k, v)) :
    k.length < s.length ∧ v.length < s.length := by
  obtain ⟨rest, rfl, -, hv⟩ := readField?_cases h
  have := length_le_of_afterColon? hv
  simp only [List.length_cons, List.length_append]
  omega

/-- The components of a form are shorter than the text. -/
theorem Forms.length_lt {s : List Char} {shape : Shape} (h : Forms s shape) :
    ∀ t ∈ shape.components, t.length < s.length := by
  cases h with
  | plain => simp [components]
  | optional t => simp [components]
  | tuple hcut => exact fun t ht => Nesting.length_lt_of_mem_split ht hcut
  | array t => simp [components]
  | group t _ =>
      intro u hu
      obtain rfl := List.mem_singleton.1 hu
      simp only [List.length_append, List.length_cons]
      omega
  | table t _ =>
      intro u hu
      obtain ⟨e, he, hu⟩ := List.mem_flatMap.1 hu
      obtain ⟨part, hpart, rfl⟩ := List.mem_map.1 he
      have hle := Nesting.length_le_of_mem_split hpart
      simp only at hu
      split at hu
      · next k v hkv =>
        have := length_lt_of_readField? hkv
        simp only [List.mem_cons, List.not_mem_nil, or_false] at hu
        simp only [List.length_append, List.length_cons, List.length_nil]
        rcases hu with rfl | rfl <;> omega
      · simp at hu
  | bare => simp [components]
  | @function b inside behind k result _ _ hresult =>
      intro u hu
      simp only [List.length_append, List.length_cons]
      rcases List.mem_append.1 hu with hu | hu
      · rcases hresult with ⟨-, rfl⟩ | ⟨t, ht, rfl⟩
        · simp at hu
        · obtain rfl : u = t := by simpa using hu
          have := length_strip_le behind
          rw [ht, List.length_cons] at this
          omega
      · obtain ⟨p, hp, hu⟩ := List.mem_filterMap.1 hu
        obtain ⟨part, hpart, rfl⟩ := List.mem_map.1 hp
        have h₁ := Nesting.length_le_of_mem_split hpart
        have h₂ := length_le_of_readParam hu
        omega
  | @generic base b args _ _ =>
      intro u hu
      have := Nesting.length_le_of_mem_split (show u ∈ Nesting.split (· == ',') args from hu)
      simp only [List.length_append, List.length_cons]
      omega

theorem length_lt_of_mem_components {text : List Char} {shape : Shape}
    (h : read text = .ok shape) : ∀ t ∈ shape.components, t.length < text.length := by
  intro t ht
  have hle := length_strip_le text
  obtain ⟨-, ⟨rfl, hcut⟩ | ⟨s, hs, hforms⟩⟩ := read_cases h
  · have := Nesting.length_lt_of_mem_split ht hcut
    omega
  · have h₁ := hforms.length_lt t ht
    have h₂ : s.length ≤ (strip text).length :=
      Nesting.length_le_of_mem_split (hs ▸ List.mem_singleton_self s)
    omega

/-! ### The recursion -/

/-- A type text that may be left out. -/
def readOr (parse : List Char → Except Fault DocType) (default : DocType) :
    Option (List Char) → Except Fault DocType
  | some t => parse t
  | none => .ok default

/-- An entry of a table. -/
def readEntry (parse : List Char → Except Fault DocType)
    (e : List Char × Option (List Char × List Char)) : Except Fault (DocType × DocType) :=
  match e.2 with
  | some (k, v) => parse k >>= fun key => parse v >>= fun value => .ok (key, value)
  | none => .error (.field (String.ofList e.1))

theorem build_function (parse : List Char → Except Fault DocType)
    (params : List (Label × Option (List Char))) (result : Option (List Char)) :
    build parse (.function params result) = readOr parse void result >>= fun r =>
      params.mapM (fun p => readOr parse any p.2 >>= fun t => .ok (p.1, t)) >>= fun ps =>
        .ok (.function ps r) := by
  have hparam : (fun p : Label × Option (List Char) =>
      readOr parse any p.2 >>= fun t => Except.ok (p.1, t)) = fun p =>
        match p.2 with
        | some t => parse t >>= fun t => pure (p.1, t)
        | none => pure any >>= fun t => pure (p.1, t) := by
    funext p
    cases p.2 <;> rfl
  rw [hparam]
  cases result <;> rfl

theorem build_table (parse : List Char → Except Fault DocType)
    (entries : List (List Char × Option (List Char × List Char))) :
    build parse (.table entries) = entries.mapM (readEntry parse) >>= fun fields =>
      .ok (.table fields) :=
  rfl

/-- Only the components of a form are read. -/
theorem build_congr {f g : List Char → Except Fault DocType} {shape : Shape}
    (h : ∀ t ∈ shape.components, f t = g t) : build f shape = build g shape := by
  cases shape with
  | plain => rfl
  | optional t => simp only [build, h t (by simp [components])]
  | generic base ts =>
      have hts : ts.mapM f = ts.mapM g := mapM_congr h
      simp only [build, hts]
  | union ts =>
      have hts : ts.mapM f = ts.mapM g := mapM_congr h
      simp only [build, hts]
  | array t => simp only [build, h t (by simp [components])]
  | tuple ts =>
      have hts : ts.mapM f = ts.mapM g := mapM_congr h
      simp only [build, hts]
  | group t => exact h t (by simp [components])
  | function params result =>
      have hor : ∀ (default : DocType) (o : Option (List Char)),
          (∀ t ∈ o, t ∈ (Shape.function params result).components) →
            readOr f default o = readOr g default o := by
        intro default o ho
        cases o with
        | none => rfl
        | some t => exact h t (ho t rfl)
      rw [build_function, build_function,
        hor void result fun t ht => List.mem_append_left _ (Option.mem_toList.2 ht)]
      rw [mapM_congr (l := params) fun p hp => ?_]
      rw [hor any p.2 fun t ht => List.mem_append_right _ (List.mem_filterMap.2 ⟨p, hp, ht⟩)]
  | table entries =>
      rw [build_table, build_table, mapM_congr (l := entries) fun e he => ?_]
      rw [readEntry, readEntry]
      split
      · next k v hkv =>
        have hk : k ∈ (Shape.table entries).components :=
          List.mem_flatMap.2 ⟨e, he, by simp [hkv]⟩
        have hv : v ∈ (Shape.table entries).components :=
          List.mem_flatMap.2 ⟨e, he, by simp [hkv]⟩
        rw [h _ hk, h _ hv]
      · rfl

end Shape

/-- The levels of a text are fewer than its characters. -/
theorem parseWithin_eq {levels : Nat} {text : List Char} (h : text.length < levels) :
    parseWithin levels text = parse text := by
  -- the induction is on the text, since the bound of a component is that of the text less one
  generalize hn : text.length = n
  induction n using Nat.strongRecOn generalizing text levels with
  | _ n ih =>
      obtain ⟨m, rfl⟩ := Nat.exists_eq_succ_of_ne_zero (Nat.ne_zero_of_lt h)
      rw [parse, parseWithin, parseWithin]
      cases hread : Shape.read text with
      | error fault => rfl
      | ok shape =>
          refine Shape.build_congr fun t ht => ?_
          have hlt := Shape.length_lt_of_mem_components hread t ht
          rw [ih t.length (hn ▸ hlt) (by omega) rfl, ih t.length (hn ▸ hlt) (by omega) rfl]

/-- **The reader as a recursion over texts**: the form of a text is read, and then its components. -/
theorem parse_eq (text : List Char) :
    parse text = Shape.read text >>= Shape.build parse := by
  rw [parse, parseWithin]
  cases hread : Shape.read text with
  | error fault => rfl
  | ok shape =>
      exact Shape.build_congr fun t ht =>
        parseWithin_eq (Shape.length_lt_of_mem_components hread t ht)

theorem parse_of_read {text : List Char} {shape : Shape} (h : Shape.read text = .ok shape) :
    parse text = Shape.build parse shape := by
  rw [parse_eq, h]
  rfl

/-- Blanks around a text do not count. -/
theorem parse_strip (text : List Char) : parse (strip text) = parse text := by
  rw [parse_eq, parse_eq, Shape.read, Shape.read, strip_strip]

/-- A text that can be read is balanced. -/
theorem balanced_of_parse {text : List Char} {t : DocType} (h : parse text = .ok t) :
    Nesting.balanced text = true := by
  rw [parse_eq] at h
  cases hread : Shape.read text with
  | error fault => simp [hread, bind, Except.bind] at h
  | ok shape => exact (Shape.read_cases hread).1

/-- A text that can be read is not blank. -/
theorem strip_ne_nil_of_parse {text : List Char} {t : DocType} (h : parse text = .ok t) :
    strip text ≠ [] := by
  intro hnil
  rw [parse_eq, Shape.read, hnil] at h
  simp [bind, Except.bind] at h

/-- A single line that is read as a type. -/
structure Line (text : List Char) (type : DocType) : Prop where
  parse_eq : parse text = .ok type
  unbroken : '\n' ∉ text

end LuaAmbient.DocType
