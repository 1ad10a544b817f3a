/-
**Texts of each form are read as that form.**

The form of a text is found by tests that are made one after the other: for bars, for a question mark
at the end, for commas, for square brackets at the end, for brackets around it all, for the word in
front of a function type, for a name with arguments.  For each form, the lemmas here say which texts
come through the tests before its own.

Main definitions:

* `LuaAmbient.DocType.IsDotted` — dotted names;
* `LuaAmbient.DocType.Unmarked` — texts without the marks between and around the parts of a type.

Main results:

* `LuaAmbient.DocType.Shape.read_of_item`, `LuaAmbient.DocType.Shape.read_union` — texts without and
  with bars;
* `LuaAmbient.DocType.Shape.readOption_optional`, `LuaAmbient.DocType.Shape.readOption_array`,
  `LuaAmbient.DocType.Shape.readOption_tuple`, `LuaAmbient.DocType.Shape.readOption_group`,
  `LuaAmbient.DocType.Shape.readOption_table`, `LuaAmbient.DocType.Shape.readOption_function`,
  `LuaAmbient.DocType.Shape.readOption_generic`, `LuaAmbient.DocType.Shape.readOption_unmarked` — **one
  for each form**;
* `LuaAmbient.DocType.Shape.readFunction_partner` — what is read of a function type once the partner of
  its parenthesis is known;
* `LuaAmbient.DocType.Shape.readParam_named` — a parameter with a name.
-/

import LuaAmbient.DocType.Printer
import LuaAmbient.Proofs.DocType.Reading
import LuaAmbient.Proofs.Text.Word

set_option relaxedAutoImplicit false
set_option autoImplicit false

namespace LuaAmbient.DocType

open LuaAmbient.Text

theorem exists_cons_cons {α : Type} {l : List α} (h : 2 ≤ l.length) :
    ∃ a b rest, l = a :: b :: rest := by
  rcases l with _ | ⟨a, _ | ⟨b, rest⟩⟩
  · simp at h
  · simp at h
  · exact ⟨a, b, rest, rfl⟩

/-! ### Names -/

/-- A dotted name: word characters, dollar signs and dots. -/
def IsDotted (s : List Char) : Prop :=
  s ≠ [] ∧ ∀ c ∈ s, isDottedPart c = true

instance (s : List Char) : Decidable (IsDotted s) :=
  inferInstanceAs (Decidable (_ ∧ _))

/-- A character of a name is none of the characters that no name has. -/
theorem ne_of_isDottedPart {c : Char} (h : isDottedPart c = true) {d : Char}
    (hd : isDottedPart d = false) : c ≠ d := by
  rintro rfl
  rw [h] at hd
  exact absurd hd (by decide)

theorem isPlain_of_isDottedPart {c : Char} (h : isDottedPart c = true) : Nesting.IsPlain c := by
  have hne := fun (d : Char) (hd : isDottedPart d = false) => ne_of_isDottedPart h hd
  constructor
  · simp [Nesting.isOpener, hne '<' (by decide), hne '{' (by decide), hne '(' (by decide)]
  · simp [Nesting.isCloser, hne '>' (by decide), hne '}' (by decide), hne ')' (by decide)]

theorem IsDotted.item {s : List Char} (h : IsDotted s) {sep : Char → Bool}
    (hsep : ∀ c, isDottedPart c = true → sep c = false) : Nesting.Item sep s :=
  Nesting.item_of_forall h.1 fun c hc =>
    ⟨isPlain_of_isDottedPart (h.2 c hc), isBlank_eq_false_of_isDottedPart (h.2 c hc),
      hsep c (h.2 c hc)⟩

/-- A single character that no name has is no separator of names. -/
theorem beq_eq_false_of_isDottedPart {d : Char} (hd : isDottedPart d = false) :
    ∀ c, isDottedPart c = true → (c == d) = false :=
  fun _ hc => beq_eq_false_iff_ne.2 (ne_of_isDottedPart hc hd)

/-- A text without the marks between and around the parts of a type, which may hold blanks. -/
structure Unmarked (s : List Char) : Prop where
  ne_nil : s ≠ []
  trimmed : Trimmed s
  unmarked : ∀ c ∈ s, Nesting.IsPlain c ∧ c ≠ '|' ∧ c ≠ ',' ∧ c ≠ '?' ∧ c ≠ ']'

theorem IsDotted.unmarked {s : List Char} (h : IsDotted s) : Unmarked s where
  ne_nil := h.1
  trimmed := trimmed_of_forall fun c hc => isBlank_eq_false_of_isDottedPart (h.2 c hc)
  unmarked c hc := by
    have hne := fun (d : Char) (hd : isDottedPart d = false) => ne_of_isDottedPart (h.2 c hc) hd
    exact ⟨isPlain_of_isDottedPart (h.2 c hc), hne _ (by decide), hne _ (by decide),
      hne _ (by decide), hne _ (by decide)⟩

theorem Unmarked.item {s : List Char} (h : Unmarked s) {d : Char} (hd : d ∉ s) :
    Nesting.Item (· == d) s where
  balanced := Nesting.balanced_of_isPlain fun c hc => (h.unmarked c hc).1
  trimmed := h.trimmed
  ne_nil := h.ne_nil
  uncut := by
    refine Nesting.uncutFrom_of_forall ?_ 0
    intro c hc
    rw [beq_eq_false_iff_ne]
    rintro rfl
    exact hd hc

theorem Unmarked.item_bar {s : List Char} (h : Unmarked s) : Nesting.Item (· == '|') s :=
  h.item fun hd => (h.unmarked _ hd).2.1 rfl

theorem Unmarked.item_comma {s : List Char} (h : Unmarked s) : Nesting.Item (· == ',') s :=
  h.item fun hd => (h.unmarked _ hd).2.2.1 rfl

theorem IsParamName.not_mem {name : List Char} (h : IsParamName name) {d : Char}
    (hd : isDottedPart d = false) (hmark : d ≠ '?') : d ∉ name := by
  obtain ⟨c, s, mark, rfl, hc, hs, hm⟩ := h
  intro hmem
  rcases List.mem_append.1 hmem with hmem | hmem
  · refine ne_of_isDottedPart (isDottedPart_of_isNamePart ?_) hd rfl
    rcases List.mem_cons.1 hmem with rfl | hmem
    · exact isNamePart_of_isNameStart hc
    · exact hs d hmem
  · rcases hm with rfl | rfl
    · simp at hmem
    · exact hmark (List.mem_singleton.1 hmem)

theorem IsParamName.item {name : List Char} (h : IsParamName name) {sep : Char → Bool}
    (hsep : ∀ c, isDottedPart c = true → sep c = false) (hmark : sep '?' = false) :
    Nesting.Item sep name := by
  obtain ⟨c, s, mark, rfl, hc, hs, hm⟩ := h
  refine Nesting.item_of_forall (by simp) fun d hd => ?_
  have hdotted : isDottedPart d = true → Nesting.IsPlain d ∧ isBlank d = false ∧ sep d = false :=
    fun hd => ⟨isPlain_of_isDottedPart hd, isBlank_eq_false_of_isDottedPart hd, hsep d hd⟩
  rcases List.mem_append.1 hd with hd | hd
  · rcases List.mem_cons.1 hd with rfl | hd
    · exact hdotted (isDottedPart_of_isNamePart (isNamePart_of_isNameStart hc))
    · exact hdotted (isDottedPart_of_isNamePart (hs d hd))
  · rcases hm with rfl | rfl
    · simp at hd
    · obtain rfl := List.mem_singleton.1 hd
      exact ⟨by decide, by decide, hmark⟩

namespace Shape

/-! ### Bars -/

/-- A text without bars has the form of its only option. -/
theorem read_of_item {s : List Char} (h : Nesting.Item (· == '|') s) : read s = readOption s := by
  rw [read, strip_eq_self h.trimmed, if_neg (by simp [h.ne_nil]), if_neg (by simp [h.balanced]),
    Nesting.split_of_item h]

/-- Options with bars between them. -/
theorem read_union {options : List (List Char)} (hlen : 2 ≤ options.length)
    (h : ∀ o ∈ options, Nesting.Item (· == '|') o) :
    read (['|'].intercalate options) = .ok (.union options) := by
  have hitem : Nesting.Item (fun _ => false) (['|'].intercalate options) := by
    refine Nesting.item_intercalate (by decide) (Nesting.uncutFrom_of_forall (by simp) 0) ?_
      fun o ho => (h o ho).mono (by simp)
    rintro rfl
    simp at hlen
  have hsplit : Nesting.split (· == '|') (['|'].intercalate options) = options :=
    Nesting.split_intercalate (by decide) (by decide) allBlank_nil h
  rw [read, strip_eq_self hitem.trimmed, if_neg (by simp only [List.isEmpty_iff, hitem.ne_nil, not_false_eq_true]),
    if_neg (by rw [hitem.balanced]; decide), hsplit]
  obtain ⟨a, b, rest, rfl⟩ := exists_cons_cons hlen
  rfl

/-! ### Tests on texts -/

theorem endsWith_concat {s : List Char} {c d : Char} : endsWith (s ++ [c]) [d] = (c == d) := by
  rw [Bool.eq_iff_iff, beq_iff_eq, endsWith, List.isSuffixOf_iff_suffix]
  constructor
  · rintro ⟨t, ht⟩
    exact (List.cons.inj (List.append_inj' ht rfl).2).1.symm
  · rintro rfl
    exact List.suffix_append s [c]

/-- A text that ends in square brackets ends in the closing one. -/
theorem endsWith_brackets {s : List Char} {c : Char} (hc : c ≠ ']') :
    endsWith (s ++ [c]) ['[', ']'] = false := by
  rw [← Bool.not_eq_true]
  intro h
  obtain ⟨t, ht, -⟩ := exists_of_endsWith h
  have ht' : s ++ [c] = (t ++ ['[']) ++ [']'] := by simpa using ht
  exact hc (List.cons.inj (List.append_inj' ht' rfl).2).1

/-- What stands in front of a character that the end does not have does not matter. -/
theorem endsWith_append_cons {c : Char} {tail : List Char} (hc : c ∉ tail) (s t : List Char) :
    endsWith (s ++ c :: t) tail = endsWith t tail := by
  rw [Bool.eq_iff_iff, endsWith, endsWith, List.isSuffixOf_iff_suffix, List.isSuffixOf_iff_suffix]
  constructor
  · intro h
    rcases Nat.lt_or_ge t.length tail.length with hlt | hle
    · -- an end that is longer than the rest would reach back to the character
      have hsuffix : c :: t <:+ tail :=
        List.suffix_of_suffix_length_le (List.suffix_append s (c :: t)) h hlt
      exact absurd (hsuffix.subset List.mem_cons_self) hc
    · exact List.suffix_of_suffix_length_le h
        ((List.suffix_cons c t).trans (List.suffix_append s (c :: t))) hle
  · intro h
    exact h.trans ((List.suffix_cons c t).trans (List.suffix_append s (c :: t)))

theorem isFunction_of_head {s : List Char} (h : s.head? ≠ some 'f') : isFunction s = false := by
  have hword : (s == "function".toList) = false := by
    rw [beq_eq_false_iff_ne]
    rintro rfl
    exact h rfl
  have hprefix : List.isPrefixOf? ['f', 'u', 'n'] s = none := by
    cases s with
    | nil => rfl
    | cons c s =>
        have hc : ('f' == c) = false := by
          rw [beq_eq_false_iff_ne]
          rintro rfl
          exact h rfl
        simp [List.isPrefixOf?, hc]
  rw [isFunction, hword, hprefix, Bool.false_or]

/-- The form of a text that has no mark at its end and no cut at a comma. -/
def lateForm (s : List Char) : Except Fault Shape :=
  if Nesting.enclosesAll (· == '(') s then .ok (.group (inner s))
  else if Nesting.enclosesAll (· == '{') s then
    .ok (.table ((Nesting.split (· == ',') (inner s)).map fun part => (part, readField? part)))
  else if isFunction s then readFunction s
  else
    match readGeneric? s with
    | some (base, args) =>
      match Nesting.split (· == ',') args with
      | [] => .error (.bareGeneric (String.ofList base))
      | texts => .ok (.generic base texts)
    | none => .ok (.plain s)

/-- The first tests fail. -/
theorem readOption_eq_lateForm {s : List Char} (hmark : endsWith s ['?'] = false)
    (hbrackets : endsWith s ['[', ']'] = false)
    (hcut : s.head? = some '{' ∨ isFunction s = true ∨
      (Nesting.split (· == ',') s).length ≤ 1) : readOption s = lateForm s := by
  have hno : ¬ (s.contains ',' && s.head? != some '{' && !isFunction s && !endsWith s ['[', ']'] &&
      decide (1 < (Nesting.split (· == ',') s).length)) = true := by
    simp only [Bool.and_eq_true, bne_iff_ne, Bool.not_eq_true', decide_eq_true_eq]
    rintro ⟨⟨⟨⟨hcomma, hhead⟩, hfun⟩, -⟩, hlen⟩
    rcases hcut with h | h | h
    · exact hhead h
    · rw [h] at hfun
      exact absurd hfun (by decide)
    · omega
  rw [readOption, if_neg (by simp [hmark]), if_neg hno, if_neg (by simp [hbrackets])]
  rfl

/-! ### One lemma for each form -/

theorem readOption_optional (t : List Char) : readOption (t ++ ['?']) = .ok (.optional t) := by
  rw [readOption, if_pos (endsWith_append t ['?'])]
  exact congrArg (fun u => Except.ok (Shape.optional u)) (dropEnd_append t ['?'])

theorem readOption_array (t : List Char) : readOption (t ++ ['[', ']']) = .ok (.array t) := by
  have hmark : endsWith (t ++ ['[', ']']) ['?'] = false := by
    rw [show t ++ ['[', ']'] = (t ++ ['[']) ++ [']'] by simp, endsWith_concat]
    rfl
  have hend := endsWith_append t ['[', ']']
  rw [readOption, if_neg (by simp [hmark]), if_neg (by simp [hend]), if_pos hend]
  exact congrArg (fun u => Except.ok (Shape.array u)) (dropEnd_append t ['[', ']'])

/-- Parentheses around a balanced text. -/
theorem readOption_group {t : List Char} (h : Nesting.balanced t = true) :
    readOption ('(' :: t ++ [')']) = .ok (.group t) := by
  have hitem : Nesting.Item (· == ',') ('(' :: t ++ [')']) := Nesting.item_enclosed rfl rfl rfl h
  rw [readOption_eq_lateForm (by rw [endsWith_concat]; rfl) (endsWith_brackets (by decide))
    (.inr (.inr (by rw [Nesting.split_of_item hitem]; rfl))), lateForm,
    if_pos (Nesting.enclosesAll_enclosed rfl rfl rfl h), inner_enclosed]

/-- Braces around a balanced text. -/
theorem readOption_table {t : List Char} (h : Nesting.balanced t = true) :
    readOption ('{' :: t ++ ['}']) =
      .ok (.table ((Nesting.split (· == ',') t).map fun part => (part, readField? part))) := by
  rw [readOption_eq_lateForm (by rw [endsWith_concat]; rfl) (endsWith_brackets (by decide))
    (.inl rfl), lateForm,
    if_neg (by rw [Nesting.enclosesAll_of_head (by simp)]; decide),
    if_pos (Nesting.enclosesAll_enclosed rfl rfl rfl h), inner_enclosed]

theorem commas_cons_cons (a b : List Char) (items : List (List Char)) :
    commas (a :: b :: items) = a ++ ',' :: ' ' :: commas (b :: items) := by
  simp [commas, List.intercalate_cons_cons]

/-- The last of several items stands behind a blank. -/
theorem exists_commas_last (a b : List Char) (items : List (List Char)) :
    ∃ s last, (a :: b :: items).getLast? = some last ∧
      commas (a :: b :: items) = s ++ ' ' :: last := by
  induction items generalizing a b with
  | nil => exact ⟨a ++ [','], b, rfl, by simp [commas]⟩
  | cons c items ih =>
      obtain ⟨s, last, hlast, hs⟩ := ih b c
      refine ⟨a ++ ',' :: ' ' :: s, last, by simpa using hlast, ?_⟩
      rw [commas_cons_cons, hs]
      simp

/-- Items with commas between them, unless the text is taken for another form. -/
theorem readOption_tuple {items : List (List Char)} (hlen : 2 ≤ items.length)
    (h : ∀ i ∈ items, Nesting.Item (· == ',') i) (hmark : endsWith (commas items) ['?'] = false)
    (hbrackets : endsWith (commas items) ['[', ']'] = false)
    (hhead : (commas items).head? ≠ some '{') (hfun : isFunction (commas items) = false) :
    readOption (commas items) = .ok (.tuple items) := by
  have hsplit : Nesting.split (· == ',') (commas items) = items :=
    Nesting.split_intercalate (by decide) (by decide) allBlank_space h
  have hcomma : (commas items).contains ',' = true := by
    obtain ⟨a, b, rest, rfl⟩ := exists_cons_cons hlen
    rw [commas, List.intercalate_cons_cons]
    simp
  have htests : ((commas items).contains ',' && (commas items).head? != some '{' &&
      !isFunction (commas items) && !endsWith (commas items) ['[', ']'] &&
      decide (1 < (Nesting.split (· == ',') (commas items)).length)) = true := by
    simp only [Bool.and_eq_true, bne_iff_ne, Bool.not_eq_true', decide_eq_true_eq, hsplit]
    exact ⟨⟨⟨⟨hcomma, hhead⟩, hfun⟩, hbrackets⟩, hlen⟩
  rw [readOption, if_neg (by simp [hmark]), if_pos htests, hsplit]

/-! ### Function types -/

/-- The text of a function type, up to its result. -/
def header (inside : List Char) : List Char :=
  "fun(".toList ++ inside ++ [')']

theorem header_append (inside rest : List Char) :
    header inside ++ rest = ['f', 'u', 'n'] ++ '(' :: (inside ++ ')' :: rest) := by
  simp [header]

theorem isFunction_header (inside rest : List Char) : isFunction (header inside ++ rest) = true := by
  have hprefix : List.isPrefixOf? ['f', 'u', 'n'] (header inside ++ rest) =
      some ('(' :: (inside ++ ')' :: rest)) := by
    rw [List.isPrefixOf?_eq_some_iff_append_eq, header_append]
  have hopen : stripLeft ('(' :: (inside ++ ')' :: rest)) = '(' :: (inside ++ ')' :: rest) :=
    stripLeft_eq_self (by simp; decide)
  rw [isFunction, hprefix]
  simp [hopen]

/-- The parameters of a function type stand between the first parenthesis and its partner, the result
behind them. -/
theorem readFunction_partner {b inside : List Char} (hb : AllBlank b)
    (h : Nesting.balanced inside = true) (behind : List Char) :
    readFunction ('f' :: 'u' :: 'n' :: (b ++ '(' :: (inside ++ ')' :: behind))) =
      match strip behind with
      | [] => .ok (.function ((Nesting.split (· == ',') inside).map readParam) none)
      | ':' :: t => .ok (.function ((Nesting.split (· == ',') inside).map readParam) (some t))
      | _ => .error (.header
          (String.ofList ('f' :: 'u' :: 'n' :: (b ++ '(' :: (inside ++ ')' :: behind))))) := by
  have hword : ¬ ('f' :: 'u' :: 'n' :: (b ++ '(' :: (inside ++ ')' :: behind)) ==
      "function".toList) = true := by
    rw [beq_iff_eq]
    intro heq
    have hopen : '(' ∈ "function".toList := by
      rw [← heq]
      simp
    exact absurd hopen (by decide)
  have hclose := Nesting.closingIndex?_enclosed (o := '(') (k := ')') rfl rfl h
    ('f' :: 'u' :: 'n' :: b) behind
  have hinside := Nesting.drop_take_partner ('f' :: 'u' :: 'n' :: b) inside behind '(' ')'
  have hbehind := Nesting.drop_partner ('f' :: 'u' :: 'n' :: b) inside behind '(' ')'
  rw [List.cons_append, List.cons_append, List.cons_append] at hclose hinside hbehind
  have hread := readFunction.eq_def ('f' :: 'u' :: 'n' :: (b ++ '(' :: (inside ++ ')' :: behind)))
  rw [if_neg hword, takeWhile_function hb] at hread
  simp only [hclose, hinside, hbehind] at hread
  exact hread

/-- The parts of a function type. -/
theorem readFunction_header {inside : List Char} (h : Nesting.balanced inside = true)
    {rest : List Char} {result : Option (List Char)}
    (hresult : strip rest = [] ∧ result = none ∨ ∃ t, strip rest = ':' :: t ∧ result = some t) :
    readFunction (header inside ++ rest) =
      .ok (.function ((Nesting.split (· == ',') inside).map readParam) result) := by
  rw [header_append]
  refine (readFunction_partner allBlank_nil h rest).trans ?_
  rcases hresult with ⟨hrest, rfl⟩ | ⟨t, hrest, rfl⟩
  · simp only [hrest]
  · simp only [hrest]

/-- A function type is an item as far as its result is one. -/
theorem item_header {sep : Char → Bool} {inside : List Char} (h : Nesting.balanced inside = true)
    (hsep : ∀ c ∈ ['f', 'u', 'n', '(', ')'], sep c = false) : Nesting.Item sep (header inside) := by
  have hword : Nesting.Item sep ['f', 'u', 'n'] :=
    Nesting.item_of_forall (by simp) fun c hc =>
      ⟨by revert c; decide, by revert c; decide, hsep c (by revert c; decide)⟩
  have hparens : Nesting.Item sep ('(' :: inside ++ [')']) :=
    Nesting.item_enclosed rfl (hsep '(' (by simp)) (hsep ')' (by simp)) h
  exact hword.append hparens

/-- A function type that does not end in a question mark or square brackets. -/
theorem readOption_function {inside rest : List Char}
    (hmark : endsWith (header inside ++ rest) ['?'] = false)
    (hbrackets : endsWith (header inside ++ rest) ['[', ']'] = false) :
    readOption (header inside ++ rest) = readFunction (header inside ++ rest) := by
  have hfun := isFunction_header inside rest
  have hhead : (header inside ++ rest).head? = some 'f' := rfl
  rw [readOption_eq_lateForm hmark hbrackets (.inr (.inl hfun)), lateForm,
    if_neg (by rw [Nesting.enclosesAll_of_head (by simp [hhead])]; decide),
    if_neg (by rw [Nesting.enclosesAll_of_head (by simp [hhead])]; decide), if_pos hfun]

/-! ### Names and names with arguments -/

/-- A dotted name in front of something is no function type. -/
theorem isFunction_dotted {base rest : List Char} (hbase : ∀ c ∈ base, isDottedPart c = true)
    (hrest : ∀ c ∈ rest.head?, isDottedPart c = false ∧ isBlank c = false ∧ c ≠ '(')
    (hword : base ++ rest ≠ "function".toList) : isFunction (base ++ rest) = false := by
  have hhead : ∀ {c : Char} {s : List Char}, (∀ d ∈ s, isDottedPart d = true) →
      c ∈ (s ++ rest).head? → isBlank c = false ∧ c ≠ '(' := by
    intro c s hs hc
    cases s with
    | nil => exact (hrest c hc).2
    | cons d s =>
        obtain rfl : d = c := by simpa using hc
        have hd := hs d List.mem_cons_self
        exact ⟨isBlank_eq_false_of_isDottedPart hd, ne_of_isDottedPart hd (by decide)⟩
  have hopen : ∀ {s : List Char}, (∀ d ∈ s, isDottedPart d = true) →
      ((stripLeft (s ++ rest)).head? == some '(') = false := by
    intro s hs
    rw [stripLeft_eq_self fun c hc => (hhead hs hc).1, beq_eq_false_iff_ne]
    intro h
    exact (hhead hs (Option.mem_def.2 h)).2 rfl
  rw [isFunction, beq_eq_false_iff_ne.2 hword, Bool.false_or]
  split
  · next tail htail =>
    have heq := List.isPrefixOf?_eq_some_iff_append_eq.1 htail
    -- the three letters of the word lie inside the name
    rcases List.append_eq_append_iff.1 heq with ⟨mid, hmid, rfl⟩ | ⟨mid, hmid, rfl⟩
    · exact hopen fun d hd => hbase d (by rw [hmid]; exact List.mem_append_right _ hd)
    · have hnil : mid = [] := by
        cases mid with
        | nil => rfl
        | cons d mid =>
            have hd : d ∈ ['f', 'u', 'n'] := by rw [hmid]; simp
            have h := (hrest d (by simp)).1
            simp only [List.mem_cons, List.not_mem_nil, or_false] at hd
            rcases hd with rfl | rfl | rfl <;> exact absurd h (by decide)
      subst hnil
      exact hopen (s := []) (by simp)
  · rfl

/-- The name in front of an angle bracket. -/
theorem takeBase?_of_dotted {base rest : List Char} (h : IsDotted base) :
    takeBase? (base ++ '<' :: rest) = some (base, rest) := by
  have htake : (base ++ '<' :: rest).takeWhile isDottedPart = base := by
    rw [List.takeWhile_append_of_pos h.2, List.takeWhile_cons_of_neg (by decide), List.append_nil]
  have hdrop : (base ++ '<' :: rest).dropWhile isDottedPart = '<' :: rest := by
    rw [List.dropWhile_append_of_pos h.2, List.dropWhile_cons_of_neg (by decide)]
  rw [takeBase?, htake, hdrop, stripLeft_eq_self (by simp; decide)]
  obtain ⟨c, s, rfl⟩ := List.exists_cons_of_ne_nil h.1
  rfl

/-- A dotted name with arguments. -/
theorem readOption_generic {base args : List Char} (h : IsDotted base)
    (hargs : Nesting.balanced args = true) (hne : Nesting.split (· == ',') args ≠ []) :
    readOption (base ++ '<' :: args ++ ['>']) =
      .ok (.generic base (Nesting.split (· == ',') args)) := by
  have htext : base ++ '<' :: args ++ ['>'] = base ++ ('<' :: args ++ ['>']) := by
    rw [List.append_assoc]
  have hitem : Nesting.Item (· == ',') (base ++ '<' :: args ++ ['>']) := by
    rw [htext]
    exact (h.item (beq_eq_false_of_isDottedPart (by decide))).append
      (Nesting.item_enclosed rfl rfl rfl hargs)
  have hhead : ∀ c, isDottedPart c = false → ∀ d ∈ (base ++ '<' :: args ++ ['>']).head?,
      (d == c) = false := by
    intro c hc d hd
    obtain ⟨b, s, rfl⟩ := List.exists_cons_of_ne_nil h.1
    obtain rfl : b = d := by simpa using hd
    exact beq_eq_false_iff_ne.2 (ne_of_isDottedPart (h.2 b List.mem_cons_self) hc)
  have hfun : isFunction (base ++ '<' :: args ++ ['>']) = false := by
    rw [htext]
    refine isFunction_dotted h.2 (by simp; decide) ?_
    intro heq
    have hmem : '<' ∈ "function".toList := by rw [← heq]; simp
    exact absurd hmem (by decide)
  have hgeneric : readGeneric? (base ++ '<' :: args ++ ['>']) = some (base, args) := by
    have hclose := Nesting.closingIndex?_enclosed (o := '<') (k := '>') rfl rfl hargs base []
    have hlen : (base ++ '<' :: args ++ ['>']).length - (args ++ ['>']).length - 1 = base.length := by
      simp only [List.length_append, List.length_cons, List.length_nil]
      omega
    have hlast : (base ++ '<' :: args ++ ['>']).length - 1 = base.length + 1 + args.length := by
      simp only [List.length_append, List.length_cons, List.length_nil]
      omega
    have hend := endsWith_append (base ++ '<' :: args) ['>']
    rw [List.append_assoc, List.cons_append] at hlen hlast hend
    rw [readGeneric?, List.append_assoc, List.cons_append, takeBase?_of_dotted h]
    simp only [hlen, hlast, hclose, hend]
    rw [show dropEnd (args ++ ['>']) 1 = args from dropEnd_append args ['>']]
    simp
  rw [readOption_eq_lateForm (by rw [endsWith_concat]; rfl) (endsWith_brackets (by decide))
    (.inr (.inr (by rw [Nesting.split_of_item hitem]; rfl))), lateForm,
    if_neg (by rw [Nesting.enclosesAll_of_head (hhead '(' (by decide))]; decide),
    if_neg (by rw [Nesting.enclosesAll_of_head (hhead '{' (by decide))]; decide),
    if_neg (by rw [hfun]; decide), hgeneric]
  obtain ⟨a, rest, hsplit⟩ := List.exists_cons_of_ne_nil hne
  simp only [hsplit]

/-- A text without marks that is not the word for a function is a plain name. -/
theorem readOption_unmarked {s : List Char} (h : Unmarked s) (hword : s ≠ "function".toList) :
    readOption s = .ok (.plain s) := by
  have hend : ∀ (t : List Char) (d : Char), d ∉ s → endsWith s (t ++ [d]) = false := by
    intro t d hd
    rw [← Bool.not_eq_true]
    intro hs
    obtain ⟨u, hu, -⟩ := exists_of_endsWith hs
    exact hd (by rw [hu]; simp)
  have hhead : ∀ d, d ∉ s → ∀ c ∈ s.head?, (c == d) = false := by
    intro d hd c hc
    rw [beq_eq_false_iff_ne]
    rintro rfl
    exact hd (List.mem_of_mem_head? hc)
  have hbracket : ∀ d, ¬ Nesting.IsPlain d → d ∉ s := fun d hd hmem => hd (h.unmarked d hmem).1
  have hfun : isFunction s = false := by
    rw [← Bool.not_eq_true]
    intro hs
    obtain ⟨b, rest, -, rfl⟩ := exists_of_isFunction hs (beq_eq_false_iff_ne.2 hword)
    exact hbracket '(' (by decide) (by simp)
  have hgeneric : readGeneric? s = none := by
    have hbase : takeBase? s = none := by
      cases htake : takeBase? s with
      | none => rfl
      | some r =>
          obtain ⟨b, -, -, hs⟩ := takeBase?_eq_some htake
          exact absurd (by rw [hs]; simp) (hbracket '<' (by decide))
    rw [readGeneric?, hbase]
  rw [readOption_eq_lateForm (hend [] '?' fun hd => (h.unmarked _ hd).2.2.2.1 rfl)
    (hend ['['] ']' fun hd => (h.unmarked _ hd).2.2.2.2 rfl)
    (.inr (.inr (by rw [Nesting.split_of_item h.item_comma]; rfl))), lateForm,
    if_neg (by rw [Nesting.enclosesAll_of_head (hhead '(' (hbracket _ (by decide)))]; decide),
    if_neg (by rw [Nesting.enclosesAll_of_head (hhead '{' (hbracket _ (by decide)))]; decide),
    if_neg (by rw [hfun]; decide), hgeneric]

/-- A dotted name that is not the word for a function is a plain name. -/
theorem readOption_plain {s : List Char} (h : IsDotted s) (hword : s ≠ "function".toList) :
    readOption s = .ok (.plain s) :=
  readOption_unmarked h.unmarked hword

/-! ### Parameters -/

theorem readRest?_of_head {s : List Char} (h : s.head? ≠ some '.') : readRest? s = none := by
  have hprefix : List.isPrefixOf? ['.', '.', '.'] s = none := by
    cases s with
    | nil => rfl
    | cons c s =>
        have hc : ('.' == c) = false := by
          rw [beq_eq_false_iff_ne]
          rintro rfl
          exact h rfl
        simp [List.isPrefixOf?, hc]
  rw [readRest?, hprefix]

/-- The name in front of a character that no name has. -/
theorem takeName?_of_isParamName {name : List Char} (h : IsParamName name) {rest : List Char}
    (hrest : ∀ c ∈ rest.head?, isNamePart c = false ∧ c ≠ '?') :
    takeName? (name ++ rest) = some (name, rest) := by
  obtain ⟨c, s, mark, rfl, hc, hs, hmark⟩ := h
  have hstop : ∀ d ∈ (mark ++ rest).head?, isNamePart d = false := by
    intro d hd
    rcases hmark with rfl | rfl
    · exact (hrest d hd).1
    · obtain rfl : '?' = d := by simpa using hd
      decide
  have htake : (s ++ (mark ++ rest)).takeWhile isNamePart = s := by
    rw [List.takeWhile_append_of_pos hs]
    cases hm : mark ++ rest with
    | nil => simp
    | cons d r => rw [List.takeWhile_cons_of_neg (by simp [hstop d (by simp [hm])]), List.append_nil]
  have hdrop : (s ++ (mark ++ rest)).dropWhile isNamePart = mark ++ rest := by
    rw [List.dropWhile_append_of_pos hs]
    cases hm : mark ++ rest with
    | nil => rfl
    | cons d r => rw [List.dropWhile_cons_of_neg (by simp [hstop d (by simp [hm])])]
  rw [List.cons_append, List.cons_append, List.append_assoc, takeName?, if_pos hc]
  simp only [htake, hdrop]
  rcases hmark with rfl | rfl
  · rw [List.nil_append, List.append_nil]
    split
    · next r => exact absurd rfl (hrest '?' (by simp)).2
    · rfl
  · rfl

/-- A parameter with a name and a type. -/
theorem readParam_named {name rest t : List Char} (h : IsParamName name)
    (ht : afterColon? rest = some t) (hrest : rest.head? = some ':') :
    readParam (name ++ rest) = (.named (String.ofList name), some t) := by
  have hhead : (name ++ rest).head? ≠ some '.' := by
    obtain ⟨c, s, mark, rfl, hc, -⟩ := h
    simp only [List.cons_append, List.head?_cons, ne_eq, Option.some.injEq]
    rintro rfl
    exact absurd hc (by decide)
  have hname : takeName? (name ++ rest) = some (name, rest) :=
    takeName?_of_isParamName h (by rw [hrest]; simp; decide)
  obtain ⟨c, r, rfl⟩ : ∃ c r, rest = c :: r := by
    cases rest with
    | nil => simp at hrest
    | cons c r => exact ⟨c, r, rfl⟩
  rw [readParam, readRest?_of_head hhead, hname]
  simp only [ht]

end Shape

/-- A text without marks stands for a plain name. -/
theorem parse_unmarked {s : List Char} (h : Unmarked s) (hword : s ≠ "function".toList) :
    parse s = .ok (canonical s) := by
  have hread : Shape.read s = .ok (.plain s) := by
    rw [Shape.read_of_item h.item_bar, Shape.readOption_unmarked h hword]
  exact parse_of_read hread

/-- Parentheses around a balanced text do not count. -/
theorem parse_enclosed {s : List Char} (h : Nesting.balanced s = true) :
    parse ('(' :: s ++ [')']) = parse s := by
  have hread : Shape.read ('(' :: s ++ [')']) = .ok (.group s) := by
    rw [Shape.read_of_item (Nesting.item_enclosed rfl rfl rfl h), Shape.readOption_group h]
  exact parse_of_read hread

end LuaAmbient.DocType
