/-
**Reading never cuts through a bracket.**

A text is read by taking it apart and reading the parts.  Suffixes without brackets are dropped,
brackets are taken off together with their partners, and all other cuts are made at depth zero.  So
the parts of a balanced text are balanced, as long as no brace stands in it: the key of a table field
ends at a square bracket, whatever stands around it.  The complaint about brackets that do not pair is
then never made, at whatever depth the reader has arrived.

Main definitions:

* `LuaAmbient.DocType.Reaches` — the texts that are read on the way.

Main results:

* `LuaAmbient.DocType.Shape.exists_header`,
  `LuaAmbient.DocType.Shape.closingIndex?_function_ne_none` — the parentheses of a function type;
* `LuaAmbient.DocType.Shape.balanced_of_mem_components` — the components of a balanced text are
  balanced;
* `LuaAmbient.DocType.parse_ne_unterminated` — **brackets that pair are found to do so**;
* `LuaAmbient.DocType.keeps_brackets_paired` — **every text that is read on the way is balanced**.
-/

import LuaAmbient.Proofs.DocType.Forms
import LuaAmbient.Proofs.DocType.Names
import LuaAmbient.Proofs.Nesting.Cuts

set_option relaxedAutoImplicit false
set_option autoImplicit false

namespace LuaAmbient.DocType

open LuaAmbient.Text

namespace Shape

/-! ### Parts of parts -/

theorem balanced_of_afterColon? {s v : List Char} (h : afterColon? s = some v)
    (hs : Nesting.balanced s = true) : Nesting.balanced v = true := by
  obtain ⟨b, b', hb, hb', rfl, -⟩ := afterColon?_eq_some_iff.1 h
  have hcolon : Nesting.balanced [':'] = true := by decide
  rw [← List.singleton_append] at hs
  rwa [Nesting.balanced_append_left fun c hc => Nesting.isPlain_of_isBlank (hb c hc),
    Nesting.balanced_append_iff hcolon,
    Nesting.balanced_append_left fun c hc => Nesting.isPlain_of_isBlank (hb' c hc)] at hs

/-- The type of a parameter is balanced if the parameter is. -/
theorem balanced_of_readParam {s t : List Char} (h : (readParam s).2 = some t)
    (hs : Nesting.balanced s = true) : Nesting.balanced t = true := by
  rcases readParam_cases s with ⟨-, hread⟩ | ⟨rest, u, rfl, hu, hread⟩ | ⟨-, hread⟩ |
    ⟨name, rest, u, hname, rfl, hu, hread⟩ | hread
  · simp [hread] at h
  · rw [hread] at h
    obtain rfl := Option.some.inj h
    have hdots : Nesting.balanced ['.', '.', '.'] = true := by decide
    exact balanced_of_afterColon? hu ((Nesting.balanced_append_iff hdots).1 hs)
  · simp [hread] at h
  · rw [hread] at h
    obtain rfl := Option.some.inj h
    have hname' : Nesting.balanced name = true :=
      (@IsParamName.item name hname (fun _ => false) (fun _ _ => rfl) rfl).balanced
    exact balanced_of_afterColon? hu ((Nesting.balanced_append_iff hname').1 hs)
  · rw [hread] at h
    obtain rfl := Option.some.inj h
    exact hs

/-- The parentheses of a function type in a balanced text are partners. -/
theorem exists_header {s : List Char} (hf : isFunction s = true)
    (hs : (s == "function".toList) = false) (h : Nesting.balanced s = true) :
    ∃ b inside behind, AllBlank b ∧ s = 'f' :: 'u' :: 'n' :: (b ++ '(' :: (inside ++ ')' :: behind)) ∧
      Nesting.balanced inside = true ∧ Nesting.balanced behind = true := by
  obtain ⟨b, rest, hb, rfl⟩ := exists_of_isFunction hf hs
  obtain ⟨inside, behind, rfl, hinside, hbehind⟩ :=
    @Nesting.exists_partner ('f' :: 'u' :: 'n' :: b) rest '(' ')' rfl h
  have hword : Nesting.balanced ('f' :: 'u' :: 'n' :: b) = true :=
    Nesting.balanced_append (s := ['f', 'u', 'n']) (by decide)
      (Nesting.balanced_of_isPlain fun c hc => Nesting.isPlain_of_isBlank (hb c hc))
  exact ⟨b, inside, behind, hb, rfl, hinside, (Nesting.balanced_append_iff hword).1 hbehind⟩

/-- In a balanced text, the first parenthesis of a function type is closed. -/
theorem closingIndex?_function_ne_none {s : List Char} (hf : isFunction s = true)
    (hs : (s == "function".toList) = false) (h : Nesting.balanced s = true) :
    Nesting.closingIndex? s (s.takeWhile (· != '(')).length ≠ none := by
  obtain ⟨b, inside, behind, hb, rfl, hinside, -⟩ := exists_header hf hs h
  have hclose := Nesting.closingIndex?_enclosed (o := '(') (k := ')') rfl rfl hinside
    ('f' :: 'u' :: 'n' :: b) behind
  rw [List.cons_append, List.cons_append, List.cons_append] at hclose
  rw [takeWhile_function hb, hclose]
  simp

theorem balanced_of_readFunction {s : List Char} {shape : Shape} (hf : isFunction s = true)
    (h : readFunction s = .ok shape) (hs : Nesting.balanced s = true) :
    ∀ u ∈ shape.components, Nesting.balanced u = true := by
  cases hword : s == "function".toList with
  | true =>
      rw [readFunction, if_pos hword] at h
      obtain rfl := Except.ok.inj h
      simp [components]
  | false =>
      obtain ⟨b, inside, behind, hb, rfl, hinside, hbehind⟩ := exists_header hf hword hs
      have hparams : ∀ u ∈ ((Nesting.split (· == ',') inside).map readParam).filterMap (·.2),
          Nesting.balanced u = true := by
        intro u hu
        obtain ⟨p, hp, hu⟩ := List.mem_filterMap.1 hu
        obtain ⟨part, hpart, rfl⟩ := List.mem_map.1 hp
        exact balanced_of_readParam hu (Nesting.balanced_of_mem_split (by decide) hinside hpart)
      rw [← Nesting.balanced_strip] at hbehind
      rw [readFunction_partner hb hinside] at h
      split at h
      · obtain rfl := Except.ok.inj h
        simpa [components] using hparams
      · next t ht =>
        obtain rfl := Except.ok.inj h
        have hcolon : Nesting.balanced [':'] = true := by decide
        rw [ht, ← List.singleton_append] at hbehind
        have hresult := (Nesting.balanced_append_iff hcolon).1 hbehind
        simp only [components, Option.toList_some, List.singleton_append, List.forall_mem_cons]
        exact ⟨hresult, hparams⟩
      · simp at h

/-- The arguments of a name in a balanced text are balanced. -/
theorem balanced_of_readGeneric? {s base args : List Char} (h : readGeneric? s = some (base, args))
    (hs : Nesting.balanced s = true) : Nesting.balanced args = true := by
  rw [readGeneric?] at h
  split at h
  · next base' inside hbase =>
    obtain ⟨b, -, -, rfl⟩ := takeBase?_eq_some hbase
    simp only [Option.ite_none_right_eq_some, Bool.and_eq_true, beq_iff_eq, Option.some.injEq,
      Prod.mk.injEq] at h
    obtain ⟨⟨-, hclose⟩, rfl, rfl⟩ := h
    have hplace : (base' ++ b ++ '<' :: inside).length - inside.length - 1 = (base' ++ b).length := by
      simp only [List.length_append, List.length_cons]
      omega
    rw [hplace] at hclose
    obtain ⟨t, rfl, ht⟩ := Nesting.exists_of_closed_last (o := '<') (k := '>') rfl hs hclose
    rw [show dropEnd (t ++ ['>']) 1 = t from dropEnd_append t ['>']]
    exact ht
  · simp at h

/-! ### Components -/

/-- The components of a balanced text without bars at depth zero are balanced. -/
theorem balanced_of_readOption {s : List Char} {shape : Shape} (h : readOption s = .ok shape)
    (hs : Nesting.balanced s = true) (hbrace : '{' ∉ s) :
    ∀ u ∈ shape.components, Nesting.balanced u = true := by
  have hsuffix : ∀ {t mark : List Char}, s = t ++ mark → (∀ c ∈ mark, Nesting.IsPlain c) →
      Nesting.balanced t = true := by
    rintro t mark rfl hmark
    rwa [Nesting.balanced_append_right t hmark] at hs
  rw [readOption] at h
  split at h
  · next hend =>
    obtain ⟨t, ht, hdrop⟩ := exists_of_endsWith hend
    obtain rfl := Except.ok.inj h
    rw [show dropEnd s 1 = t from hdrop]
    simpa [components] using hsuffix ht (by decide)
  split at h
  · obtain rfl := Except.ok.inj h
    exact fun u hu => Nesting.balanced_of_mem_split (by decide) hs hu
  split at h
  · next hend =>
    obtain ⟨t, ht, hdrop⟩ := exists_of_endsWith hend
    obtain rfl := Except.ok.inj h
    rw [show dropEnd s 2 = t from hdrop]
    simpa [components] using hsuffix ht (by decide)
  split at h
  · next hall =>
    obtain ⟨t, rfl, ht⟩ := (Nesting.enclosesAll_iff hs rfl).1 hall
    obtain rfl := Except.ok.inj h
    rw [inner_enclosed]
    simpa [components] using ht
  split at h
  · next hall =>
    obtain ⟨o, t, k, rfl, ho, -⟩ := Nesting.exists_of_enclosesAll hall
    obtain rfl := beq_iff_eq.1 ho
    exact absurd (by simp) hbrace
  split at h
  · next hf => exact balanced_of_readFunction hf h hs
  split at h
  · next base args hgeneric =>
    have hargs := balanced_of_readGeneric? hgeneric hs
    split at h
    · simp at h
    · obtain rfl := Except.ok.inj h
      exact fun u hu => Nesting.balanced_of_mem_split (by decide) hargs hu
  · obtain rfl := Except.ok.inj h
    simp [components]

/-- **The components of a text without braces that can be taken apart are balanced.** -/
theorem balanced_of_mem_components {text : List Char} {shape : Shape} (h : read text = .ok shape)
    (hbrace : '{' ∉ text) : ∀ u ∈ shape.components, Nesting.balanced u = true := by
  obtain ⟨hbal, hcases⟩ := read_options h
  rw [← Nesting.balanced_strip] at hbal
  rcases hcases with ⟨rfl, -⟩ | ⟨s, hs, hread⟩
  · exact fun u hu => Nesting.balanced_of_mem_split (by decide) hbal hu
  · have hmem : s ∈ Nesting.split (· == '|') (strip text) := hs ▸ List.mem_singleton_self s
    refine balanced_of_readOption hread (Nesting.balanced_of_mem_split (by decide) hbal hmem) ?_
    exact fun hmem' => hbrace (mem_of_mem_strip ((Nesting.infix_of_mem_split hmem).subset hmem'))

/-! ### Faults -/

theorem readFunction_ne_unterminated (s : List Char) (v : String) :
    readFunction s ≠ .error (.unterminated v) := by
  rw [readFunction]
  split
  · simp
  · simp only
    split
    · simp
    · split <;> simp

/-- Only a whole text is complained of for its brackets. -/
theorem readOption_ne_unterminated (s : List Char) (v : String) :
    readOption s ≠ .error (.unterminated v) := by
  rw [readOption]
  split
  · simp
  split
  · simp
  split
  · simp
  split
  · simp
  split
  · simp
  split
  · exact readFunction_ne_unterminated s v
  split
  · split <;> simp
  · simp

/-- Brackets that do not pair are complained of exactly if the text is not balanced. -/
theorem read_eq_unterminated_iff {text : List Char} {v : String} :
    read text = .error (.unterminated v) ↔
      Nesting.balanced text = false ∧ String.ofList (strip text) = v := by
  rw [← Nesting.balanced_strip, read]
  constructor
  · intro h
    split at h
    · simp at h
    split at h
    · next hbal => exact ⟨by simpa using hbal, by simpa using h⟩
    split at h
    · simp at h
    · exact absurd h (readOption_ne_unterminated _ _)
    · simp at h
  · rintro ⟨hbal, rfl⟩
    have hne : ¬ (strip text).isEmpty = true := by
      rw [List.isEmpty_iff]
      intro hnil
      rw [hnil] at hbal
      exact absurd hbal (by decide)
    simp only [if_neg hne, hbal]
    rfl

theorem readOr_eq_error {parse : List Char → Except Fault DocType} {default : DocType}
    {o : Option (List Char)} {e : Fault} (h : readOr parse default o = .error e) :
    ∃ t ∈ o, parse t = .error e := by
  cases o with
  | none => simp [readOr] at h
  | some t => exact ⟨t, rfl, h⟩

theorem readEntry_eq_error {parse : List Char → Except Fault DocType}
    {e : List Char × Option (List Char × List Char)} {fault : Fault}
    (h : readEntry parse e = .error fault) :
    (∃ p ∈ e.2, parse p.1 = .error fault ∨ parse p.2 = .error fault) ∨
      fault = .field (String.ofList e.1) := by
  rw [readEntry] at h
  split at h
  · next k v hkv =>
    refine .inl ⟨(k, v), hkv, ?_⟩
    rcases bind_eq_error h with hk | ⟨key, -, h⟩
    · exact .inl hk
    · exact .inr (eq_error_of_bind_pure h)
  · exact .inr (Except.error.inj h).symm

/-- A form is put together unless a component is faulty, or an entry of a table is no field. -/
theorem exists_of_build_eq_error {parse : List Char → Except Fault DocType} {shape : Shape}
    {e : Fault} (h : build parse shape = .error e) :
    (∃ t ∈ shape.components, parse t = .error e) ∨ ∃ text, e = .field text := by
  cases shape with
  | plain => simp [build] at h
  | optional t => exact .inl ⟨t, List.mem_singleton_self t, eq_error_of_bind_pure h⟩
  | generic base ts => exact .inl (exists_of_mapM_eq_error (eq_error_of_bind_pure h))
  | union ts => exact .inl (exists_of_mapM_eq_error (eq_error_of_bind_pure h))
  | array t => exact .inl ⟨t, List.mem_singleton_self t, eq_error_of_bind_pure h⟩
  | tuple ts => exact .inl (exists_of_mapM_eq_error (eq_error_of_bind_pure h))
  | group t => exact .inl ⟨t, List.mem_singleton_self t, h⟩
  | function params result =>
      rw [build_function] at h
      rcases bind_eq_error h with hr | ⟨r, -, h⟩
      · obtain ⟨t, ht, hparse⟩ := readOr_eq_error hr
        exact .inl ⟨t, List.mem_append_left _ (Option.mem_toList.2 ht), hparse⟩
      · obtain ⟨p, hp, hparam⟩ := exists_of_mapM_eq_error (eq_error_of_bind_pure h)
        obtain ⟨t, ht, hparse⟩ := readOr_eq_error (eq_error_of_bind_pure hparam)
        exact .inl ⟨t, List.mem_append_right _ (List.mem_filterMap.2 ⟨p, hp, ht⟩), hparse⟩
  | table entries =>
      rw [build_table] at h
      obtain ⟨entry, hentry, h⟩ := exists_of_mapM_eq_error (eq_error_of_bind_pure h)
      rcases readEntry_eq_error h with ⟨p, hp, hparse⟩ | rfl
      · have hmem : ∀ t ∈ [p.1, p.2], t ∈ (Shape.table entries).components := fun t ht =>
          List.mem_flatMap.2 ⟨entry, hentry, by rwa [Option.mem_def.1 hp]⟩
        rcases hparse with hparse | hparse
        · exact .inl ⟨p.1, hmem _ (by simp), hparse⟩
        · exact .inl ⟨p.2, hmem _ (by simp), hparse⟩
      · exact .inr ⟨_, rfl⟩

end Shape

/-! ### The descent -/

/-- The texts that are read on the way: the text itself, and the components of the forms of such
texts. -/
inductive Reaches (text : List Char) : List Char → Prop where
  | start : Reaches text text
  | component {t u : List Char} {shape : Shape} : Reaches text t → Shape.read t = .ok shape →
      u ∈ shape.components → Reaches text u

/-- On the way from a balanced text without braces, all texts are of this kind. -/
theorem Reaches.balanced {text t : List Char} (h : Reaches text t)
    (hb : Nesting.balanced text = true) (hbrace : '{' ∉ text) :
    Nesting.balanced t = true ∧ '{' ∉ t := by
  induction h with
  | start => exact ⟨hb, hbrace⟩
  | component _ hread hu ih =>
      exact ⟨Shape.balanced_of_mem_components hread ih.2 _ hu, fun hmem =>
        ih.2 ((Shape.infix_of_mem_components hread _ hu).subset hmem)⟩

/-- **Brackets that pair are found to do so**, however far they are taken apart. -/
theorem parse_ne_unterminated {text : List Char} (hb : Nesting.balanced text = true)
    (hbrace : '{' ∉ text) (v : String) : parse text ≠ .error (.unterminated v) := by
  generalize hn : text.length = n
  induction n using Nat.strongRecOn generalizing text with
  | _ n ih =>
      intro h
      rw [parse_eq] at h
      rcases bind_eq_error h with hread | ⟨shape, hread, hbuild⟩
      · rw [(Shape.read_eq_unterminated_iff.1 hread).1] at hb
        exact absurd hb (by decide)
      · rcases Shape.exists_of_build_eq_error hbuild with ⟨u, hu, hparse⟩ | ⟨field, hfield⟩
        · have hlt := Shape.length_lt_of_mem_components hread u hu
          refine ih u.length (hn ▸ hlt) (Shape.balanced_of_mem_components hread hbrace u hu) ?_ rfl
            hparse
          exact fun hmem => hbrace ((Shape.infix_of_mem_components hread u hu).subset hmem)
        · simp at hfield

/-- **Every text that is read on the way is balanced**: from a balanced text without braces on, no text
is found to have brackets that do not pair, the parenthesis of a function type always has a partner,
and the components that are read next are balanced and shorter. -/
theorem keeps_brackets_paired {text : List Char} (hb : Nesting.balanced (strip text) = true)
    (hbrace : '{' ∉ text) :
    (∀ v, parse text ≠ .error (.unterminated v)) ∧
    ∀ t, Reaches text t →
      (∀ v, Shape.read t ≠ .error (.unterminated v)) ∧
      (∀ s ∈ Nesting.split (· == '|') (strip t), Shape.isFunction s = true → s ≠ "function".toList →
        Nesting.closingIndex? s (s.takeWhile (· != '(')).length ≠ none) ∧
      ∀ shape, Shape.read t = .ok shape → ∀ u ∈ shape.components,
        Nesting.balanced u = true ∧ u.length < t.length := by
  rw [Nesting.balanced_strip] at hb
  refine ⟨parse_ne_unterminated hb hbrace, fun t ht => ?_⟩
  obtain ⟨hbal, hbrace'⟩ := ht.balanced hb hbrace
  refine ⟨fun v hread => ?_, fun s hs hf hword => ?_, fun shape hread u hu => ?_⟩
  · rw [(Shape.read_eq_unterminated_iff.1 hread).1] at hbal
    exact absurd hbal (by decide)
  · have hs' : Nesting.balanced s = true :=
      Nesting.balanced_of_mem_split (by decide) (by rwa [Nesting.balanced_strip]) hs
    exact Shape.closingIndex?_function_ne_none hf (beq_eq_false_iff_ne.2 hword) hs'
  · exact ⟨Shape.balanced_of_mem_components hread hbrace' u hu,
      Shape.length_lt_of_mem_components hread u hu⟩

/-- The list that a function takes is read behind the function type, and what is in the list after it. -/
theorem keeps_brackets_paired_of_callback :
    Nesting.balanced (strip "fun(x: (a|b)[]): c<d>".toList) = true ∧
      '{' ∉ "fun(x: (a|b)[]): c<d>".toList ∧
      Reaches "fun(x: (a|b)[]): c<d>".toList "(a|b)[]".toList ∧
      Shape.read "(a|b)[]".toList = .ok (.array "(a|b)".toList) ∧
      Nesting.balanced "(a|b)".toList = true ∧ "(a|b)".toList.length < "(a|b)[]".toList.length := by
  have hb : Nesting.balanced (strip "fun(x: (a|b)[]): c<d>".toList) = true := by decide
  have hbrace : '{' ∉ "fun(x: (a|b)[]): c<d>".toList := by decide
  have hread : Shape.read "fun(x: (a|b)[]): c<d>".toList =
      .ok (.function [(.named "x", some "(a|b)[]".toList)] (some " c<d>".toList)) := by
    decide +kernel
  have hreach : Reaches "fun(x: (a|b)[]): c<d>".toList "(a|b)[]".toList :=
    .component .start hread (by simp [Shape.components])
  have hlist : Shape.read "(a|b)[]".toList = .ok (.array "(a|b)".toList) := by decide +kernel
  obtain ⟨-, hdescent⟩ := keeps_brackets_paired hb hbrace
  obtain ⟨hinside, hlt⟩ := (hdescent _ hreach).2.2 _ hlist "(a|b)".toList (by simp [Shape.components])
  exact ⟨hb, hbrace, hreach, hlist, hinside, hlt⟩

end LuaAmbient.DocType
