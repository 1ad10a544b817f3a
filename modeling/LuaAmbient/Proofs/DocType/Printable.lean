/-
**Types whose text can be read again, and what their texts look like.**

The text of a type does not always tell where its parts end: a union as the result of a function reads
as a union of functions, an unnamed parameter of a plain type reads as a name, and so on.  `Printable`
leaves such types out.  For the others, this module shows what the reader looks at: the text is
balanced and trimmed, it has bars and commas at the outermost level only if it is a union or a tuple,
its ends show whether it is optional or an array, and its first characters are those of a name or a
bracket.

Main definitions:

* `LuaAmbient.DocType.Occurs` — a type occurs in another;
* `LuaAmbient.DocType.Printable` — the types under consideration;
* `LuaAmbient.DocType.Leads`, `LuaAmbient.DocType.KeyFree` — how a text starts, and what stands behind
  its square brackets.

Main results:

* `LuaAmbient.DocType.Printable.item` — **the cuts in the text of a type**;
* `LuaAmbient.DocType.Printable.ends` — the end of the text;
* `LuaAmbient.DocType.Printable.leads` — its start;
* `LuaAmbient.DocType.Printable.keyFree` — **only a table has something that could end a key**.
-/

import Mathlib.Data.List.Chain
import LuaAmbient.Proofs.DocType.TableField

set_option relaxedAutoImplicit false
set_option autoImplicit false

namespace LuaAmbient.DocType

open LuaAmbient.Text

/-! ### Parts of types -/

def isUnion : DocType → Bool
  | .union _ => true
  | _ => false

def isOptional : DocType → Bool
  | .optional _ => true
  | _ => false

def isArray : DocType → Bool
  | .array _ => true
  | _ => false

/-- The types that a type is put together from. -/
def parts : DocType → List DocType
  | .plain _ => []
  | .optional t | .array t => [t]
  | .generic _ ts | .union ts | .tuple ts => ts
  | .function params result => params.map (·.2) ++ [result]
  | .table fields => fields.flatMap fun f => [f.1, f.2]

/-- The type `s` is `t` or occurs in a part of it. -/
inductive Occurs (s : DocType) : DocType → Prop
  | refl : Occurs s s
  | part {t u : DocType} : u ∈ parts t → Occurs s u → Occurs s t

theorem occurs_iff {s t : DocType} : Occurs s t ↔ s = t ∨ ∃ u ∈ parts t, Occurs s u := by
  constructor
  · intro h
    cases h with
    | refl => exact .inl rfl
    | part hu h => exact .inr ⟨_, hu, h⟩
  · rintro (rfl | ⟨u, hu, h⟩)
    · exact .refl
    · exact .part hu h

/-! ### Names -/

/-- A letter, a digit, an underscore or a dollar sign of ASCII. -/
def isAsciiPart (c : Char) : Bool :=
  c.isAlphanum || c == '_' || c == '$'

/-- The name of a type: a letter, an underscore or a dollar sign, then such characters, digits and
dots. -/
def IsTypeName (s : List Char) : Prop :=
  ∃ c name, s = c :: name ∧ isNameStart c = true ∧ ∀ d ∈ name, isAsciiPart d = true ∨ d = '.'

/-- The name of a parameter, in ASCII. -/
def IsAsciiLabel (s : List Char) : Prop :=
  ∃ c name mark, s = c :: name ++ mark ∧ isNameStart c = true ∧
    (∀ d ∈ name, isAsciiPart d = true) ∧ (mark = [] ∨ mark = ['?'])

/-- The names that stand for something else. -/
def replacedNames : List String :=
  ["integer", "int", "float", "nil", "table", "userdata", "lightuserdata", "function"]

theorem isNamePart_of_isAsciiPart {c : Char} (h : isAsciiPart c = true) : isNamePart c = true := by
  simp only [isAsciiPart, Bool.or_eq_true, beq_iff_eq] at h
  rcases h with (h | rfl) | rfl
  · rw [isNamePart, isWord_of_isAlphanum h, Bool.true_or]
  · rfl
  · rfl

theorem IsTypeName.isDotted {s : List Char} (h : IsTypeName s) : IsDotted s := by
  obtain ⟨c, name, rfl, hc, hname⟩ := h
  refine ⟨by simp, fun d hd => ?_⟩
  rcases List.mem_cons.1 hd with rfl | hd
  · exact isDottedPart_of_isNamePart (isNamePart_of_isNameStart hc)
  · rcases hname d hd with hd | rfl
    · exact isDottedPart_of_isNamePart (isNamePart_of_isAsciiPart hd)
    · decide

theorem IsAsciiLabel.isParamName {s : List Char} (h : IsAsciiLabel s) : IsParamName s := by
  obtain ⟨c, name, mark, rfl, hc, hname, hmark⟩ := h
  exact ⟨c, name, mark, rfl, hc, fun d hd => isNamePart_of_isAsciiPart (hname d hd), hmark⟩

/-! ### Printable types -/

/-- How a parameter may be labelled.  Without a label, a name without dots would be taken for one. -/
def Labelled : Label × DocType → Prop
  | (.rest, _) => True
  | (.named name, _) => IsAsciiLabel name.toList
  | (.unnamed, t) => ∀ name, t = .plain name ∨ t = .optional (.plain name) → '.' ∈ name.toList

/-- A type whose text can be read again.  The first argument tells whether a tuple may stand here. -/
inductive Printable : Bool → DocType → Prop
  | plain {b : Bool} {name : String} (hname : IsTypeName name.toList) (hkeep : name ∉ replacedNames) :
      Printable b (.plain name)
  | optional {b : Bool} {t : DocType} (ht : Printable false t) : Printable b (.optional t)
  | generic {b : Bool} {base : String} {args : List DocType} (hbase : IsTypeName base.toList)
      (hopen : base ∉ ["table", "userdata", "lightuserdata"]) (hlen : 1 ≤ args.length)
      (hargs : ∀ t ∈ args, Printable false t) : Printable b (.generic base args)
  | union {b : Bool} {options : List DocType} (hlen : 2 ≤ options.length)
      (hoptions : ∀ t ∈ options, Printable false t) (hflat : ∀ t ∈ options, t.isUnion = false) :
      Printable b (.union options)
  | function {b : Bool} {params : List (Label × DocType)} {result : DocType}
      (hparams : ∀ p ∈ params, Printable false p.2) (hlabels : ∀ p ∈ params, Labelled p)
      (hresult : Printable false result) (hunion : result.isUnion = false)
      (hoptional : result.isOptional = false) (harray : result.isArray = false) :
      Printable b (.function params result)
  | table {b : Bool} {fields : List (DocType × DocType)} (hkeys : ∀ f ∈ fields, Printable false f.1)
      (hvalues : ∀ f ∈ fields, Printable false f.2)
      (hflat : ∀ f ∈ fields, ∀ gs, Occurs (.table gs) f.2 → gs = []) : Printable b (.table fields)
  | array {b : Bool} {t : DocType} (ht : Printable true t) : Printable b (.array t)
  | tuple {elements : List DocType} (hlen : 2 ≤ elements.length)
      (helements : ∀ t ∈ elements, Printable false t) (hflat : ∀ t ∈ elements, t.isUnion = false)
      (hfirst : ∀ t ∈ elements.head?, ¬ ['{'] <+: t.print ∧ ¬ "fun(".toList <+: t.print) :
      Printable true (.tuple elements)

/-! ### Texts of lists -/

theorem printList_eq (ts : List DocType) : printList ts = ts.map print := by
  induction ts with
  | nil => rfl
  | cons t ts ih => rw [printList, ih, List.map_cons]

/-- The text of a parameter. -/
def printParam (p : Label × DocType) : List Char :=
  match p.1 with
  | .rest => if p.2 = any then "...".toList else "...: ".toList ++ print p.2
  | .named name => name.toList ++ ':' :: ' ' :: print p.2
  | .unnamed => print p.2

theorem printParams_eq (ps : List (Label × DocType)) : printParams ps = ps.map printParam := by
  induction ps with
  | nil => rfl
  | cons p ps ih =>
      obtain ⟨label, t⟩ := p
      cases label <;> rw [printParams, ih] <;> rfl

/-- The text of a table field. -/
def printField (f : DocType × DocType) : List Char :=
  '[' :: (print f.1 ++ ']' :: ':' :: ' ' :: print f.2)

theorem printFields_eq (fs : List (DocType × DocType)) : printFields fs = fs.map printField := by
  induction fs with
  | nil => rfl
  | cons f fs ih =>
      rw [printFields, ih, List.map_cons, printField]
      simp

/-- The text of a function type. -/
theorem print_function (params : List (Label × DocType)) (result : DocType) :
    print (.function params result) = Shape.header (commas (params.map printParam)) ++
      if result = void then [] else ':' :: ' ' :: print result := by
  rw [print, printParams_eq, Shape.header]

/-! ### Cuts -/

/-- Whether the outermost form of a type cuts its text at a character. -/
def cutsAt (c : Char) : DocType → Bool
  | .union _ => c == '|'
  | .tuple _ => c == ','
  | _ => false

theorem Printable.cutsAt_comma {t : DocType} (h : Printable false t) : cutsAt ',' t = false := by
  cases h <;> rfl

theorem cutsAt_bar {t : DocType} (h : t.isUnion = false) : cutsAt '|' t = false := by
  cases t <;> first | rfl | simp [isUnion] at h

theorem cutsAt_bar_or_comma (t : DocType) : cutsAt '|' t = false ∨ cutsAt ',' t = false := by
  cases t with
  | union => exact .inr rfl
  | _ => exact .inl rfl

/-- A text that is put in parentheses where it has cuts. -/
theorem item_group {s : List Char} {c : Char} (hc : c = '|' ∨ c = ',') {grouped : Bool}
    (hbal : Nesting.balanced s = true) (h : grouped = false → Nesting.Item (· == c) s) :
    Nesting.Item (· == c) (group grouped s) := by
  rw [group]
  split
  · refine Nesting.item_enclosed rfl ?_ ?_ hbal
    · rcases hc with rfl | rfl <;> rfl
    · rcases hc with rfl | rfl <;> rfl
  · next hno => exact h (by simpa using hno)

theorem item_mark {c : Char} (hc : c = '|' ∨ c = ',') :
    Nesting.Item (· == c) ['?'] ∧ Nesting.Item (· == c) ['[', ']'] := by
  rcases hc with rfl | rfl
  · exact ⟨Nesting.item_of_forall (by simp) (by decide), Nesting.item_of_forall (by simp) (by decide)⟩
  · exact ⟨Nesting.item_of_forall (by simp) (by decide), Nesting.item_of_forall (by simp) (by decide)⟩

/-- The text of a parameter. -/
theorem item_printParam {p : Label × DocType} (h : Labelled p)
    (hp : Nesting.Item (· == ',') p.2.print) : Nesting.Item (· == ',') (printParam p) := by
  obtain ⟨label, t⟩ := p
  have hcolon : ∀ {s : List Char}, Nesting.Item (· == ',') s →
      Nesting.Item (· == ',') (s ++ ':' :: ' ' :: print t) := by
    intro s hs
    have hitem : Nesting.Item (· == ',') (s ++ [':', ' '] ++ print t) :=
      hs.around hp (by decide) (Nesting.uncutFrom_of_forall (by decide) 0)
    simpa using hitem
  cases label with
  | unnamed => exact hp
  | named name =>
      exact hcolon ((IsAsciiLabel.isParamName h).item (beq_eq_false_of_isDottedPart (by decide))
        (by decide))
  | rest =>
      have hdots : Nesting.Item (· == ',') ['.', '.', '.'] :=
        Nesting.item_of_forall (by simp) (by decide)
      by_cases ht : t = any
      · simpa [printParam, ht] using hdots
      · simpa [printParam, ht] using hcolon hdots

theorem balanced_printField {f : DocType × DocType} (hk : Nesting.balanced f.1.print = true)
    (hv : Nesting.balanced f.2.print = true) : Nesting.balanced (printField f) = true := by
  have hparts : Nesting.balanced (['['] ++ (print f.1 ++ ([']', ':', ' '] ++ print f.2))) = true :=
    Nesting.balanced_append (by decide)
      (Nesting.balanced_append hk (Nesting.balanced_append (by decide) hv))
  exact hparts

/-- Texts that are joined by what makes no cut. -/
theorem item_joined {c : Char} {m : List Char} (hm : Nesting.balanced m = true)
    (hcut : ∀ d ∈ m, (d == c) = false) {ts : List DocType} (hlen : 2 ≤ ts.length)
    (h : ∀ t ∈ ts, Nesting.Item (· == c) t.print) :
    Nesting.Item (· == c) (m.intercalate (ts.map print)) := by
  refine Nesting.item_intercalate hm (Nesting.uncutFrom_of_forall hcut 0) ?_ ?_
  · rw [ne_eq, List.map_eq_nil_iff]
    rintro rfl
    simp at hlen
  · rwa [List.forall_mem_map]

/-- **The cuts in the text of a type**: it is balanced and trimmed, and only a union has bars at the
outermost level, only a tuple commas. -/
theorem Printable.item {b : Bool} {t : DocType} (h : Printable b t) {c : Char}
    (hc : c = '|' ∨ c = ',') (hcut : cutsAt c t = false) : Nesting.Item (· == c) t.print := by
  induction h generalizing c with
  | plain hname =>
      rw [print]
      refine hname.isDotted.item (beq_eq_false_of_isDottedPart ?_)
      rcases hc with rfl | rfl <;> decide
  | @optional _ t ht ih =>
      rw [print]
      refine (item_group hc (ih (.inr rfl) ht.cutsAt_comma).balanced fun hgroup => ?_).append
        (item_mark hc).1
      rcases hc with rfl | rfl
      · refine ih (.inl rfl) (cutsAt_bar ?_)
        cases t <;> first | rfl | simp [groupsInOptional] at hgroup
      · exact ih (.inr rfl) ht.cutsAt_comma
  | @generic _ base args hbase hopen hlen hargs ih =>
      rw [print, printList_eq, List.append_assoc]
      have hinside : Nesting.balanced (commas (args.map print)) = true := by
        refine Nesting.balanced_intercalate (by decide) ?_
        rw [List.forall_mem_map]
        exact fun t ht => (ih t ht (.inr rfl) (hargs t ht).cutsAt_comma).balanced
      refine (hbase.isDotted.item (beq_eq_false_of_isDottedPart ?_)).append
        (Nesting.item_enclosed rfl ?_ ?_ hinside)
      · rcases hc with rfl | rfl <;> decide
      · rcases hc with rfl | rfl <;> rfl
      · rcases hc with rfl | rfl <;> rfl
  | @union _ options hlen hoptions hflat ih =>
      obtain rfl : c = ',' := by
        rcases hc with rfl | rfl
        · simp [cutsAt] at hcut
        · rfl
      rw [print, printList_eq]
      exact item_joined (by decide) (by decide) hlen fun t ht =>
        ih t ht (.inr rfl) (hoptions t ht).cutsAt_comma
  | @function _ params result hparams hlabels hresult hunion _ _ ihp ihr =>
      rw [print_function]
      have hinside : Nesting.balanced (commas (params.map printParam)) = true := by
        refine Nesting.balanced_intercalate (by decide) ?_
        rw [List.forall_mem_map]
        exact fun p hp => (item_printParam (hlabels p hp)
          (ihp p hp (.inr rfl) (hparams p hp).cutsAt_comma)).balanced
      have hheader : Nesting.Item (· == c) (Shape.header (commas (params.map printParam))) := by
        refine Shape.item_header hinside ?_
        rcases hc with rfl | rfl <;> decide
      split
      · rwa [List.append_nil]
      · have hres : Nesting.Item (· == c) (print result) := by
          rcases hc with rfl | rfl
          · exact ihr (.inl rfl) (cutsAt_bar hunion)
          · exact ihr (.inr rfl) hresult.cutsAt_comma
        have hitem : Nesting.Item (· == c) (Shape.header (commas (params.map printParam)) ++
            [':', ' '] ++ print result) := by
          refine hheader.around hres (by decide) (Nesting.uncutFrom_of_forall ?_ 0)
          rcases hc with rfl | rfl <;> decide
        simpa using hitem
  | @table _ fields hkeys hvalues hflat ihk ihv =>
      rw [print, printFields_eq]
      refine Nesting.item_enclosed rfl ?_ ?_ (Nesting.balanced_intercalate (by decide) ?_)
      · rcases hc with rfl | rfl <;> rfl
      · rcases hc with rfl | rfl <;> rfl
      · rw [List.forall_mem_map]
        intro f hf
        exact balanced_printField (ihk f hf (.inr rfl) (hkeys f hf).cutsAt_comma).balanced
          (ihv f hf (.inr rfl) (hvalues f hf).cutsAt_comma).balanced
  | @array _ t ht ih =>
      rw [print]
      have hbal : Nesting.balanced (print t) = true := by
        rcases cutsAt_bar_or_comma t with h | h
        · exact (ih (.inl rfl) h).balanced
        · exact (ih (.inr rfl) h).balanced
      refine (item_group hc hbal fun hgroup => ih hc ?_).append (item_mark hc).2
      cases t <;> first | rfl | simp [groupsInArray] at hgroup
  | @tuple elements hlen helements hflat hfirst ih =>
      obtain rfl : c = '|' := by
        rcases hc with rfl | rfl
        · rfl
        · simp [cutsAt] at hcut
      rw [print, printList_eq]
      exact item_joined (by decide) (by decide) hlen fun t ht =>
        ih t ht (.inl rfl) (cutsAt_bar (hflat t ht))

theorem Printable.balanced {b : Bool} {t : DocType} (h : Printable b t) :
    Nesting.balanced t.print = true := by
  rcases cutsAt_bar_or_comma t with ht | ht
  · exact (h.item (.inl rfl) ht).balanced
  · exact (h.item (.inr rfl) ht).balanced

theorem Printable.ne_nil {b : Bool} {t : DocType} (h : Printable b t) : t.print ≠ [] := by
  rcases cutsAt_bar_or_comma t with ht | ht
  · exact (h.item (.inl rfl) ht).ne_nil
  · exact (h.item (.inr rfl) ht).ne_nil

theorem Printable.trimmed {b : Bool} {t : DocType} (h : Printable b t) : Trimmed t.print := by
  rcases cutsAt_bar_or_comma t with ht | ht
  · exact (h.item (.inl rfl) ht).trimmed
  · exact (h.item (.inr rfl) ht).trimmed

/-! ### Line ends -/

theorem mem_intercalate {c : Char} {m : List Char} {items : List (List Char)}
    (h : c ∈ m.intercalate items) : c ∈ m ∨ ∃ i ∈ items, c ∈ i := by
  induction items with
  | nil => simp at h
  | cons i items ih =>
      cases items with
      | nil => exact .inr ⟨i, List.mem_cons_self, by simpa using h⟩
      | cons j items =>
          rw [List.intercalate_cons_cons, List.mem_append, List.mem_append] at h
          rcases h with (h | h) | h
          · exact .inr ⟨i, List.mem_cons_self, h⟩
          · exact .inl h
          · rcases ih h with hm | ⟨k, hk, hc⟩
            · exact .inl hm
            · exact .inr ⟨k, List.mem_cons_of_mem _ hk, hc⟩

theorem not_mem_commas {c : Char} (hc : c ∉ [',', ' ']) {items : List (List Char)}
    (h : ∀ i ∈ items, c ∉ i) : c ∉ commas items := by
  intro hm
  rcases mem_intercalate hm with hm | ⟨i, hi, hm⟩
  · exact hc hm
  · exact h i hi hm

theorem not_mem_group {c : Char} (hc : c ∉ ['(', ')']) {s : List Char} (h : c ∉ s)
    (grouped : Bool) : c ∉ group grouped s := by
  simp only [List.mem_cons, List.not_mem_nil, or_false, not_or] at hc
  rw [group]
  split
  · simp [h, hc.1, hc.2]
  · exact h

/-- A character that stands neither in names nor in the marks around parameters. -/
theorem not_mem_printParam {p : Label × DocType} (h : Labelled p) {d : Char}
    (hd : isDottedPart d = false) (hmark : d ∉ ['?', ':', ' ']) (hp : d ∉ p.2.print) :
    d ∉ printParam p := by
  obtain ⟨label, t⟩ := p
  have hdot : d ≠ '.' := by
    rintro rfl
    exact absurd hd (by decide)
  simp only [List.mem_cons, List.not_mem_nil, or_false, not_or] at hmark
  cases label with
  | unnamed => exact hp
  | named name =>
      have hname := (IsAsciiLabel.isParamName h).not_mem hd hmark.1
      simp only [printParam, List.mem_append, List.mem_cons, not_or]
      exact ⟨hname, hmark.2.1, hmark.2.2, hp⟩
  | rest =>
      by_cases ht : t = any
      · simp [printParam, ht, hdot]
      · simp [printParam, ht, hdot, hmark.2.1, hmark.2.2]
        exact hp

/-- The text of a type is a single line. -/
theorem Printable.unbroken {b : Bool} {t : DocType} (h : Printable b t) : '\n' ∉ t.print := by
  induction h with
  | plain hname =>
      rw [print]
      exact fun hm => ne_of_isDottedPart (hname.isDotted.2 _ hm) (by decide) rfl
  | optional _ ih =>
      rw [print]
      simpa using not_mem_group (by decide) ih _
  | generic hbase _ _ _ ih =>
      have hcommas := not_mem_commas (c := '\n') (by decide) (List.forall_mem_map.2 ih)
      have hname : '\n' ∉ _ := fun hm => ne_of_isDottedPart (hbase.isDotted.2 _ hm) (by decide) rfl
      rw [print, printList_eq]
      simp [hname, hcommas]
  | union _ _ _ ih =>
      rw [print, printList_eq]
      intro hm
      rcases mem_intercalate hm with hm | ⟨i, hi, hm⟩
      · exact absurd hm (by decide)
      · obtain ⟨t, ht, rfl⟩ := List.mem_map.1 hi
        exact ih t ht hm
  | @function _ params result _ hlabels _ _ _ _ ihp ihr =>
      have hcommas := not_mem_commas (c := '\n') (by decide) (List.forall_mem_map.2 fun p hp =>
        not_mem_printParam (hlabels p hp) (by decide) (by decide) (ihp p hp))
      rw [print_function, Shape.header]
      split
      · simp [hcommas]
      · simp [hcommas, ihr]
  | @table _ fields _ _ _ ihk ihv =>
      have hfields : ∀ f ∈ fields, '\n' ∉ printField f := by
        intro f hf
        simp [printField, ihk f hf, ihv f hf]
      have hcommas := not_mem_commas (by decide) (List.forall_mem_map.2 hfields)
      rw [print, printFields_eq]
      simp [hcommas]
  | array _ ih =>
      rw [print]
      simpa using not_mem_group (by decide) ih _
  | tuple _ _ _ _ ih =>
      rw [print, printList_eq]
      exact not_mem_commas (by decide) (List.forall_mem_map.2 ih)

/-! ### Square brackets in front of a colon -/

/-- No closing square bracket stands in front of a blank or a colon. -/
def KeyFree (s : List Char) : Prop :=
  s.IsChain fun c d => c = ']' → isBlank d = false ∧ d ≠ ':'

theorem keyFree_of_not_mem {s : List Char} (h : ']' ∉ s) : KeyFree s := by
  induction s with
  | nil => exact .nil
  | cons c s ih =>
      rw [KeyFree, List.isChain_cons]
      refine ⟨fun d _ hc => ?_, ih fun hm => h (List.mem_cons_of_mem _ hm)⟩
      exact absurd (hc ▸ List.mem_cons_self) h

theorem KeyFree.append {s t : List Char} (hs : KeyFree s) (ht : KeyFree t)
    (h : ∀ d ∈ t.head?, isBlank d = false ∧ d ≠ ':') : KeyFree (s ++ t) :=
  List.isChain_append.2 ⟨hs, ht, fun _ _ d hd _ => h d hd⟩

theorem KeyFree.append_left {s t : List Char} (hs : ']' ∉ s) (ht : KeyFree t) : KeyFree (s ++ t) :=
  List.isChain_append.2 ⟨keyFree_of_not_mem hs, ht, fun _ hc _ _ he =>
    absurd (he ▸ List.mem_of_mem_getLast? hc) hs⟩

theorem keyFree_intercalate {m : List Char} (hm : ']' ∉ m)
    (hhead : ∀ d ∈ m.head?, isBlank d = false ∧ d ≠ ':') {items : List (List Char)}
    (hne : m ≠ []) (h : ∀ i ∈ items, KeyFree i) : KeyFree (m.intercalate items) := by
  induction items with
  | nil => exact .nil
  | cons i items ih =>
      have hi := h i List.mem_cons_self
      cases items with
      | nil => rwa [List.intercalate_singleton]
      | cons j items =>
          rw [List.intercalate_cons_cons, List.append_assoc]
          refine hi.append (.append_left hm (ih fun x hx => h x (List.mem_cons_of_mem _ hx))) ?_
          obtain ⟨c, m, rfl⟩ := List.exists_cons_of_ne_nil hne
          simpa using hhead

theorem KeyFree.group {s : List Char} (h : KeyFree s) (grouped : Bool) :
    KeyFree (group grouped s) := by
  rw [DocType.group]
  split
  · exact .append (.append_left (s := ['(']) (by decide) h) (keyFree_of_not_mem (by decide))
      (by simp; decide)
  · exact h

theorem KeyFree.printParam {p : Label × DocType} (h : Labelled p) (hp : KeyFree p.2.print) :
    KeyFree (printParam p) := by
  obtain ⟨label, t⟩ := p
  cases label with
  | unnamed => exact hp
  | named name =>
      have hname : ']' ∉ name.toList ++ [':', ' '] := by
        have := (IsAsciiLabel.isParamName h).not_mem (d := ']') (by decide) (by decide)
        simpa using this
      have hparts := KeyFree.append_left hname hp
      simpa [DocType.printParam] using hparts
  | rest =>
      by_cases ht : t = any
      · have hdots : KeyFree "...".toList := keyFree_of_not_mem (by decide)
        simpa [DocType.printParam, ht] using hdots
      · have hparts : KeyFree ("...: ".toList ++ print t) := .append_left (by decide) hp
        simpa [DocType.printParam, ht] using hparts

/-- **Only a table has something that could end a key.** -/
theorem Printable.keyFree {b : Bool} {t : DocType} (h : Printable b t)
    (hempty : ∀ fields, Occurs (.table fields) t → fields = []) : KeyFree t.print := by
  induction h with
  | plain hname =>
      rw [print]
      exact keyFree_of_not_mem fun hm => ne_of_isDottedPart (hname.isDotted.2 _ hm) (by decide) rfl
  | optional _ ih =>
      have hinner := ih fun fields hf => hempty fields (.part (by simp [parts]) hf)
      rw [print]
      exact (hinner.group _).append (keyFree_of_not_mem (by decide)) (by simp; decide)
  | generic hbase _ _ _ ih =>
      have hargs := keyFree_intercalate (m := [',', ' ']) (by decide) (by simp; decide) (by simp)
        (List.forall_mem_map.2 fun t ht => ih t ht fun fields hf => hempty fields (.part ht hf))
      have hname : ']' ∉ _ := fun hm => ne_of_isDottedPart (hbase.isDotted.2 _ hm) (by decide) rfl
      rw [print, printList_eq, List.append_assoc]
      refine .append_left hname (.append (.append_left (s := ['<']) (by decide) hargs)
        (keyFree_of_not_mem (by decide)) (by simp; decide))
  | union _ _ _ ih =>
      rw [print, printList_eq]
      exact keyFree_intercalate (by decide) (by simp; decide) (by simp)
        (List.forall_mem_map.2 fun t ht => ih t ht fun fields hf => hempty fields (.part ht hf))
  | @function _ params result _ hlabels _ _ _ _ ihp ihr =>
      have hparams := keyFree_intercalate (m := [',', ' ']) (by decide) (by simp; decide) (by simp)
        (List.forall_mem_map.2 fun p hp => KeyFree.printParam (hlabels p hp) (ihp p hp
          fun fields hf => hempty fields (.part (by simp [parts]; exact .inl ⟨_, hp⟩) hf)))
      have hresult := ihr fun fields hf => hempty fields (.part (by simp [parts]) hf)
      rw [print_function, Shape.header, List.append_assoc, List.append_assoc]
      refine .append_left (by decide) (hparams.append ?_ (by simp; decide))
      split
      · exact keyFree_of_not_mem (by decide)
      · exact .append_left (s := [')', ':', ' ']) (by decide) hresult
  | @table _ fields _ _ _ _ _ =>
      obtain rfl := hempty fields .refl
      exact keyFree_of_not_mem (by decide)
  | array _ ih =>
      have hinner := ih fun fields hf => hempty fields (.part (by simp [parts]) hf)
      rw [print]
      exact (hinner.group _).append (by simp [KeyFree]) (by simp; decide)
  | tuple _ _ _ _ ih =>
      rw [print, printList_eq]
      exact keyFree_intercalate (by decide) (by simp; decide) (by simp)
        (List.forall_mem_map.2 fun t ht => ih t ht fun fields hf => hempty fields (.part ht hf))

/-- Nothing behind such brackets could end a key. -/
theorem KeyFree.holdsKeyEnd {s : List Char} (h : KeyFree s) : Shape.holdsKeyEnd s = false := by
  induction s with
  | nil => rfl
  | cons c s ih =>
      obtain ⟨hhead, hs⟩ := List.isChain_cons.1 h
      rw [Shape.holdsKeyEnd, ih hs, Bool.or_false, Bool.and_eq_false_iff]
      by_cases hc : c = ']'
      · right
        have hstrip : stripLeft s = s := stripLeft_eq_self fun d hd => (hhead d hd hc).1
        rw [Shape.afterColon?_eq_none]
        · rfl
        · rw [hstrip]
          intro hcolon
          exact (hhead ':' hcolon hc).2 rfl
      · left
        simpa using hc

/-! ### Ends -/

/-- The ends of the text of a type that is no union: a question mark behind an optional type, square
brackets behind an array. -/
theorem Printable.ends {t : DocType} (h : Printable false t) (hunion : t.isUnion = false) :
    endsWith t.print ['?'] = t.isOptional ∧ endsWith t.print ['[', ']'] = t.isArray := by
  generalize hb : false = b at h
  induction h with
  | @plain _ name hname _ =>
      have hend : ∀ (s : List Char) (d : Char), isDottedPart d = false →
          endsWith name.toList (s ++ [d]) = false := by
        intro s d hd
        rw [← Bool.not_eq_true]
        intro hs
        obtain ⟨u, hu, -⟩ := exists_of_endsWith hs
        exact ne_of_isDottedPart (hname.isDotted.2 d (by rw [hu]; simp)) hd rfl
      rw [print]
      exact ⟨hend [] '?' (by decide), hend ['['] ']' (by decide)⟩
  | optional _ _ =>
      rw [print]
      exact ⟨endsWith_append _ _, Shape.endsWith_brackets (by decide)⟩
  | generic _ _ _ _ _ =>
      rw [print]
      exact ⟨by rw [Shape.endsWith_concat]; rfl, Shape.endsWith_brackets (by decide)⟩
  | union _ _ _ _ => simp [isUnion] at hunion
  | @function _ params result _ _ _ hflat hoptional harray _ ih =>
      rw [print_function]
      split
      · rw [List.append_nil, Shape.header]
        exact ⟨by rw [Shape.endsWith_concat]; rfl, Shape.endsWith_brackets (by decide)⟩
      · obtain ⟨hmark, hbrackets⟩ := ih hflat rfl
        rw [show ∀ s : List Char, s ++ ':' :: ' ' :: print result = (s ++ [':']) ++ ' ' :: print result
          by simp, Shape.endsWith_append_cons (by decide), Shape.endsWith_append_cons (by decide),
          hmark, hbrackets, hoptional, harray]
        exact ⟨rfl, rfl⟩
  | table _ _ _ _ _ =>
      rw [print]
      exact ⟨by rw [Shape.endsWith_concat]; rfl, Shape.endsWith_brackets (by decide)⟩
  | array _ _ =>
      rw [print]
      refine ⟨?_, endsWith_append _ _⟩
      rw [show ∀ s : List Char, s ++ ['[', ']'] = (s ++ ['[']) ++ [']'] by simp,
        Shape.endsWith_concat]
      rfl
  | tuple _ _ _ _ _ => cases hb

/-! ### Starts -/

/-- A character of the name in front of a type: of a dotted name, or a question mark. -/
def isLeadPart (c : Char) : Bool :=
  isDottedPart c || c == '?'

theorem isLeadPart_eq_false_of_isBlank {c : Char} (h : isBlank c = true) : isLeadPart c = false := by
  rw [isLeadPart, isDottedPart_eq_false_of_isBlank h, Bool.false_or, beq_eq_false_iff_ne]
  rintro rfl
  exact absurd h (by decide)

/-- A text that does not start with a dot, and where neither a blank nor a colon stands behind the
name in front. -/
structure Leads (s : List Char) : Prop where
  head : s.head? ≠ some '.'
  behind : ∀ c ∈ (s.dropWhile isLeadPart).head?, isBlank c = false ∧ c ≠ ':'

theorem leads_of_head {c : Char} (h : isLeadPart c = false) (hb : isBlank c = false) (hc : c ≠ ':')
    (s : List Char) : Leads (c :: s) where
  head := by
    simp only [List.head?_cons, ne_eq, Option.some.injEq]
    rintro rfl
    exact absurd h (by decide)
  behind d hd := by
    rw [List.dropWhile_cons_of_neg (by simp [h])] at hd
    obtain rfl : c = d := by simpa using hd
    exact ⟨hb, hc⟩

theorem IsTypeName.leads {s : List Char} (h : IsTypeName s) : Leads s where
  head := by
    obtain ⟨c, name, rfl, hc, -⟩ := h
    simp only [List.head?_cons, ne_eq, Option.some.injEq]
    rintro rfl
    exact absurd hc (by decide)
  behind d hd := by
    have hall : s.dropWhile isLeadPart = [] :=
      List.dropWhile_eq_nil_iff.2 fun c hc => by rw [isLeadPart, h.isDotted.2 c hc, Bool.true_or]
    simp [hall] at hd

/-- What is in front decides, unless it is nothing but a name. -/
theorem Leads.append {s t : List Char} (hs : Leads s) (hne : s ≠ [])
    (ht : ∀ c ∈ (t.dropWhile isLeadPart).head?, isBlank c = false ∧ c ≠ ':') : Leads (s ++ t) where
  head := by
    obtain ⟨c, s, rfl⟩ := List.exists_cons_of_ne_nil hne
    simpa using hs.head
  behind c hc := by
    rw [List.dropWhile_append] at hc
    split at hc
    · exact ht c hc
    · next hrest =>
      refine hs.behind c ?_
      cases hd : s.dropWhile isLeadPart with
      | nil => simp [hd] at hrest
      | cons d r =>
          rw [hd] at hc
          simpa using hc

/-- Something that ends a name may follow. -/
theorem Leads.append_cons {s : List Char} (hs : Leads s) (hne : s ≠ []) {c : Char}
    (h : isLeadPart c = false) (hb : isBlank c = false) (hc : c ≠ ':') (t : List Char) :
    Leads (s ++ c :: t) :=
  hs.append hne fun d hd => (leads_of_head h hb hc t).behind d hd

theorem ne_nil_group {s : List Char} (h : s ≠ []) (grouped : Bool) :
    DocType.group grouped s ≠ [] := by
  rw [DocType.group]
  split
  · simp
  · exact h

theorem Leads.group {s : List Char} (h : Leads s) (grouped : Bool) : Leads (group grouped s) := by
  rw [DocType.group]
  split
  · exact leads_of_head (by decide) (by decide) (by decide) _
  · exact h

/-- The text of a type starts with a name or a bracket. -/
theorem Printable.leads {b : Bool} {t : DocType} (h : Printable b t) : Leads t.print := by
  have hcons : ∀ {items : List (List Char)} {c : Char} {m : List Char}, isLeadPart c = false →
      isBlank c = false → c ≠ ':' → items ≠ [] → (∀ i ∈ items, Leads i ∧ i ≠ []) →
        Leads ((c :: m).intercalate items) := by
    intro items c m hc hb hcolon hne hitems
    rcases items with _ | ⟨i, _ | ⟨j, items⟩⟩
    · exact absurd rfl hne
    · rw [List.intercalate_singleton]
      exact (hitems i List.mem_cons_self).1
    · rw [List.intercalate_cons_cons, List.append_assoc, List.cons_append]
      obtain ⟨hi, hine⟩ := hitems i List.mem_cons_self
      exact hi.append_cons hine hc hb hcolon _
  induction h with
  | plain hname =>
      rw [print]
      exact hname.leads
  | optional ht ih =>
      rw [print]
      exact (ih.group _).append (ne_nil_group ht.ne_nil _) (by simp [isLeadPart])
  | generic hbase _ _ _ _ =>
      rw [print, List.append_assoc]
      exact hbase.leads.append_cons hbase.isDotted.1 (by decide) (by decide) (by decide) _
  | @union _ options hlen hoptions _ ih =>
      rw [print, printList_eq]
      refine hcons (by decide) (by decide) (by decide) ?_ ?_
      · rw [ne_eq, List.map_eq_nil_iff]
        rintro rfl
        simp at hlen
      · exact List.forall_mem_map.2 fun t ht => ⟨ih t ht, (hoptions t ht).ne_nil⟩
  | @function _ params result _ _ _ _ _ _ _ _ =>
      have hword : IsTypeName ['f', 'u', 'n'] := ⟨'f', ['u', 'n'], rfl, by decide, by decide⟩
      rw [print_function, Shape.header_append]
      exact hword.leads.append_cons (by simp) (by decide) (by decide) (by decide) _
  | table _ _ _ _ _ =>
      rw [print]
      exact leads_of_head (by decide) (by decide) (by decide) _
  | array ht ih =>
      rw [print]
      exact (ih.group _).append_cons (ne_nil_group ht.ne_nil _) (by decide) (by decide)
        (by decide) _
  | @tuple elements hlen helements _ _ ih =>
      rw [print, printList_eq]
      refine hcons (by decide) (by decide) (by decide) ?_ ?_
      · rw [ne_eq, List.map_eq_nil_iff]
        rintro rfl
        simp at hlen
      · exact List.forall_mem_map.2 fun t ht => ⟨ih t ht, (helements t ht).ne_nil⟩

end LuaAmbient.DocType
