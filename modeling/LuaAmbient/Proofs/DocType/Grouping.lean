/-
**Types in parentheses can stand anywhere.**

A text that is read as a type can be put in parentheses and then used as a component of every form:
in parentheses it has no cut, no mark at its end and no bracket that reaches out of it, whatever the
text itself is.

Main definitions:

* `LuaAmbient.DocType.parens` — a text in parentheses.

Main results:

* `LuaAmbient.DocType.parse_grouped` — **types in parentheses as components of every form**.
-/

import LuaAmbient.Proofs.DocType.Forms

set_option relaxedAutoImplicit false
set_option autoImplicit false

namespace LuaAmbient.DocType

open LuaAmbient.Text

/-- A text in parentheses. -/
def parens (text : List Char) : List Char :=
  '(' :: text ++ [')']

/-! ### Lines in parentheses -/

/-- A line in parentheses can stand between separators of any kind. -/
theorem Line.item_parens {t : List Char} {u : DocType} (h : Line t u) {sep : Char → Bool}
    (hopen : sep '(' = false) (hclose : sep ')' = false) : Nesting.Item sep (parens t) :=
  Nesting.item_enclosed rfl hopen hclose (balanced_of_parse h.parse_eq)

theorem Line.parse_parens {t : List Char} {u : DocType} (h : Line t u) :
    parse (parens t) = .ok u :=
  (parse_enclosed (balanced_of_parse h.parse_eq)).trans h.parse_eq

theorem mapM_parens {ts : List (List Char)} {us : List DocType} (h : List.Forall₂ Line ts us) :
    (ts.map parens).mapM parse = .ok us := by
  rw [mapM_eq_ok_iff, List.forall₂_map_left_iff]
  exact h.imp fun _ _ => Line.parse_parens

theorem forall_item_parens {ts : List (List Char)} {us : List DocType}
    (h : List.Forall₂ Line ts us) {sep : Char → Bool} (hopen : sep '(' = false)
    (hclose : sep ')' = false) : ∀ i ∈ ts.map parens, Nesting.Item sep i := by
  rw [List.forall_mem_map]
  induction h with
  | nil => simp
  | cons ht _ ih => exact List.forall_mem_cons.2 ⟨ht.item_parens hopen hclose, ih⟩

/-- Commas between lines in parentheses. -/
theorem item_commas_parens {ts : List (List Char)} {us : List DocType}
    (h : List.Forall₂ Line ts us) (hne : ts ≠ []) :
    Nesting.Item (· == '|') (commas (ts.map parens)) :=
  Nesting.item_intercalate (by decide) (Nesting.uncutFrom_of_forall (by decide) 0) (by simpa using hne)
    (forall_item_parens h rfl rfl)

theorem split_commas_parens {ts : List (List Char)} {us : List DocType}
    (h : List.Forall₂ Line ts us) :
    Nesting.split (· == ',') (commas (ts.map parens)) = ts.map parens :=
  Nesting.split_intercalate (by decide) (by decide) allBlank_space (forall_item_parens h rfl rfl)

/-! ### The forms -/

/-- A mark behind a line in parentheses. -/
theorem Line.read_mark {t : List Char} {u : DocType} (h : Line t u) {mark : List Char}
    (hne : mark ≠ []) (hmark : ∀ c ∈ mark, Nesting.IsPlain c ∧ isBlank c = false ∧ (c == '|') = false) :
    Shape.read (parens t ++ mark) = Shape.readOption (parens t ++ mark) :=
  Shape.read_of_item ((h.item_parens rfl rfl).append (Nesting.item_of_forall hne hmark))

theorem Line.parse_array {t : List Char} {u : DocType} (h : Line t u) :
    parse (parens t ++ ['[', ']']) = .ok (.array u) := by
  have hread : Shape.read (parens t ++ ['[', ']']) = .ok (.array (parens t)) := by
    rw [h.read_mark (by simp) (by decide), Shape.readOption_array]
  rw [parse_of_read hread, Shape.build, h.parse_parens]
  rfl

theorem Line.parse_optional {t : List Char} {u : DocType} (h : Line t u) :
    parse (parens t ++ ['?']) = .ok (.optional u) := by
  have hread : Shape.read (parens t ++ ['?']) = .ok (.optional (parens t)) := by
    rw [h.read_mark (by simp) (by decide), Shape.readOption_optional]
  rw [parse_of_read hread, Shape.build, h.parse_parens]
  rfl

theorem parse_union_parens {ts : List (List Char)} {us : List DocType}
    (h : List.Forall₂ Line ts us) (hlen : 2 ≤ ts.length) :
    parse (['|'].intercalate (ts.map parens)) = .ok (.union us) := by
  have hread := Shape.read_union (by rwa [List.length_map]) (forall_item_parens h rfl rfl)
  rw [parse_of_read hread, Shape.build, mapM_parens h]
  rfl

theorem parse_tuple_parens {ts : List (List Char)} {us : List DocType}
    (h : List.Forall₂ Line ts us) (hlen : 2 ≤ ts.length) :
    parse (commas (ts.map parens)) = .ok (.tuple us) := by
  obtain ⟨a, b, rest, rfl⟩ := exists_cons_cons hlen
  -- the text starts with a parenthesis and ends with one
  obtain ⟨s, last, hlast, hs⟩ := Shape.exists_commas_last (parens a) (parens b) (rest.map parens)
  obtain ⟨t, rfl⟩ : ∃ t, last = parens t := by
    have hmem := List.mem_of_getLast? hlast
    rw [← List.map_cons, ← List.map_cons] at hmem
    obtain ⟨t, -, ht⟩ := List.mem_map.1 hmem
    exact ⟨t, ht.symm⟩
  have hend : ∀ tail, ' ' ∉ tail → endsWith (commas ((a :: b :: rest).map parens)) tail =
      endsWith ('(' :: t ++ [')']) tail := by
    intro tail htail
    rw [List.map_cons, List.map_cons, hs, Shape.endsWith_append_cons htail]
    rfl
  have hhead : (commas ((a :: b :: rest).map parens)).head? = some '(' := by
    rw [List.map_cons, List.map_cons, Shape.commas_cons_cons]
    rfl
  have hread : Shape.read (commas ((a :: b :: rest).map parens)) =
      .ok (.tuple ((a :: b :: rest).map parens)) := by
    rw [Shape.read_of_item (item_commas_parens h (by simp))]
    refine Shape.readOption_tuple (by simp) (forall_item_parens h rfl rfl) ?_ ?_ ?_ ?_
    · rw [hend _ (by decide), Shape.endsWith_concat]
      rfl
    · rw [hend _ (by decide), Shape.endsWith_brackets (by decide)]
    · rw [hhead]
      decide
    · exact Shape.isFunction_of_head (by rw [hhead]; decide)
  rw [parse_of_read hread, Shape.build, mapM_parens h]
  rfl

theorem parse_generic_parens {ts : List (List Char)} {us : List DocType}
    (h : List.Forall₂ Line ts us) (hlen : 1 ≤ ts.length) {base : List Char} (hbase : IsDotted base) :
    parse (base ++ '<' :: commas (ts.map parens) ++ ['>']) =
      .ok (.generic (if isOpenTable (String.ofList base) then "Record" else String.ofList base) us) := by
  have hne : ts ≠ [] := by
    rintro rfl
    simp at hlen
  have hargs := (item_commas_parens h hne).balanced
  have hitem : Nesting.Item (· == '|') (base ++ '<' :: commas (ts.map parens) ++ ['>']) := by
    rw [List.append_assoc]
    exact (hbase.item (beq_eq_false_of_isDottedPart (by decide))).append
      (Nesting.item_enclosed rfl rfl rfl hargs)
  have hread : Shape.read (base ++ '<' :: commas (ts.map parens) ++ ['>']) =
      .ok (.generic base (ts.map parens)) := by
    rw [Shape.read_of_item hitem, Shape.readOption_generic hbase hargs
      (by rw [split_commas_parens h]; simpa using hne), split_commas_parens h]
  rw [parse_of_read hread, Shape.build, mapM_parens h]
  rfl

/-! ### Function types -/

/-- A parameter whose type is in parentheses. -/
def namedParens (name t : List Char) : List Char :=
  name ++ ':' :: ' ' :: parens t

theorem Line.item_namedParens {t : List Char} {u : DocType} (h : Line t u) {name : List Char}
    (hname : IsParamName name) : Nesting.Item (· == ',') (namedParens name t) := by
  have hitem : Nesting.Item (· == ',') (name ++ [':', ' '] ++ parens t) :=
    (hname.item (beq_eq_false_of_isDottedPart (by decide)) (by decide)).around
      (h.item_parens rfl rfl) (by decide) (Nesting.uncutFrom_of_forall (by decide) 0)
  simpa [namedParens] using hitem

theorem Line.readParam_namedParens {t : List Char} {u : DocType} (h : Line t u) {name : List Char}
    (hname : IsParamName name) :
    Shape.readParam (namedParens name t) = (.named (String.ofList name), some (parens t)) := by
  refine Shape.readParam_named hname (Shape.afterColon?_eq_some_iff.2 ?_) rfl
  refine ⟨[], [' '], allBlank_nil, allBlank_space, rfl, by simp [parens], ?_, by simp [parens]; decide⟩
  simp only [parens, List.mem_append, List.mem_cons, List.not_mem_nil, or_false, not_or]
  exact ⟨⟨by decide, h.unbroken⟩, by decide⟩

/-- The parameters of a function type, their types in parentheses. -/
theorem params_namedParens {ts : List (List Char)} {us : List DocType}
    (h : List.Forall₂ Line ts us) {names : List (List Char)} (hlen : names.length = ts.length)
    (hnames : ∀ name ∈ names, IsParamName name) :
    (∀ p ∈ List.zipWith namedParens names ts, Nesting.Item (· == ',') p) ∧
      ((List.zipWith namedParens names ts).map Shape.readParam).mapM (fun p =>
          Shape.readOr parse any p.2 >>= fun t => .ok (p.1, t)) =
        .ok ((names.map fun name => Label.named (String.ofList name)).zip us) := by
  induction h generalizing names with
  | nil =>
      obtain rfl : names = [] := by simpa using hlen
      exact ⟨by simp, rfl⟩
  | @cons t u ts us ht _ ih =>
      obtain ⟨name, names, rfl⟩ : ∃ name names', names = name :: names' := by
        cases names with
        | nil => simp at hlen
        | cons name names => exact ⟨name, names, rfl⟩
      obtain ⟨hitems, hparams⟩ := ih (by simpa using hlen) fun n hn =>
        hnames n (List.mem_cons_of_mem _ hn)
      have hname := hnames name List.mem_cons_self
      refine ⟨?_, ?_⟩
      · rw [List.zipWith_cons_cons, List.forall_mem_cons]
        exact ⟨ht.item_namedParens hname, hitems⟩
      · rw [List.zipWith_cons_cons, List.map_cons, List.mapM_cons, hparams,
          ht.readParam_namedParens hname]
        simp only [Shape.readOr, ht.parse_parens]
        rfl

theorem parse_function_parens {ts : List (List Char)} {us : List DocType}
    (h : List.Forall₂ Line ts us) {names : List (List Char)} (hlen : names.length = ts.length)
    (hnames : ∀ name ∈ names, IsParamName name) {r : List Char} {w : DocType} (hr : Line r w) :
    parse ("fun(".toList ++ commas (List.zipWith namedParens names ts) ++ [')'] ++
        ':' :: ' ' :: parens r) =
      .ok (.function ((names.map fun name => Label.named (String.ofList name)).zip us) w) := by
  obtain ⟨hitems, hparams⟩ := params_namedParens h hlen hnames
  have hinside : Nesting.balanced (commas (List.zipWith namedParens names ts)) = true :=
    Nesting.balanced_intercalate (by decide) fun p hp => (hitems p hp).balanced
  have hsplit : Nesting.split (· == ',') (commas (List.zipWith namedParens names ts)) =
      List.zipWith namedParens names ts :=
    Nesting.split_intercalate (by decide) (by decide) allBlank_space hitems
  generalize hin : commas (List.zipWith namedParens names ts) = inside at hinside hsplit
  have hcolon : ':' :: ' ' :: parens r = [':', ' ', '('] ++ r ++ [')'] := rfl
  have hitem : Nesting.Item (· == '|') (Shape.header inside ++ ':' :: ' ' :: parens r) := by
    have hparts : Nesting.Item (· == '|') (Shape.header inside ++ [':', ' '] ++ parens r) :=
      (Shape.item_header hinside (by decide)).around (hr.item_parens rfl rfl) (by decide)
        (Nesting.uncutFrom_of_forall (by decide) 0)
    simpa using hparts
  have hread : Shape.read (Shape.header inside ++ ':' :: ' ' :: parens r) = .ok (.function
      ((List.zipWith namedParens names ts).map Shape.readParam) (some (' ' :: parens r))) := by
    have htrim : Trimmed (':' :: (' ' :: '(' :: r) ++ [')']) :=
      trimmed_of_ends (by decide) (by decide)
    have hstrip : strip (':' :: ' ' :: parens r) = ':' :: ' ' :: parens r := strip_eq_self htrim
    rw [Shape.read_of_item hitem, Shape.readOption_function, Shape.readFunction_header hinside
      (.inr ⟨_, hstrip, rfl⟩), hsplit]
    · rw [hcolon, ← List.append_assoc, Shape.endsWith_concat]
      rfl
    · rw [hcolon, ← List.append_assoc, Shape.endsWith_brackets (by decide)]
  have hresult : parse (' ' :: parens r) = .ok w := by
    rw [← parse_strip, ← List.singleton_append, strip_append_left allBlank_space, parse_strip]
    exact hr.parse_parens
  change parse (Shape.header inside ++ ':' :: ' ' :: parens r) = _
  rw [parse_of_read hread, Shape.build_function, hparams, Shape.readOr, hresult]
  rfl

/-- **Types in parentheses as components of every form**: parentheses do not count; lines in them may
stand in front of square brackets and of a question mark, between bars, between commas, as arguments
of a name, and as types of the parameters and of the result of a function. -/
theorem parse_grouped {t : List Char} {u : DocType} (ht : Line t u) {ts : List (List Char)}
    {us : List DocType} (hts : List.Forall₂ Line ts us) {r : List Char} {w : DocType}
    (hr : Line r w) {base : List Char} (hbase : IsDotted base) {names : List (List Char)}
    (hlen : names.length = ts.length) (hnames : ∀ name ∈ names, IsParamName name) :
    parse (parens t) = parse t ∧
      parse (parens t ++ "[]".toList) = .ok (.array u) ∧
      parse (parens t ++ "?".toList) = .ok (.optional u) ∧
      (2 ≤ ts.length → parse ("|".toList.intercalate (ts.map parens)) = .ok (.union us)) ∧
      (2 ≤ ts.length → parse (", ".toList.intercalate (ts.map parens)) = .ok (.tuple us)) ∧
      (1 ≤ ts.length → parse (base ++ "<".toList ++ ", ".toList.intercalate (ts.map parens) ++
          ">".toList) =
        .ok (.generic (if isOpenTable (String.ofList base) then "Record" else String.ofList base)
          us)) ∧
      parse ("fun(".toList ++ ", ".toList.intercalate (List.zipWith namedParens names ts) ++
          "): ".toList ++ parens r) =
        .ok (.function ((names.map fun name => Label.named (String.ofList name)).zip us) w) := by
  refine ⟨ht.parse_parens.trans ht.parse_eq.symm, ht.parse_array, ht.parse_optional,
    parse_union_parens hts, parse_tuple_parens hts, fun h => ?_, ?_⟩
  · have hgeneric := parse_generic_parens hts h hbase
    simpa [commas] using hgeneric
  · have hfunction := parse_function_parens hts hlen hnames hr
    simpa [commas] using hfunction

/-- A function that takes a union in parentheses and gives a list. -/
theorem parse_grouped_of_callback :
    parse "fun(x?: (a|b), y: (\x7b\x7d)): (c[])".toList =
      .ok (.function [(.named "x?", .union [.plain "a", .plain "b"]), (.named "y", .table [])]
        (.array (.plain "c"))) := by
  have hunion : Line "a|b".toList (.union [.plain "a", .plain "b"]) := ⟨by decide +kernel, by decide⟩
  have htable : Line ['{', '}'] (.table []) := ⟨by decide +kernel, by decide⟩
  have harray : Line "c[]".toList (.array (.plain "c")) := ⟨by decide +kernel, by decide⟩
  have hnames : ∀ name ∈ [['x', '?'], ['y']], IsParamName name := by
    intro name hname
    simp only [List.mem_cons, List.not_mem_nil, or_false] at hname
    rcases hname with rfl | rfl
    · exact ⟨'x', [], ['?'], rfl, rfl, by simp, .inr rfl⟩
    · exact ⟨'y', [], [], rfl, rfl, by simp, .inl rfl⟩
  have hbase : IsDotted ['t'] := by decide
  have hlen : [['x', '?'], ['y']].length = ["a|b".toList, ['{', '}']].length := rfl
  obtain ⟨-, -, -, -, -, -, hfunction⟩ :=
    parse_grouped hunion (.cons hunion (.cons htable .nil)) harray hbase hlen hnames
  have htext : "fun(x?: (a|b), y: (\x7b\x7d)): (c[])".toList = "fun(".toList ++
      ", ".toList.intercalate (List.zipWith namedParens [['x', '?'], ['y']]
        ["a|b".toList, ['{', '}']]) ++ "): ".toList ++ parens "c[]".toList := by decide
  rw [htext]
  exact hfunction

end LuaAmbient.DocType
