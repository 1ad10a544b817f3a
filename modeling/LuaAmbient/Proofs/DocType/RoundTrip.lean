/-
**Reading a printed type.**

For every form of a printable type, the reader finds the texts of its parts again.  So a type comes
back from its text exactly if its parts do, and the only form with a condition of its own is the
tuple: a mark at the end of its last element is taken for one behind the whole tuple.

Main definitions:

* `LuaAmbient.DocType.Closed` — no tuple ends in an optional type or an array.

Main results:

* `LuaAmbient.DocType.Printable.readParam_unnamed` — a parameter without a label;
* `LuaAmbient.DocType.Printable.returns_optional`, `LuaAmbient.DocType.returns_tuple` and the like — a
  form and its parts;
* `LuaAmbient.DocType.Printable.returns_iff` — the forms put together;
* `LuaAmbient.DocType.parse_print_iff` — **the reader undoes the printer exactly on the closed
  types**.
-/

import LuaAmbient.Proofs.DocType.Printable

set_option relaxedAutoImplicit false
set_option autoImplicit false

namespace LuaAmbient.DocType

open LuaAmbient.Text

/-! ### Closed types -/

/-- No tuple in the type ends in an optional type or in an array. -/
def Closed (t : DocType) : Prop :=
  ∀ elements, Occurs (.tuple elements) t →
    ∀ e ∈ elements.getLast?, e.isOptional = false ∧ e.isArray = false

theorem closed_iff {t : DocType} (h : ∀ elements, t ≠ .tuple elements) :
    Closed t ↔ ∀ u ∈ parts t, Closed u := by
  constructor
  · intro ht u hu elements he
    exact ht elements (.part hu he)
  · intro ht elements he
    rcases occurs_iff.1 he with rfl | ⟨u, hu, he⟩
    · exact absurd rfl (h elements)
    · exact ht u hu elements he

theorem closed_tuple {elements : List DocType} :
    Closed (.tuple elements) ↔
      (∀ e ∈ elements.getLast?, e.isOptional = false ∧ e.isArray = false) ∧
        ∀ e ∈ elements, Closed e := by
  constructor
  · intro ht
    exact ⟨ht elements .refl, fun e he es hes => ht es (.part he hes)⟩
  · rintro ⟨hlast, hparts⟩ es hes
    rcases occurs_iff.1 hes with heq | ⟨u, hu, hes⟩
    · obtain rfl := DocType.tuple.inj heq
      exact hlast
    · exact hparts u hu es hes

/-! ### Reading parts -/

/-- A part comes back from its text. -/
def Returns (t : DocType) : Prop :=
  parse t.print = .ok t

theorem mapM_print {ts : List DocType} :
    (ts.map print).mapM parse = .ok ts ↔ ∀ t ∈ ts, Returns t := by
  rw [mapM_eq_ok_iff, List.forall₂_map_left_iff, List.forall₂_same]
  rfl

theorem Printable.parse_group {b : Bool} {t : DocType} (h : Printable b t) (grouped : Bool) :
    parse (group grouped t.print) = parse t.print := by
  rw [group]
  split
  · exact parse_enclosed h.balanced
  · rfl

/-- A printable type that is no union has the form of its text. -/
theorem Printable.parse_of_readOption {b : Bool} {t : DocType} (h : Printable b t)
    (hunion : t.isUnion = false) {shape : Shape} (hread : Shape.readOption t.print = .ok shape) :
    parse t.print = Shape.build parse shape :=
  parse_of_read (by rw [Shape.read_of_item (h.item (.inl rfl) (cutsAt_bar hunion)), hread])

/-! ### Names, marks and unions -/

theorem canonical_of_isTypeName {name : String} (h : IsTypeName name.toList)
    (hkeep : name ∉ replacedNames) : canonical name.toList = .plain name := by
  have hsuffix : dropSuffix name.toList "::Type".toList = name.toList := by
    rw [dropSuffix, if_neg]
    intro hend
    obtain ⟨s, hs, -⟩ := exists_of_endsWith hend
    have hmem : ':' ∈ name.toList := by
      rw [hs]
      exact List.mem_append_right _ (by decide)
    exact ne_of_isDottedPart (h.isDotted.2 _ hmem) (by decide) rfl
  simp only [replacedNames, List.mem_cons, List.not_mem_nil, or_false, not_or] at hkeep
  obtain ⟨h₁, h₂, h₃, h₄, h₅, h₆, h₇, -⟩ := hkeep
  have hopen : isOpenTable name = false := by simp [isOpenTable, h₅, h₆, h₇]
  have hprimitive : primitive name = name := by simp [primitive, h₁, h₂, h₃, h₄]
  rw [canonical, hsuffix, String.ofList_toList, hopen, hprimitive]
  rfl

theorem returns_plain {name : String} (h : IsTypeName name.toList) (hkeep : name ∉ replacedNames) :
    Returns (.plain name) := by
  have hword : name.toList ≠ "function".toList := by
    intro heq
    rw [String.toList_inj.1 heq] at hkeep
    exact absurd hkeep (by decide)
  have hread : Shape.readOption (print (.plain name)) = .ok (.plain name.toList) := by
    rw [print]
    exact Shape.readOption_plain h.isDotted hword
  rw [Returns, Printable.parse_of_readOption (.plain h hkeep : Printable false _) rfl hread,
    Shape.build, canonical_of_isTypeName h hkeep]

theorem Printable.returns_optional {t : DocType} (h : Printable false t) :
    Returns (.optional t) ↔ Returns t := by
  have hread : Shape.readOption (print (.optional t)) =
      .ok (.optional (group t.groupsInOptional t.print)) := by
    rw [print]
    exact Shape.readOption_optional _
  rw [Returns, Printable.parse_of_readOption (.optional h : Printable false _) rfl hread,
    Shape.build, h.parse_group]
  exact map_eq_ok_iff fun _ _ => DocType.optional.inj

theorem Printable.returns_array {t : DocType} (h : Printable true t) :
    Returns (.array t) ↔ Returns t := by
  have hread : Shape.readOption (print (.array t)) =
      .ok (.array (group t.groupsInArray t.print)) := by
    rw [print]
    exact Shape.readOption_array _
  rw [Returns, Printable.parse_of_readOption (.array h : Printable false _) rfl hread,
    Shape.build, h.parse_group]
  exact map_eq_ok_iff fun _ _ => DocType.array.inj

theorem returns_union {options : List DocType} (hlen : 2 ≤ options.length)
    (hoptions : ∀ t ∈ options, Printable false t) (hflat : ∀ t ∈ options, t.isUnion = false) :
    Returns (.union options) ↔ ∀ t ∈ options, Returns t := by
  have hread : Shape.read (print (.union options)) = .ok (.union (options.map print)) := by
    rw [print, printList_eq]
    refine Shape.read_union (by rwa [List.length_map]) (List.forall_mem_map.2 fun t ht => ?_)
    exact (hoptions t ht).item (.inl rfl) (cutsAt_bar (hflat t ht))
  rw [Returns, parse_of_read hread, Shape.build, ← mapM_print]
  exact map_eq_ok_iff fun _ _ => DocType.union.inj

/-! ### Lists of parts -/

/-- The texts between commas. -/
theorem split_commas {ts : List DocType} (h : ∀ t ∈ ts, Printable false t) :
    Nesting.split (· == ',') (commas (ts.map print)) = ts.map print :=
  Nesting.split_intercalate (by decide) (by decide) allBlank_space
    (List.forall_mem_map.2 fun t ht => (h t ht).item (.inr rfl) (h t ht).cutsAt_comma)

theorem balanced_commas {ts : List DocType} (h : ∀ t ∈ ts, Printable false t) :
    Nesting.balanced (commas (ts.map print)) = true :=
  Nesting.balanced_intercalate (by decide) (List.forall_mem_map.2 fun t ht => (h t ht).balanced)

theorem returns_generic {base : String} {args : List DocType} (hbase : IsTypeName base.toList)
    (hopen : base ∉ ["table", "userdata", "lightuserdata"]) (hlen : 1 ≤ args.length)
    (hargs : ∀ t ∈ args, Printable false t) :
    Returns (.generic base args) ↔ ∀ t ∈ args, Returns t := by
  have hne : args.map print ≠ [] := by
    rw [ne_eq, List.map_eq_nil_iff]
    rintro rfl
    simp at hlen
  have hread : Shape.readOption (print (.generic base args)) =
      .ok (.generic base.toList (args.map print)) := by
    rw [print, printList_eq, Shape.readOption_generic hbase.isDotted (balanced_commas hargs)
      (by rwa [split_commas hargs]), split_commas hargs]
  have hname : isOpenTable base = false := by
    simp only [List.mem_cons, List.not_mem_nil, or_false, not_or] at hopen
    simp [isOpenTable, hopen.1, hopen.2.1, hopen.2.2]
  rw [Returns, Printable.parse_of_readOption (.generic hbase hopen hlen hargs : Printable false _)
    rfl hread, Shape.build, ← mapM_print]
  simp only [String.ofList_toList, hname]
  exact map_eq_ok_iff fun _ _ h => (DocType.generic.inj h).2

/-! ### Tuples -/

/-- A text that ends in a mark is not read as a tuple. -/
theorem parse_ne_tuple {s : List Char} (h : Nesting.Item (· == '|') s)
    (hend : endsWith s ['?'] = true ∨ endsWith s ['[', ']'] = true) (elements : List DocType) :
    parse s ≠ .ok (.tuple elements) := by
  intro hparse
  rw [parse_eq, Shape.read_of_item h] at hparse
  rcases hend with hend | hend
  · obtain ⟨u, rfl, -⟩ := exists_of_endsWith hend
    rw [Shape.readOption_optional] at hparse
    obtain ⟨shape, hshape, hparse⟩ := bind_eq_ok hparse
    obtain rfl := Except.ok.inj hshape
    obtain ⟨t, -, heq⟩ := bind_eq_ok hparse
    cases heq
  · obtain ⟨u, rfl, -⟩ := exists_of_endsWith hend
    rw [Shape.readOption_array] at hparse
    obtain ⟨shape, hshape, hparse⟩ := bind_eq_ok hparse
    obtain rfl := Except.ok.inj hshape
    obtain ⟨t, -, heq⟩ := bind_eq_ok hparse
    cases heq

/-- The end of a tuple is that of its last element. -/
theorem endsWith_commas {elements : List DocType} (hlen : 2 ≤ elements.length) :
    ∃ e, elements.getLast? = some e ∧ ∀ tail, ' ' ∉ tail →
      endsWith (commas (elements.map print)) tail = endsWith e.print tail := by
  obtain ⟨a, b, rest, rfl⟩ := exists_cons_cons hlen
  obtain ⟨s, last, hlast, hs⟩ := Shape.exists_commas_last (print a) (print b) (rest.map print)
  rw [← List.map_cons, ← List.map_cons, List.getLast?_map] at hlast
  obtain ⟨e, he, rfl⟩ := Option.map_eq_some_iff.1 hlast
  refine ⟨e, he, fun tail htail => ?_⟩
  rw [List.map_cons, List.map_cons, hs, Shape.endsWith_append_cons htail]

/-- The start of a tuple is that of its first element, which is no function type. -/
theorem isFunction_commas {t : DocType} (h : Printable false t) (hfun : ¬ "fun(".toList <+: t.print)
    (rest : List Char) : Shape.isFunction (t.print ++ ',' :: rest) = false := by
  have hleads : Leads (t.print ++ ',' :: rest) := by
    refine h.leads.append h.ne_nil fun d hd => ?_
    exact (leads_of_head (by decide) (by decide) (by decide) _).behind d hd
  have hword : (t.print ++ ',' :: rest == "function".toList) = false := by
    rw [beq_eq_false_iff_ne]
    intro heq
    have hmem : ',' ∈ "function".toList := by rw [← heq]; simp
    exact absurd hmem (by decide)
  rw [← Bool.not_eq_true]
  intro hf
  obtain ⟨b, tail, hb, hs⟩ := Shape.exists_of_isFunction hf hword
  -- no blank stands behind the word, so the parenthesis does
  have hnil : b = [] := by
    cases b with
    | nil => rfl
    | cons c b =>
        have hc := hb c List.mem_cons_self
        have hlead := isLeadPart_eq_false_of_isBlank hc
        have hdrop : (t.print ++ ',' :: rest).dropWhile isLeadPart = c :: b ++ '(' :: tail := by
          rw [hs, List.dropWhile_cons_of_pos (by decide), List.dropWhile_cons_of_pos (by decide),
            List.dropWhile_cons_of_pos (by decide), List.cons_append,
            List.dropWhile_cons_of_neg (by simp [hlead])]
        have hblank := (hleads.behind c (by rw [hdrop]; rfl)).1
        rw [hc] at hblank
        exact absurd hblank (by decide)
  subst hnil
  have hprefix : "fun(".toList <+: t.print ++ ',' :: rest := ⟨tail, by rw [hs]; rfl⟩
  rcases Nat.lt_or_ge t.print.length 4 with hlt | hle
  · -- a shorter text would have the comma inside the word
    have hcomma : t.print ++ [','] <+: "fun(".toList := by
      have hwhole : t.print ++ [','] <+: t.print ++ ',' :: rest := ⟨rest, by simp⟩
      refine List.prefix_of_prefix_length_le hwhole hprefix ?_
      rw [List.length_append]
      exact hlt
    exact absurd (hcomma.subset (by simp)) (by decide : ',' ∉ "fun(".toList)
  · exact hfun (List.prefix_of_prefix_length_le hprefix (List.prefix_append _ _) hle)

theorem returns_tuple {elements : List DocType} (hlen : 2 ≤ elements.length)
    (helements : ∀ t ∈ elements, Printable false t) (hflat : ∀ t ∈ elements, t.isUnion = false)
    (hfirst : ∀ t ∈ elements.head?, ¬ ['{'] <+: t.print ∧ ¬ "fun(".toList <+: t.print) :
    Returns (.tuple elements) ↔
      (∀ e ∈ elements.getLast?, e.isOptional = false ∧ e.isArray = false) ∧
        ∀ e ∈ elements, Returns e := by
  obtain ⟨last, hlast, hend⟩ := endsWith_commas hlen
  have hmem := List.mem_of_getLast? hlast
  obtain ⟨hmark, hbrackets⟩ := (helements last hmem).ends (hflat last hmem)
  rw [← hend _ (by decide)] at hmark
  rw [← hend _ (by decide)] at hbrackets
  have htuple : Printable true (.tuple elements) := .tuple hlen helements hflat hfirst
  have htext : print (.tuple elements) = commas (elements.map print) := by rw [print, printList_eq]
  simp only [hlast, Option.mem_def, Option.some.injEq, forall_eq']
  by_cases hclosed : last.isOptional = false ∧ last.isArray = false
  · have hread : Shape.readOption (print (.tuple elements)) = .ok (.tuple (elements.map print)) := by
      obtain ⟨a, b, rest, rfl⟩ := exists_cons_cons hlen
      obtain ⟨hbrace, hfun⟩ := hfirst a rfl
      have ha := helements a List.mem_cons_self
      have hcons := Shape.commas_cons_cons (print a) (print b) (rest.map print)
      rw [htext]
      refine Shape.readOption_tuple (by simp) (List.forall_mem_map.2 fun t ht =>
        (helements t ht).item (.inr rfl) (helements t ht).cutsAt_comma) (hmark.trans hclosed.1)
        (hbrackets.trans hclosed.2) ?_ ?_
      · rw [List.map_cons, List.map_cons, hcons]
        intro hhead
        obtain ⟨c, s, hs⟩ := List.exists_cons_of_ne_nil ha.ne_nil
        rw [hs] at hhead hbrace
        obtain rfl : c = '{' := by simpa using hhead
        exact hbrace ⟨s, rfl⟩
      · rw [List.map_cons, List.map_cons, hcons]
        exact isFunction_commas ha hfun _
    rw [Returns, htuple.parse_of_readOption rfl hread, Shape.build, ← mapM_print]
    exact (map_eq_ok_iff fun _ _ => DocType.tuple.inj).trans (and_iff_right hclosed).symm
  · have hmarked : endsWith (print (.tuple elements)) ['?'] = true ∨
        endsWith (print (.tuple elements)) ['[', ']'] = true := by
      rw [htext, hmark, hbrackets]
      by_contra hno
      simp only [not_or, Bool.not_eq_true] at hno
      exact hclosed hno
    have hne := parse_ne_tuple (htuple.item (.inl rfl) rfl) hmarked elements
    exact ⟨fun h => absurd h hne, fun h => absurd h.1 hclosed⟩

/-! ### Functions -/

/-- The text behind a colon and a blank. -/
theorem Printable.afterColon? {b : Bool} {t : DocType} (h : Printable b t) :
    Shape.afterColon? (':' :: ' ' :: t.print) = some t.print :=
  Shape.afterColon?_eq_some_iff.2 ⟨[], [' '], allBlank_nil, allBlank_space, rfl, h.ne_nil, h.unbroken,
    h.trimmed.head⟩

/-- A type whose text is a single word without dots is that word. -/
theorem Printable.plain_of_forall {t : DocType} (h : Printable false t)
    (hall : ∀ c ∈ t.print, isNamePart c = true) : ∃ name, t = .plain name := by
  have hnot : ∀ d, isNamePart d = false → d ∉ t.print := by
    intro d hd hmem
    rw [hall d hmem] at hd
    exact absurd hd (by decide)
  cases h with
  | @plain _ name _ _ => exact ⟨name, rfl⟩
  | optional _ => exact absurd (by simp [print]) (hnot '?' (by decide))
  | generic _ _ _ _ => exact absurd (by simp [print]) (hnot '<' (by decide))
  | @union _ options hlen _ _ =>
      obtain ⟨a, b, rest, rfl⟩ := exists_cons_cons hlen
      exact absurd (by simp [print, printList, List.intercalate_cons_cons]) (hnot '|' (by decide))
  | function _ _ _ _ _ _ =>
      exact absurd (by rw [print_function, Shape.header_append]; simp) (hnot '(' (by decide))
  | table _ _ _ => exact absurd (by simp [print]) (hnot '{' (by decide))
  | array _ => exact absurd (by simp [print]) (hnot ']' (by decide))

/-- A type whose text is the name of a parameter is a name, perhaps with a question mark. -/
theorem Printable.plain_of_isParamName {t : DocType} (h : Printable false t)
    (hs : IsParamName t.print) :
    ∃ name, (t = .plain name ∨ t = .optional (.plain name)) ∧ '.' ∉ name.toList := by
  obtain ⟨c, s, mark, heq, hc, hpart, hmark⟩ := hs
  have hall : ∀ d ∈ c :: s, isNamePart d = true :=
    List.forall_mem_cons.2 ⟨isNamePart_of_isNameStart hc, hpart⟩
  have hplain : ∀ {u : DocType}, Printable false u → u.print = c :: s →
      ∃ name, u = .plain name ∧ '.' ∉ name.toList := by
    intro u hu hprint
    obtain ⟨name, rfl⟩ := hu.plain_of_forall (by rwa [hprint])
    refine ⟨name, rfl, fun hdot => ?_⟩
    rw [print] at hprint
    rw [hprint] at hdot
    exact absurd (hall _ hdot) (by decide)
  rcases hmark with rfl | rfl
  · obtain ⟨name, rfl, hdot⟩ := hplain h (by rw [heq, List.append_nil])
    exact ⟨name, .inl rfl, hdot⟩
  · have hunion : t.isUnion = false := by
      cases h with
      | @union _ options hlen _ _ =>
          obtain ⟨a, b, rest, rfl⟩ := exists_cons_cons hlen
          have hbar : '|' ∈ c :: s ++ ['?'] := by
            rw [← heq]
            simp [print, printList, List.intercalate_cons_cons]
          rcases List.mem_append.1 hbar with hbar | hbar
          · exact absurd (hall _ hbar) (by decide)
          · exact absurd hbar (by decide)
      | _ => rfl
    have hoptional : t.isOptional = true := by
      rw [← (h.ends hunion).1, heq]
      exact endsWith_append _ _
    cases h with
    | @optional _ u hu =>
        rw [print] at heq
        have hgroup := List.append_cancel_right heq
        rw [group] at hgroup
        split at hgroup
        · rw [← (List.cons.inj hgroup).1] at hc
          exact absurd hc (by decide)
        · obtain ⟨name, rfl, hdot⟩ := hplain hu hgroup
          exact ⟨name, .inr rfl, hdot⟩
    | _ => simp [isOptional] at hoptional

/-- A parameter without a label is read as one. -/
theorem Printable.readParam_unnamed {t : DocType} (h : Printable false t)
    (hlabel : Labelled (.unnamed, t)) : Shape.readParam t.print = (.unnamed, some t.print) := by
  have hhead := h.leads.head
  rcases Shape.readParam_cases t.print with ⟨hs, -⟩ | ⟨rest, u, hs, -⟩ | ⟨hname, -⟩ |
    ⟨name, rest, u, hname, hs, hu, -⟩ | hs
  · exact absurd (by rw [hs]; rfl) hhead
  · exact absurd (by rw [hs]; rfl) hhead
  · obtain ⟨name, ht, hdot⟩ := h.plain_of_isParamName hname
    exact absurd (hlabel name ht) hdot
  · -- behind a name stands neither a blank nor a colon
    obtain ⟨b, b', hb, -, hrest, -⟩ := Shape.afterColon?_eq_some_iff.1 hu
    have hlead : ∀ c ∈ name, isLeadPart c = true := by
      intro c hc
      rw [isLeadPart, Bool.or_eq_true, beq_iff_eq, ← Bool.not_eq_false]
      by_contra hno
      rw [not_or, not_not] at hno
      exact hname.not_mem hno.1 hno.2 hc
    obtain ⟨c, r, hr, hc⟩ : ∃ c r, rest = c :: r ∧ (isBlank c = true ∨ c = ':') := by
      cases b with
      | nil => exact ⟨':', b' ++ u, hrest, .inr rfl⟩
      | cons c b => exact ⟨c, _, hrest, .inl (hb c List.mem_cons_self)⟩
    have hc' : isLeadPart c = false := by
      rcases hc with hc | rfl
      · exact isLeadPart_eq_false_of_isBlank hc
      · decide
    have hdrop : t.print.dropWhile isLeadPart = c :: r := by
      rw [hs, List.dropWhile_append_of_pos hlead, hr, List.dropWhile_cons_of_neg (by simp [hc'])]
    obtain ⟨hblank, hcolon⟩ := h.leads.behind c (by rw [hdrop]; rfl)
    rcases hc with hc | rfl
    · rw [hc] at hblank
      exact absurd hblank (by decide)
    · exact absurd rfl hcolon
  · exact hs

theorem returns_void : Returns void :=
  returns_plain ⟨'v', "oid".toList, rfl, by decide, by decide⟩ (by decide)

theorem returns_any : Returns any :=
  returns_plain ⟨'a', "ny".toList, rfl, by decide, by decide⟩ (by decide)

/-- A parameter comes back exactly if its type does. -/
theorem readOr_printParam {p : Label × DocType} (h : Printable false p.2) (hlabel : Labelled p) :
    (Shape.readOr parse any (Shape.readParam (printParam p)).2 >>= fun t =>
      Except.ok ((Shape.readParam (printParam p)).1, t)) = .ok p ↔ Returns p.2 := by
  obtain ⟨label, t⟩ := p
  have htext : ∀ {s : List Char}, Shape.readParam s = (label, some t.print) →
      ((Shape.readOr parse any (Shape.readParam s).2 >>= fun u =>
        Except.ok ((Shape.readParam s).1, u)) = .ok (label, t) ↔ Returns t) := by
    intro s hs
    rw [hs]
    exact map_eq_ok_iff fun _ _ he => (Prod.mk.inj he).2
  cases label with
  | unnamed => exact htext (h.readParam_unnamed hlabel)
  | named name =>
      refine htext ?_
      rw [printParam, Shape.readParam_named (IsAsciiLabel.isParamName hlabel) h.afterColon? rfl,
        String.ofList_toList]
  | rest =>
      by_cases ht : t = any
      · subst ht
        have hs : Shape.readParam (printParam (.rest, any)) = (.rest, none) := by
          rw [show printParam (.rest, any) = "...".toList from if_pos rfl]
          rfl
        rw [hs]
        exact iff_of_true rfl returns_any
      · refine htext ?_
        have hrest : Shape.readRest? ("...".toList ++ ':' :: ' ' :: t.print) = some (some t.print) := by
          have hprefix : List.isPrefixOf? ['.', '.', '.'] ("...".toList ++ ':' :: ' ' :: t.print) =
              some (':' :: ' ' :: t.print) := List.isPrefixOf?_eq_some_iff_append_eq.2 rfl
          rw [Shape.readRest?, hprefix]
          simp only [h.afterColon?, Option.map_some]
        have hprint : printParam (.rest, t) = "...".toList ++ ':' :: ' ' :: t.print := by
          simp [printParam, ht]
        rw [hprint, Shape.readParam, hrest]

theorem returns_function {params : List (Label × DocType)} {result : DocType}
    (hparams : ∀ p ∈ params, Printable false p.2) (hlabels : ∀ p ∈ params, Labelled p)
    (hresult : Printable false result) (hunion : result.isUnion = false)
    (hoptional : result.isOptional = false) (harray : result.isArray = false) :
    Returns (.function params result) ↔ (∀ p ∈ params, Returns p.2) ∧ Returns result := by
  have hfunction : Printable false (.function params result) :=
    .function hparams hlabels hresult hunion hoptional harray
  have hitems : ∀ s ∈ params.map printParam, Nesting.Item (· == ',') s :=
    List.forall_mem_map.2 fun p hp => item_printParam (hlabels p hp)
      ((hparams p hp).item (.inr rfl) (hparams p hp).cutsAt_comma)
  have hinside : Nesting.balanced (commas (params.map printParam)) = true :=
    Nesting.balanced_intercalate (by decide) fun s hs => (hitems s hs).balanced
  have hsplit : Nesting.split (· == ',') (commas (params.map printParam)) = params.map printParam :=
    Nesting.split_intercalate (by decide) (by decide) allBlank_space hitems
  have hends := hfunction.ends rfl
  have hps : ((params.map printParam).map Shape.readParam).mapM (fun p =>
      Shape.readOr parse any p.2 >>= fun t => .ok (p.1, t)) = .ok params ↔
        ∀ p ∈ params, Returns p.2 := by
    rw [mapM_eq_ok_iff, List.map_map, List.forall₂_map_left_iff, List.forall₂_same]
    exact forall₂_congr fun p hp => readOr_printParam (hparams p hp) (hlabels p hp)
  -- a function that gives nothing shows no result
  obtain ⟨text, hread, hr⟩ : ∃ text, Shape.readOption (print (.function params result)) =
      .ok (.function ((params.map printParam).map Shape.readParam) text) ∧
        (Shape.readOr parse void text = .ok result ↔ Returns result) := by
    rw [print_function] at hends ⊢
    by_cases hvoid : result = void
    · subst hvoid
      rw [if_pos rfl] at hends ⊢
      refine ⟨none, ?_, iff_of_true rfl returns_void⟩
      rw [Shape.readOption_function hends.1 hends.2,
        Shape.readFunction_header hinside (.inl ⟨rfl, rfl⟩), hsplit]
    · rw [if_neg hvoid] at hends ⊢
      have htrim : Trimmed ([':'] ++ [' '] ++ print result) :=
        (trimmed_of_forall (by decide)).around hresult.trimmed (by simp) hresult.ne_nil
      have hstrip : strip (':' :: ' ' :: print result) = ':' :: ' ' :: print result :=
        strip_eq_self htrim
      refine ⟨some (' ' :: print result), ?_, ?_⟩
      · rw [Shape.readOption_function hends.1 hends.2,
          Shape.readFunction_header hinside (.inr ⟨_, hstrip, rfl⟩), hsplit]
      · rw [Shape.readOr, ← parse_strip, ← List.singleton_append,
          strip_append_left allBlank_space, parse_strip]
        rfl
  rw [Returns, hfunction.parse_of_readOption rfl hread, Shape.build_function, ← hps, ← hr]
  constructor
  · intro h
    obtain ⟨r, hr', h⟩ := bind_eq_ok h
    obtain ⟨ps, hps', h⟩ := bind_eq_ok h
    obtain ⟨rfl, rfl⟩ := DocType.function.inj (Except.ok.inj h)
    exact ⟨hps', hr'⟩
  · rintro ⟨hps, hr⟩
    rw [hr, hps]
    rfl

/-! ### Tables -/

theorem item_printField {f : DocType × DocType} (hk : Printable false f.1)
    (hv : Printable false f.2) : Nesting.Item (· == ',') (printField f) := by
  have hopen : Nesting.Item (· == ',') ['['] := Nesting.item_of_forall (by simp) (by decide)
  have hkey := hk.item (.inr rfl) hk.cutsAt_comma
  have hparts : Nesting.Item (· == ',') (['['] ++ (print f.1 ++ [']', ':', ' ']) ++ print f.2) :=
    hopen.around (hv.item (.inr rfl) hv.cutsAt_comma)
      (Nesting.balanced_append hk.balanced (by decide))
      ((Nesting.uncut_append hk.balanced).2
        ⟨hkey.uncut, Nesting.uncutFrom_of_forall (by decide) 0⟩)
  simpa [printField] using hparts

theorem readField?_printField {f : DocType × DocType} (hk : Printable false f.1)
    (hv : Printable false f.2) (hflat : ∀ gs, Occurs (.table gs) f.2 → gs = []) :
    Shape.readField? (printField f) = some (f.1.print, f.2.print) := by
  refine Shape.readField?_eq hk.ne_nil hk.unbroken hv.afterColon? ?_
  rw [Shape.holdsKeyEnd_cons_of_ne (by decide), Shape.holdsKeyEnd_cons_of_ne (by decide)]
  exact (hv.keyFree hflat).holdsKeyEnd

theorem returns_table {fields : List (DocType × DocType)}
    (hkeys : ∀ f ∈ fields, Printable false f.1) (hvalues : ∀ f ∈ fields, Printable false f.2)
    (hflat : ∀ f ∈ fields, ∀ gs, Occurs (.table gs) f.2 → gs = []) :
    Returns (.table fields) ↔ ∀ f ∈ fields, Returns f.1 ∧ Returns f.2 := by
  have hitems : ∀ s ∈ fields.map printField, Nesting.Item (· == ',') s :=
    List.forall_mem_map.2 fun f hf => item_printField (hkeys f hf) (hvalues f hf)
  have hsplit : Nesting.split (· == ',') (commas (fields.map printField)) = fields.map printField :=
    Nesting.split_intercalate (by decide) (by decide) allBlank_space hitems
  have hread : Shape.readOption (print (.table fields)) = .ok (.table ((fields.map printField).map
      fun part => (part, Shape.readField? part))) := by
    have hinside : Nesting.balanced (commas (fields.map printField)) = true :=
      Nesting.balanced_intercalate (by decide) fun s hs => (hitems s hs).balanced
    rw [print, printFields_eq, Shape.readOption_table hinside, hsplit]
  rw [Returns, Printable.parse_of_readOption (.table hkeys hvalues hflat : Printable false _) rfl
    hread, Shape.build_table, map_eq_ok_iff fun _ _ => DocType.table.inj, mapM_eq_ok_iff,
    List.map_map, List.forall₂_map_left_iff, List.forall₂_same]
  refine forall₂_congr fun f hf => ?_
  simp only [Function.comp_apply, Shape.readEntry,
    readField?_printField (hkeys f hf) (hvalues f hf) (hflat f hf)]
  constructor
  · intro h
    obtain ⟨key, hkey, h⟩ := bind_eq_ok h
    obtain ⟨value, hvalue, h⟩ := bind_eq_ok h
    obtain rfl := Except.ok.inj h
    exact ⟨hkey, hvalue⟩
  · rintro ⟨hkey, hvalue⟩
    rw [hkey, hvalue]
    rfl

/-! ### All types -/

/-- A printable type comes back exactly if it is closed. -/
theorem Printable.returns_iff {b : Bool} {t : DocType} (h : Printable b t) :
    Returns t ↔ Closed t := by
  induction h with
  | plain hname hkeep =>
      rw [closed_iff (by simp)]
      exact iff_of_true (returns_plain hname hkeep) (by simp [parts])
  | @optional _ t ht ih =>
      rw [ht.returns_optional, ih, closed_iff (t := .optional t) (by simp)]
      simp [parts]
  | generic hbase hopen hlen hargs ih =>
      rw [returns_generic hbase hopen hlen hargs, closed_iff (by simp)]
      exact forall₂_congr ih
  | union hlen hoptions hflat ih =>
      rw [returns_union hlen hoptions hflat, closed_iff (by simp)]
      exact forall₂_congr ih
  | @function _ params result hparams hlabels hresult hunion hoptional harray ihp ihr =>
      rw [returns_function hparams hlabels hresult hunion hoptional harray, ihr, forall₂_congr ihp,
        closed_iff (t := .function params result) (by simp)]
      simp only [parts, List.forall_mem_append, List.forall_mem_map, List.mem_singleton, forall_eq]
  | @table _ fields hkeys hvalues hflat ihk ihv =>
      have hpairs : (∀ f ∈ fields, Returns f.1 ∧ Returns f.2) ↔
          ∀ f ∈ fields, Closed f.1 ∧ Closed f.2 :=
        forall₂_congr fun f hf => and_congr (ihk f hf) (ihv f hf)
      rw [returns_table hkeys hvalues hflat, hpairs, closed_iff (t := .table fields) (by simp)]
      simp only [parts, List.forall_mem_flatMap, List.forall_mem_cons, List.not_mem_nil,
        false_imp_iff, implies_true, and_true]
  | @array _ t ht ih =>
      rw [ht.returns_array, ih, closed_iff (t := .array t) (by simp)]
      simp [parts]
  | tuple hlen helements hflat hfirst ih =>
      rw [returns_tuple hlen helements hflat hfirst, closed_tuple, forall₂_congr ih]

/-! ### Parts of printable types -/

theorem Printable.weaken {b : Bool} {t : DocType} (h : Printable b t) : Printable true t := by
  cases h with
  | plain hname hkeep => exact .plain hname hkeep
  | optional ht => exact .optional ht
  | generic hbase hopen hlen hargs => exact .generic hbase hopen hlen hargs
  | union hlen hoptions hflat => exact .union hlen hoptions hflat
  | function hparams hlabels hresult hunion hoptional harray =>
      exact .function hparams hlabels hresult hunion hoptional harray
  | table hkeys hvalues hflat => exact .table hkeys hvalues hflat
  | array ht => exact .array ht
  | tuple hlen helements hflat hfirst => exact .tuple hlen helements hflat hfirst

theorem Printable.of_mem_parts {b : Bool} {t u : DocType} (h : Printable b t) (hu : u ∈ parts t) :
    Printable true u := by
  cases h with
  | plain _ _ => simp [parts] at hu
  | optional ht =>
      obtain rfl := List.mem_singleton.1 hu
      exact ht.weaken
  | generic _ _ _ hargs => exact (hargs u hu).weaken
  | union _ hoptions _ => exact (hoptions u hu).weaken
  | function hparams _ hresult _ _ _ =>
      rcases List.mem_append.1 hu with hu | hu
      · obtain ⟨p, hp, rfl⟩ := List.mem_map.1 hu
        exact (hparams p hp).weaken
      · obtain rfl := List.mem_singleton.1 hu
        exact hresult.weaken
  | table hkeys hvalues _ =>
      obtain ⟨f, hf, hu⟩ := List.mem_flatMap.1 hu
      simp only [List.mem_cons, List.not_mem_nil, or_false] at hu
      rcases hu with rfl | rfl
      · exact (hkeys f hf).weaken
      · exact (hvalues f hf).weaken
  | array ht =>
      obtain rfl := List.mem_singleton.1 hu
      exact ht
  | tuple _ helements _ _ => exact (helements u hu).weaken

theorem Printable.of_occurs {s t : DocType} (h : Occurs s t) (ht : Printable true t) :
    Printable true s := by
  induction h with
  | refl => exact ht
  | part hu _ ih => exact ih (ht.of_mem_parts hu)

/-- **The reader undoes the printer exactly on the closed types.**  Whether a tuple is closed shows in
the text of its last element: it ends neither in a question mark nor in square brackets. -/
theorem parse_print_iff {t : DocType} (h : Printable true t) :
    (parse t.format.toList = .ok t ↔ Closed t) ∧
      ∀ elements, Occurs (.tuple elements) t → ∀ e ∈ elements.getLast?,
        endsWith e.format.toList "?".toList = e.isOptional ∧
          endsWith e.format.toList "[]".toList = e.isArray := by
  simp only [format, String.toList_ofList]
  refine ⟨h.returns_iff, fun elements he e hlast => ?_⟩
  cases h.of_occurs he with
  | tuple _ helements hflat _ =>
      have hmem := List.mem_of_getLast? hlast
      exact (helements e hmem).ends (hflat e hmem)

/-- A tuple of a list of tuples and a table. -/
theorem parse_print_of_rows :
    parse "(a, b.c)[], \x7b[k]: v?\x7d".toList =
      .ok (.tuple [.array (.tuple [.plain "a", .plain "b.c"]),
        .table [(.plain "k", .optional (.plain "v"))]]) := by
  have ha : Printable false (.plain "a") := .plain ⟨'a', [], rfl, by decide, by simp⟩ (by decide)
  have hb : Printable false (.plain "b.c") :=
    .plain ⟨'b', ['.', 'c'], rfl, by decide, by decide⟩ (by decide)
  have hk : Printable false (.plain "k") := .plain ⟨'k', [], rfl, by decide, by simp⟩ (by decide)
  have hv : Printable false (.plain "v") := .plain ⟨'v', [], rfl, by decide, by simp⟩ (by decide)
  have hrow : Printable true (.tuple [.plain "a", .plain "b.c"]) := by
    refine .tuple (by simp) (by simp [ha, hb]) (by simp [isUnion]) ?_
    simp only [List.head?_cons, Option.mem_def, Option.some.injEq, forall_eq']
    decide
  have htable : Printable false (.table [(.plain "k", .optional (.plain "v"))]) := by
    refine .table (by simp [hk]) (by simp [Printable.optional hv]) fun f hf gs h => ?_
    obtain rfl := List.mem_singleton.1 hf
    rcases occurs_iff.1 h with heq | ⟨u, hu, h⟩
    · cases heq
    · obtain rfl := List.mem_singleton.1 hu
      rcases occurs_iff.1 h with heq | ⟨u, hu, -⟩
      · cases heq
      · simp [parts] at hu
  have htuple : Printable true (.tuple [.array (.tuple [.plain "a", .plain "b.c"]),
      .table [(.plain "k", .optional (.plain "v"))]]) := by
    refine .tuple (by simp) (by simp [Printable.array hrow, htable]) (by simp [isUnion]) ?_
    simp only [List.head?_cons, Option.mem_def, Option.some.injEq, forall_eq']
    decide
  have hplain : ∀ name, Closed (.plain name) := fun name => (closed_iff (by simp)).2 (by simp [parts])
  have hrow' : Closed (.array (.tuple [.plain "a", .plain "b.c"])) := by
    rw [closed_iff (by simp)]
    simp [parts, closed_tuple, hplain, isOptional, isArray]
  have hvalue : Closed (.optional (.plain "v")) := by
    rw [closed_iff (by simp)]
    simp [parts, hplain]
  have htable' : Closed (.table [(.plain "k", .optional (.plain "v"))]) := by
    rw [closed_iff (by simp)]
    simp [parts, hplain, hvalue]
  refine (parse_print_iff htuple).1.2 ?_
  rw [closed_tuple]
  simp [hrow', htable', isOptional, isArray]

end LuaAmbient.DocType
