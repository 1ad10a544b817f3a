/-
**Where the names in directives come from.**

A directive gives types, and the names in them that may need an import or a stub stand on the line of
the directive or, if it is an alias, on a line of the same block with one of its variants.

Main definitions:

* `LuaAmbient.Directive.Body.typeNames` — the names in the types that a directive gives;
* `LuaAmbient.Directive.StandsOn` — a name that stands on one of several lines.

Main results:

* `LuaAmbient.Directive.infix_of_tagged?`, `LuaAmbient.Directive.infix_memberName`,
  `LuaAmbient.Directive.infix_variantType` — the pieces of a line are parts of it;
* `LuaAmbient.Directive.standsOn_of_readLine` — the names of one line with the variants below it;
* `LuaAmbient.Directive.standsOn_of_parseLines` — **the names in a block stand on its lines**.
-/

import LuaAmbient.Directive.Parser
import LuaAmbient.Proofs.DocType.Names

set_option relaxedAutoImplicit false
set_option autoImplicit false

namespace LuaAmbient.Directive

open LuaAmbient.Text

/-! ### Names of directives -/

/-- The names in the types that stand behind the colon of a class annotation. -/
def Parent.typeNames : Parent → List String
  | .none => []
  | .named text =>
    match DocType.parse text.toList with
    | .ok t => TypeScript.names t
    | .error _ => []
  | .shape fields => TypeScript.shapeNames fields

/-- The names in the types that a directive gives. -/
def Body.typeNames : Body → List String
  | .param _ t _ | .returns t _ | .field _ t _ | .aliasOf _ t => TypeScript.names t
  | .classHeader header => header.parent.typeNames
  | .enum _ | .generic _ | .metaFile | .comment _ => []

/-- A name stands on one of the lines. -/
def StandsOn (ls : List Line) (name : String) : Prop :=
  ∃ l ∈ ls, name.toList <:+: l.text

/-! ### Pieces of a line -/

theorem infix_splitAtBlank (sep : Char) (s : List Char) :
    (splitAtBlank sep s).1 <:+: s ∧ (splitAtBlank sep s).2 <:+: s := by
  rw [splitAtBlank]
  split
  · next a b h =>
    obtain ⟨ha, hb⟩ := infix_of_splitFirst? h
    exact ⟨(infix_strip a).trans ha, (infix_strip b).trans hb⟩
  · exact ⟨infix_strip s, List.nil_infix⟩

theorem infix_dropAttributes (s : List Char) : dropAttributes s <:+: s := by
  simp only [dropAttributes]
  split
  · next rest hs =>
    split
    · next behind hbehind =>
      have hrest : ')' :: behind <:+ rest := hbehind ▸ List.dropWhile_suffix _
      have hstrip : rest <:+ strip s := hs ▸ List.suffix_cons '(' rest
      have htail : stripLeft behind <:+ strip s :=
        (suffix_stripLeft behind).trans (((List.suffix_cons ')' behind).trans hrest).trans hstrip)
      exact htail.isInfix.trans (infix_strip s)
    · exact infix_strip s
  · exact infix_strip s

/-- What stands behind the name of a parameter or of a field. -/
theorem infix_memberName (isField : Bool) (s : List Char) : (memberName isField s).2 <:+: s := by
  have hrest := (infix_splitAtBlank ' ' s).2
  simp only [memberName]
  split
  · exact (infix_splitAtBlank ' ' _).2.trans hrest
  · exact hrest

theorem prefix_beforeDescription (s : List Char) : beforeDescription s <+: s := by
  induction s with
  | nil => exact List.prefix_refl []
  | cons c s ih =>
      rw [beforeDescription]
      split
      · exact List.nil_prefix
      · exact List.cons_prefix_cons.2 ⟨rfl, ih⟩

/-- The type of a variant. -/
theorem infix_variantType (l : Line) : variantType l <:+: l.text := by
  have hvariant : strip l.variantText <:+: l.text :=
    (infix_strip _).trans (List.drop_suffix 4 l.text).isInfix
  simp only [variantType]
  split
  · exact List.nil_infix
  · exact (infix_strip _).trans ((prefix_beforeDescription _).isInfix.trans hvariant)

/-- What stands behind a tag. -/
theorem infix_of_tagged? {l : Line} {tag : String} {s : List Char}
    (h : l.tagged? = some (tag, s)) : s <:+: l.text := by
  rw [Line.tagged?] at h
  split at h
  · next rest hl =>
    obtain ⟨-, rfl⟩ := Prod.mk.inj (Option.some.inj h)
    have hrest : rest <:+: l.text := ⟨['-', '-', '-', '@'], [], by simp [hl]⟩
    exact (infix_splitAtBlank ' ' _).2.trans ((infix_strip rest).trans hrest)
  · exact absurd h (by simp)

/-! ### Annotations -/

theorem parse_of_readType {l : Line} {s : List Char} {t : DocType} (h : l.readType s = .ok t) :
    DocType.parse s = .ok t := by
  rw [Line.readType] at h
  split at h
  · next t' ht =>
    obtain rfl := Except.ok.inj h
    exact ht
  · exact absurd h (by simp)

theorem infix_of_readMember {l : Line} {isField : Bool} {s : List Char} {body : Body}
    (h : readMember l isField s = .ok body) : ∀ n ∈ body.typeNames, n.toList <:+: s := by
  simp only [readMember] at h
  split at h
  · exact absurd h (by simp)
  · split at h
    · exact absurd h (by simp)
    · next t ht =>
      intro n hn
      have hnames : n ∈ TypeScript.names t := by
        rw [← Except.ok.inj h] at hn
        cases isField <;> exact hn
      exact (DocType.infix_of_mem_names ht hnames).trans
        ((Nesting.infix_of_splitDescription _).trans (infix_memberName isField s))

theorem infix_of_readReturn {l : Line} {s : List Char} {body : Body} (h : readReturn l s = .ok body) :
    ∀ n ∈ body.typeNames, n.toList <:+: s := by
  obtain ⟨t, ht, h⟩ := bind_eq_ok h
  obtain rfl := Except.ok.inj h
  intro n hn
  exact (DocType.infix_of_mem_names (parse_of_readType ht) hn).trans
    (Nesting.infix_of_splitDescription s)

theorem infix_of_readParent {l : Line} {s : List Char} {parent : Parent}
    (h : readParent l s = .ok parent) : ∀ n ∈ parent.typeNames, n.toList <:+: s := by
  rw [readParent.eq_def] at h
  split at h
  · obtain rfl := Except.ok.inj h
    simp [Parent.typeNames]
  · obtain ⟨t, ht, h⟩ := bind_eq_ok h
    split at h
    · obtain rfl := Except.ok.inj h
      exact fun n hn => DocType.infix_of_mem_names (parse_of_readType ht) hn
    · exact absurd h (by simp)
  · obtain rfl := Except.ok.inj h
    intro n hn
    rw [Parent.typeNames, String.toList_ofList] at hn
    split at hn
    · next t ht => exact DocType.infix_of_mem_names ht hn
    · simp at hn

theorem infix_of_readClass {l : Line} {s : List Char} {body : Body} (h : readClass l s = .ok body) :
    ∀ n ∈ body.typeNames, n.toList <:+: s := by
  simp only [readClass] at h
  split at h
  · exact absurd h (by simp)
  · obtain ⟨parent, hparent, h⟩ := bind_eq_ok h
    obtain rfl := Except.ok.inj h
    intro n hn
    exact (infix_of_readParent hparent n hn).trans
      ((Nesting.infix_of_partition _ _).2.trans (infix_dropAttributes s))

theorem mentioned_unionOf (ts : List DocType) :
    TypeScript.mentioned (unionOf ts) = TypeScript.mentionedList ts := by
  rw [unionOf.eq_def]
  split
  · rw [TypeScript.mentionedList, TypeScript.mentionedList, List.append_nil]
  · rfl

/-- The names of an alias stand behind its own or in one of the variants below it. -/
theorem infix_of_readAlias {l : Line} {variants : List Line} {s : List Char} {body : Body}
    (h : readAlias l variants s = .ok body) :
    ∀ n ∈ body.typeNames, n.toList <:+: s ∨ StandsOn variants n := by
  simp only [readAlias] at h
  intro n hn
  split at h
  · obtain ⟨t, ht, h⟩ := bind_eq_ok h
    obtain rfl := Except.ok.inj h
    exact .inl ((DocType.infix_of_mem_names (parse_of_readType ht) hn).trans
      (infix_splitAtBlank ' ' s).2)
  · obtain ⟨ts, hts, h⟩ := bind_eq_ok h
    obtain rfl := Except.ok.inj h
    refine .inr ?_
    obtain ⟨hmem, hforeign⟩ := List.mem_filter.1 hn
    rw [mentioned_unionOf, DocType.mentionedList_eq] at hmem
    obtain ⟨t, ht, hmem⟩ := List.mem_flatMap.1 hmem
    -- each option is the type of a variant
    have hstands : ∀ t ∈ ts, ∀ n ∈ TypeScript.names t, StandsOn variants n := by
      refine forall_of_mapM_eq_ok hts ?_
      intro v hv t ht n hn
      exact ⟨v, (List.mem_filter.1 hv).1,
        (DocType.infix_of_mem_names (parse_of_readType ht) hn).trans (infix_variantType v)⟩
    exact hstands t ht n (List.mem_filter.2 ⟨hmem, hforeign⟩)

theorem infix_of_readTag {l : Line} {variants : List Line} {tag : String} {s : List Char}
    {body : Body} (h : readTag l variants tag s = .ok (some body)) :
    ∀ n ∈ body.typeNames, n.toList <:+: s ∨ StandsOn variants n := by
  rw [readTag.eq_def] at h
  split at h
  · obtain rfl := Option.some.inj (Except.ok.inj h)
    simp [Body.typeNames]
  · obtain rfl := Option.some.inj (Except.ok.inj h)
    simp [Body.typeNames]
  · exact infix_of_readAlias (eq_ok_of_map_some h)
  · exact fun n hn => .inl (infix_of_readClass (eq_ok_of_map_some h) n hn)
  · obtain rfl := Option.some.inj (Except.ok.inj h)
    simp [Body.typeNames]
  · exact fun n hn => .inl (infix_of_readMember (eq_ok_of_map_some h) n hn)
  · exact fun n hn => .inl (infix_of_readMember (eq_ok_of_map_some h) n hn)
  · exact fun n hn => .inl (infix_of_readReturn (eq_ok_of_map_some h) n hn)
  · exact absurd (Except.ok.inj h) (by simp)

/-! ### Lines -/

theorem typeNames_of_readUntagged {l : Line} {body : Body} (h : readUntagged l = some body) :
    body.typeNames = [] := by
  rw [readUntagged] at h
  split at h
  · exact absurd h (by simp)
  · obtain rfl := Option.some.inj h
    rfl
  · exact absurd h (by simp)

/-- The names of a line stand on it or on one of the variants below it. -/
theorem standsOn_of_readLine {l : Line} {variants : List Line} {d : Directive}
    (h : readLine l variants = .ok (some d)) :
    ∀ n ∈ d.body.typeNames, StandsOn (l :: variants) n := by
  obtain ⟨o, ho, h⟩ := bind_eq_ok h
  obtain ⟨body, rfl, rfl⟩ := Option.map_eq_some_iff.1 (Except.ok.inj h)
  intro n hn
  rw [readBody] at ho
  split at ho
  · next tag s htag =>
    rcases infix_of_readTag ho n hn with hs | ⟨v, hv, hs⟩
    · exact ⟨l, List.mem_cons_self, hs.trans (infix_of_tagged? htag)⟩
    · exact ⟨v, List.mem_cons_of_mem l hv, hs⟩
  · rw [typeNames_of_readUntagged (Except.ok.inj ho)] at hn
    simp at hn

/-- The names in a block stand on its lines. -/
theorem standsOn_of_parseLines {ls : List Line} {ds : List Directive} (h : parseLines ls = .ok ds) :
    ∀ d ∈ ds, ∀ n ∈ d.body.typeNames, StandsOn ls n := by
  induction ls generalizing ds with
  | nil =>
      obtain rfl := Except.ok.inj h
      simp
  | cons l ls ih =>
      rw [parseLines] at h
      obtain ⟨o, ho, h⟩ := bind_eq_ok h
      obtain ⟨rest, hrest, h⟩ := bind_eq_ok h
      obtain rfl := Except.ok.inj h
      intro d hd n hn
      rcases List.mem_append.1 hd with hd | hd
      · obtain rfl := Option.mem_toList.1 hd
        obtain ⟨m, hm, hs⟩ := standsOn_of_readLine ho n hn
        refine ⟨m, ?_, hs⟩
        -- the variants are lines below
        rcases List.mem_cons.1 hm with rfl | hm
        · exact List.mem_cons_self
        · exact List.mem_cons_of_mem l ((List.takeWhile_prefix _).subset hm)
      · obtain ⟨m, hm, hs⟩ := ih hrest d hd n hn
        exact ⟨m, List.mem_cons_of_mem l hm, hs⟩

end LuaAmbient.Directive
