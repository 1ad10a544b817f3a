/-
**Where the names in a type come from.**

A text is taken apart into its components down to the words that stand for types.  Some words are
replaced by others, all of which TypeScript knows by itself, and every other name is a part of the
text as it stands there.

Main definitions:

* `LuaAmbient.DocType.StandsIn` — a name that is known or a part of a text.

Main results:

* `LuaAmbient.DocType.Shape.infix_of_mem_components` — the components of a form are parts of the text;
* `LuaAmbient.DocType.standsIn_of_parse`, `LuaAmbient.DocType.infix_of_mem_names` — **a name that may
  need an import or a stub is a part of the text**.
-/

import LuaAmbient.Proofs.DocType.Reading
import LuaAmbient.Proofs.Nesting.Parts
import LuaAmbient.TypeScript.TypeText

set_option relaxedAutoImplicit false
set_option autoImplicit false

namespace LuaAmbient.DocType

open LuaAmbient.Text

/-! ### Names in lists of types -/

theorem mentionedList_eq (ts : List DocType) :
    TypeScript.mentionedList ts = ts.flatMap TypeScript.mentioned := by
  induction ts with
  | nil => rfl
  | cons t ts ih => rw [TypeScript.mentionedList, ih, List.flatMap_cons]

theorem mentionedParams_eq (ps : List (Label × DocType)) :
    TypeScript.mentionedParams ps = ps.flatMap fun p => TypeScript.mentioned p.2 := by
  induction ps with
  | nil => rfl
  | cons p ps ih => rw [TypeScript.mentionedParams, ih, List.flatMap_cons]

theorem mentionedFields_eq (fs : List (DocType × DocType)) :
    TypeScript.mentionedFields fs =
      fs.flatMap fun f => TypeScript.mentioned f.1 ++ TypeScript.mentioned f.2 := by
  induction fs with
  | nil => rfl
  | cons f fs ih => rw [TypeScript.mentionedFields, ih, List.flatMap_cons]

namespace Shape

/-! ### Parts of a text -/

theorem infix_of_afterColon? {s v : List Char} (h : afterColon? s = some v) : v <:+: s := by
  obtain ⟨b, b', -, -, rfl, -⟩ := afterColon?_eq_some_iff.1 h
  exact ⟨b ++ ':' :: b', [], by simp⟩

theorem infix_of_readParam {s t : List Char} (h : (readParam s).2 = some t) : t <:+: s := by
  rcases readParam_cases s with ⟨-, hs⟩ | ⟨rest, u, rfl, hu, hs⟩ | ⟨-, hs⟩ |
    ⟨name, rest, u, -, rfl, hu, hs⟩ | hs
  · simp [hs] at h
  · rw [hs] at h
    obtain rfl := Option.some.inj h
    exact (infix_of_afterColon? hu).trans (List.suffix_append ['.', '.', '.'] rest).isInfix
  · simp [hs] at h
  · rw [hs] at h
    obtain rfl := Option.some.inj h
    exact (infix_of_afterColon? hu).trans (List.suffix_append name rest).isInfix
  · rw [hs] at h
    obtain rfl := Option.some.inj h
    exact List.infix_refl s

theorem infix_of_readField? {s k v : List Char} (h : readField? s = some (k, v)) :
    k <:+: s ∧ v <:+: s := by
  obtain ⟨rest, rfl, -, hv⟩ := readField?_cases h
  refine ⟨⟨['['], ']' :: rest, by simp⟩, (infix_of_afterColon? hv).trans ?_⟩
  exact ⟨'[' :: (k ++ [']']), [], by simp⟩

/-- The types of the parameters between the parentheses of a function type. -/
theorem infix_of_mem_params {s u : List Char}
    (h : u ∈ ((Nesting.split (· == ',') s).map readParam).filterMap (·.2)) : u <:+: s := by
  obtain ⟨p, hp, hu⟩ := List.mem_filterMap.1 h
  obtain ⟨part, hpart, rfl⟩ := List.mem_map.1 hp
  exact (infix_of_readParam hu).trans (Nesting.infix_of_mem_split hpart)

/-- The types of the keys and of the values between the braces of a table. -/
theorem infix_of_mem_fields {s u : List Char}
    (h : u ∈ (Shape.table ((Nesting.split (· == ',') s).map fun part =>
      (part, readField? part))).components) : u <:+: s := by
  obtain ⟨e, he, hu⟩ := List.mem_flatMap.1 h
  obtain ⟨part, hpart, rfl⟩ := List.mem_map.1 he
  have hs : part <:+: s := Nesting.infix_of_mem_split hpart
  simp only at hu
  split at hu
  · next key value hfield =>
    obtain ⟨hkey, hvalue⟩ := infix_of_readField? hfield
    simp only [List.mem_cons, List.not_mem_nil, or_false] at hu
    rcases hu with rfl | rfl
    · exact hkey.trans hs
    · exact hvalue.trans hs
  · simp at hu

/-- The components of a form are parts of the text. -/
theorem Forms.infix_of_mem {s : List Char} {shape : Shape} (h : Forms s shape) :
    ∀ t ∈ shape.components, t <:+: s := by
  cases h with
  | plain => simp [components]
  | optional t =>
      intro u hu
      obtain rfl := List.mem_singleton.1 hu
      exact (List.prefix_append u ['?']).isInfix
  | tuple hcut => exact fun t ht => Nesting.infix_of_mem_split ht
  | array t =>
      intro u hu
      obtain rfl := List.mem_singleton.1 hu
      exact (List.prefix_append u ['[', ']']).isInfix
  | @group k t _ =>
      intro u hu
      obtain rfl := List.mem_singleton.1 hu
      exact ⟨['('], [k], rfl⟩
  | @table k t _ =>
      intro u hu
      exact (infix_of_mem_fields hu).trans ⟨['{'], [k], rfl⟩
  | bare => simp [components]
  | @function b inside behind k result _ _ hresult =>
      intro u hu
      rcases List.mem_append.1 hu with hu | hu
      · rcases hresult with ⟨-, rfl⟩ | ⟨t, ht, rfl⟩
        · simp at hu
        · obtain rfl : u = t := by simpa using hu
          have hbehind : u <:+: behind :=
            (List.suffix_cons ':' u).isInfix.trans (ht ▸ infix_strip behind)
          exact hbehind.trans ⟨'f' :: 'u' :: 'n' :: (b ++ '(' :: (inside ++ [k])), [], by simp⟩
      · exact (infix_of_mem_params hu).trans
          ⟨'f' :: 'u' :: 'n' :: (b ++ ['(']), k :: behind, by simp⟩
  | @generic base b args _ _ =>
      intro u hu
      have hargs : u <:+: args :=
        Nesting.infix_of_mem_split (show u ∈ Nesting.split (· == ',') args from hu)
      exact hargs.trans ⟨base ++ b ++ ['<'], ['>'], by simp⟩

/-- The word that a form stands for or that its arguments are given to. -/
def word : Shape → List Char
  | .plain text => text
  | .generic base _ => base
  | _ => []

theorem Forms.infix_word {s : List Char} {shape : Shape} (h : Forms s shape) : shape.word <:+: s := by
  cases h with
  | plain => exact List.infix_refl s
  | @generic base b args _ _ => exact ⟨[], b ++ '<' :: (args ++ ['>']), by simp [word]⟩
  | _ => exact List.nil_infix

section Read

variable {text : List Char} {shape : Shape} (h : read text = .ok shape)

include h

theorem infix_of_mem_components : ∀ t ∈ shape.components, t <:+: text := by
  intro t ht
  obtain ⟨-, ⟨rfl, -⟩ | ⟨s, hs, hforms⟩⟩ := read_cases h
  · exact (Nesting.infix_of_mem_split ht).trans (infix_strip text)
  · have hoption : s <:+: strip text :=
      Nesting.infix_of_mem_split (hs ▸ List.mem_singleton_self s)
    exact (hforms.infix_of_mem t ht).trans (hoption.trans (infix_strip text))

theorem infix_word : shape.word <:+: text := by
  obtain ⟨-, ⟨rfl, -⟩ | ⟨s, hs, hforms⟩⟩ := read_cases h
  · exact List.nil_infix
  · have hoption : s <:+: strip text :=
      Nesting.infix_of_mem_split (hs ▸ List.mem_singleton_self s)
    exact hforms.infix_word.trans (hoption.trans (infix_strip text))

end Read

end Shape

/-! ### Names -/

/-- A name that TypeScript knows by itself, or a part of a text. -/
def StandsIn (text : List Char) (n : String) : Prop :=
  TypeScript.isInternal n = true ∨ n.toList <:+: text

/-- The names in a type are known or parts of a text. -/
def NamesStandIn (text : List Char) (t : DocType) : Prop :=
  ∀ n ∈ TypeScript.mentioned t, StandsIn text n

theorem namesStandIn_any (text : List Char) : NamesStandIn text any := by
  intro n hn
  obtain rfl := List.mem_singleton.1 hn
  exact .inl rfl

theorem namesStandIn_void (text : List Char) : NamesStandIn text void := by
  intro n hn
  obtain rfl := List.mem_singleton.1 hn
  exact .inl rfl

/-- A word that stands for a type is replaced by words that are known, or it loses its ending. -/
theorem namesStandIn_canonical (text : List Char) : NamesStandIn text (canonical text) := by
  rw [canonical]
  split
  · intro n hn
    simp only [openTable, any, TypeScript.mentioned, TypeScript.mentionedList, List.mem_cons,
      List.mem_append, List.not_mem_nil, or_false] at hn
    rcases hn with rfl | rfl | rfl
    · exact .inl rfl
    · exact .inl rfl
    · exact .inl rfl
  · intro n hn
    obtain rfl := List.mem_singleton.1 hn
    rw [primitive]
    split
    · exact .inl rfl
    · split
      · exact .inl rfl
      · refine .inr ?_
        rw [String.toList_ofList]
        exact (prefix_dropSuffix text _).isInfix

theorem namesStandIn_of_mem {text : List Char} {ts : List DocType}
    (h : ∀ t ∈ ts, NamesStandIn text t) : ∀ n ∈ TypeScript.mentionedList ts, StandsIn text n := by
  intro n hn
  rw [mentionedList_eq] at hn
  obtain ⟨t, ht, hn⟩ := List.mem_flatMap.1 hn
  exact h t ht n hn

theorem namesStandIn_function {text : List Char} {ps : List (Label × DocType)} {r : DocType}
    (hps : ∀ p ∈ ps, NamesStandIn text p.2) (hr : NamesStandIn text r) :
    NamesStandIn text (.function ps r) := by
  intro n hn
  rw [TypeScript.mentioned, mentionedParams_eq, List.mem_append] at hn
  rcases hn with hn | hn
  · obtain ⟨p, hp, hn⟩ := List.mem_flatMap.1 hn
    exact hps p hp n hn
  · exact hr n hn

theorem namesStandIn_table {text : List Char} {fs : List (DocType × DocType)}
    (h : ∀ f ∈ fs, NamesStandIn text f.1 ∧ NamesStandIn text f.2) :
    NamesStandIn text (.table fs) := by
  intro n hn
  rw [TypeScript.mentioned, mentionedFields_eq] at hn
  obtain ⟨f, hf, hn⟩ := List.mem_flatMap.1 hn
  rcases List.mem_append.1 hn with hn | hn
  · exact (h f hf).1 n hn
  · exact (h f hf).2 n hn

section Build

variable {parse : List Char → Except Fault DocType} {text : List Char}

/-- A type that may be left out is read, or it is the one that stands for it. -/
theorem namesStandIn_of_readOr {other t : DocType} {o : Option (List Char)}
    (hother : NamesStandIn text other) (ho : ∀ u ∈ o, ∀ t, parse u = .ok t → NamesStandIn text t)
    (h : Shape.readOr parse other o = .ok t) : NamesStandIn text t := by
  cases o with
  | none =>
      obtain rfl := Except.ok.inj h
      exact hother
  | some u => exact ho u rfl t h

theorem namesStandIn_of_readEntry {e : List Char × Option (List Char × List Char)}
    {f : DocType × DocType}
    (he : ∀ kv ∈ e.2, ∀ u ∈ [kv.1, kv.2], ∀ t, parse u = .ok t → NamesStandIn text t)
    (h : Shape.readEntry parse e = .ok f) : NamesStandIn text f.1 ∧ NamesStandIn text f.2 := by
  obtain ⟨part, o⟩ := e
  cases o with
  | none => exact absurd h (by simp [Shape.readEntry])
  | some kv =>
      obtain ⟨key, hkey, h⟩ := bind_eq_ok h
      obtain ⟨value, hvalue, h⟩ := bind_eq_ok h
      obtain rfl := Except.ok.inj h
      exact ⟨he kv rfl kv.1 (by simp) key hkey, he kv rfl kv.2 (by simp) value hvalue⟩

/-- A type is put together from its word and from the types of its components. -/
theorem namesStandIn_of_build {shape : Shape} {t : DocType} (hword : shape.word <:+: text)
    (hparts : ∀ u ∈ shape.components, ∀ t, parse u = .ok t → NamesStandIn text t)
    (h : shape.build parse = .ok t) : NamesStandIn text t := by
  cases shape with
  | plain s =>
      obtain rfl := Except.ok.inj h
      intro n hn
      exact (namesStandIn_canonical s n hn).imp_right fun hs => hs.trans hword
  | optional u =>
      obtain ⟨t', ht', h⟩ := bind_eq_ok h
      obtain rfl := Except.ok.inj h
      exact hparts u (List.mem_singleton_self u) t' ht'
  | generic base texts =>
      obtain ⟨args, hargs, h⟩ := bind_eq_ok h
      obtain rfl := Except.ok.inj h
      intro n hn
      rw [TypeScript.mentioned, List.mem_cons] at hn
      rcases hn with rfl | hn
      · split
        · exact .inl rfl
        · exact .inr (by rwa [String.toList_ofList])
      · exact namesStandIn_of_mem (forall_of_mapM_eq_ok hargs hparts) n hn
  | union texts =>
      obtain ⟨ts, hts, h⟩ := bind_eq_ok h
      obtain rfl := Except.ok.inj h
      exact namesStandIn_of_mem (forall_of_mapM_eq_ok hts hparts)
  | array u =>
      obtain ⟨t', ht', h⟩ := bind_eq_ok h
      obtain rfl := Except.ok.inj h
      exact hparts u (List.mem_singleton_self u) t' ht'
  | tuple texts =>
      obtain ⟨ts, hts, h⟩ := bind_eq_ok h
      obtain rfl := Except.ok.inj h
      exact namesStandIn_of_mem (forall_of_mapM_eq_ok hts hparts)
  | group u => exact hparts u (List.mem_singleton_self u) t h
  | function params result =>
      rw [Shape.build_function] at h
      obtain ⟨r, hr, h⟩ := bind_eq_ok h
      obtain ⟨ps, hps, h⟩ := bind_eq_ok h
      obtain rfl := Except.ok.inj h
      refine namesStandIn_function (forall_of_mapM_eq_ok hps ?_)
        (namesStandIn_of_readOr (namesStandIn_void text) ?_ hr)
      · intro p hp b hb
        obtain ⟨t', ht', hb⟩ := bind_eq_ok hb
        obtain rfl := Except.ok.inj hb
        refine namesStandIn_of_readOr (namesStandIn_any text) ?_ ht'
        intro u hu
        exact hparts u (List.mem_append_right _ (List.mem_filterMap.2 ⟨p, hp, hu⟩))
      · intro u hu
        exact hparts u (List.mem_append_left _ (Option.mem_toList.2 hu))
  | table entries =>
      rw [Shape.build_table] at h
      obtain ⟨fs, hfs, h⟩ := bind_eq_ok h
      obtain rfl := Except.ok.inj h
      refine namesStandIn_table (forall_of_mapM_eq_ok hfs ?_)
      intro e he f hf
      refine namesStandIn_of_readEntry ?_ hf
      intro kv hkv u hu
      refine hparts u (List.mem_flatMap.2 ⟨e, he, ?_⟩)
      rw [Option.mem_def.1 hkv]
      exact hu

end Build

/-- The names in a type that is read are known or parts of the text. -/
theorem standsIn_of_parse {text : List Char} {t : DocType} (h : parse text = .ok t) :
    NamesStandIn text t := by
  -- the induction is on the text, whose components are shorter and parts of it
  generalize hn : text.length = n
  induction n using Nat.strongRecOn generalizing text t with
  | _ n ih =>
      rw [parse_eq] at h
      obtain ⟨shape, hread, hbuild⟩ := bind_eq_ok h
      refine namesStandIn_of_build (Shape.infix_word hread) ?_ hbuild
      intro u hu t' ht' m hm
      have hlt := Shape.length_lt_of_mem_components hread u hu
      have hpart := Shape.infix_of_mem_components hread u hu
      exact (ih u.length (hn ▸ hlt) ht' rfl m hm).imp_right fun hs => hs.trans hpart

/-- A name that may need an import or a stub is a part of the text. -/
theorem infix_of_mem_names {text : List Char} {t : DocType} (h : parse text = .ok t) {n : String}
    (hn : n ∈ TypeScript.names t) : n.toList <:+: text := by
  obtain ⟨hmem, hforeign⟩ := List.mem_filter.1 hn
  have hknown : TypeScript.isInternal n = false := by
    simp only [TypeScript.mayBeForeign, Bool.and_eq_true, Bool.not_eq_true'] at hforeign
    exact hforeign.1.2
  rcases standsIn_of_parse h n hmem with hin | hin
  · rw [hknown] at hin
    exact absurd hin Bool.false_ne_true
  · exact hin

end LuaAmbient.DocType
