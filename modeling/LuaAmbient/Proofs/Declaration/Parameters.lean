/-
**The parameters of a definition without annotations.**

Without parameter annotations, the signature of a definition has the parameters of the parameter list.
They are held by name, and a name that is reserved gets an underscore, so a parameter is lost where two of
them end up with one name.

Main definitions:

* `LuaAmbient.Lua.IsParameterList` — names, and perhaps three dots behind them;
* `LuaAmbient.FunctionDecl.shownNames` — the names of parameters in a signature;
* `LuaAmbient.Lua.HasDistinctParams` — no two parameters end up with one name.

Main results:

* `LuaAmbient.Definition.keys_params_signature` — the names of the parameters of a definition;
* `LuaAmbient.FunctionDecl.nodup_shownNames_iff` — when all of them have names of their own;
* `LuaAmbient.Definition.keeps_params_iff` — **no parameter is lost exactly if no two end up with one
  name**.
-/

import LuaAmbient.Lua.Token
import LuaAmbient.Proofs.Declaration.Definition
import LuaAmbient.Proofs.Keyed
import Mathlib.Data.List.Nodup
import Mathlib.Tactic.Common

set_option relaxedAutoImplicit false
set_option autoImplicit false

namespace LuaAmbient

open LuaAmbient.Keyed

/-! ### Names of parameters -/

/-- A text of the characters of names; every name is one. -/
def Lua.IsName (n : String) : Prop :=
  n ≠ "" ∧ ∀ c ∈ n.toList, Lua.isNameChar c = true

instance (n : String) : Decidable (Lua.IsName n) :=
  inferInstanceAs (Decidable (_ ∧ _))

/-- A parameter list: names, and perhaps three dots behind them. -/
def Lua.IsParameterList (params : List String) : Prop :=
  ∃ names rest, params = names ++ rest ∧ (∀ n ∈ names, Lua.IsName n) ∧
    (rest = [] ∨ rest = ["..."])

/-- Apart from `self`, no parameter is listed twice, and none is named like another one that is
reserved and therefore gets an underscore. -/
def Lua.HasDistinctParams (params : List String) : Prop :=
  (params.filter (· != "self")).Nodup ∧
    ∀ n ∈ params, n ∈ TypeScript.reserved → n ++ "_" ∉ params

instance (params : List String) : Decidable (Lua.HasDistinctParams params) :=
  inferInstanceAs (Decidable (_ ∧ _))

namespace FunctionDecl

open TypeScript

/-- The name of a parameter in a signature. -/
def shownName (n : String) : String :=
  if n = "..." then restName else parameterName n

/-- The names of parameters in a signature.  The parameter `self` is not among them. -/
def shownNames (params : List String) : List String :=
  (params.filter (· != "self")).map shownName

@[simp] theorem shownName_dots : shownName "..." = restName := rfl

theorem shownName_of_ne {n : String} (h : n ≠ "...") : shownName n = parameterName n :=
  if_neg h

theorem parameterName_of_mem {n : String} (h : n ∈ reserved) : parameterName n = n ++ "_" := by
  simp [parameterName, h]

theorem parameterName_of_not_mem {n : String} (h : n ∉ reserved) : parameterName n = n := by
  simp [parameterName, h]

/-- An underscore makes a reserved word one that is not reserved. -/
theorem append_underscore_not_mem {n : String} (h : n ∈ reserved) : n ++ "_" ∉ reserved :=
  (by decide : ∀ n ∈ reserved, n ++ "_" ∉ reserved) n h

/-- Two parameters end up with one name if they have one, or if one of them is reserved and the other
one has the name that it gets. -/
theorem parameterName_eq_iff {m n : String} : parameterName m = parameterName n ↔
    m = n ∨ (m ∈ reserved ∧ n = m ++ "_") ∨ (n ∈ reserved ∧ m = n ++ "_") := by
  by_cases hm : m ∈ reserved
  · rw [parameterName_of_mem hm]
    by_cases hn : n ∈ reserved
    · rw [parameterName_of_mem hn]
      have hmn : n ≠ m ++ "_" := fun h => append_underscore_not_mem hm (h ▸ hn)
      have hnm : m ≠ n ++ "_" := fun h => append_underscore_not_mem hn (h ▸ hm)
      simp [hmn, hnm, String.append_left_inj]
    · rw [parameterName_of_not_mem hn]
      have hne : m ≠ n := fun h => hn (h ▸ hm)
      simp [hm, hn, hne, eq_comm]
  · rw [parameterName_of_not_mem hm]
    by_cases hn : n ∈ reserved
    · rw [parameterName_of_mem hn]
      have hne : m ≠ n := fun h => hm (h ▸ hn)
      simp [hm, hn, hne]
    · rw [parameterName_of_not_mem hn]
      simp [hm, hn]

theorem ne_dots_of_isName {n : String} (h : Lua.IsName n) : n ≠ "..." := by
  rintro rfl
  exact absurd (h.2 '.' (by decide)) (by decide)

/-- No name ends up as the name of the rest. -/
theorem parameterName_ne_restName {n : String} (h : Lua.IsName n) : parameterName n ≠ restName := by
  intro hrest
  have hdot : '.' ∈ (parameterName n).toList := by
    rw [hrest]
    decide
  have hmem : '.' ∈ n.toList := by
    by_cases hn : n ∈ reserved
    · rw [parameterName_of_mem hn, String.toList_append] at hdot
      exact (List.mem_append.1 hdot).resolve_right (by decide)
    · rwa [parameterName_of_not_mem hn] at hdot
  exact absurd (h.2 '.' hmem) (by decide)

end FunctionDecl

namespace Lua.IsParameterList

open FunctionDecl TypeScript

variable {params : List String} (h : Lua.IsParameterList params)

include h

theorem eq_dots_or_isName {n : String} (hn : n ∈ params) : n = "..." ∨ Lua.IsName n := by
  obtain ⟨names, rest, rfl, hnames, hrest⟩ := h
  rcases List.mem_append.1 hn with hn | hn
  · exact .inr (hnames n hn)
  · rcases hrest with rfl | rfl
    · exact absurd hn (by simp)
    · exact .inl (List.mem_singleton.1 hn)

/-- Two parameters of a list that end up with one name. -/
theorem eq_or_reserved_of_shownName_eq {m n : String} (hm : m ∈ params) (hn : n ∈ params)
    (heq : shownName m = shownName n) :
    m = n ∨ (m ∈ reserved ∧ n = m ++ "_") ∨ (n ∈ reserved ∧ m = n ++ "_") := by
  rcases h.eq_dots_or_isName hm with rfl | hm
  · rcases h.eq_dots_or_isName hn with rfl | hn
    · exact .inl rfl
    · rw [shownName_dots, shownName_of_ne (ne_dots_of_isName hn)] at heq
      exact absurd heq.symm (parameterName_ne_restName hn)
  · rw [shownName_of_ne (ne_dots_of_isName hm)] at heq
    rcases h.eq_dots_or_isName hn with rfl | hn
    · exact absurd heq (parameterName_ne_restName hm)
    · rw [shownName_of_ne (ne_dots_of_isName hn)] at heq
      exact parameterName_eq_iff.1 heq

/-- All parameters of a list have names of their own in the signature exactly if none is listed twice
and none is named like another one that is reserved. -/
theorem nodup_shownNames_iff : (shownNames params).Nodup ↔ Lua.HasDistinctParams params := by
  have hself : ∀ n ∈ reserved, n ≠ "self" ∧ n ++ "_" ≠ "self" ∧ n ≠ "..." ∧ n ++ "_" ≠ "..." := by
    decide
  constructor
  · intro hnodup
    have hkept := hnodup.of_map
    refine ⟨hkept, fun n hn hreserved hother => ?_⟩
    obtain ⟨hne, hne', hdots, hdots'⟩ := hself n hreserved
    -- the underscore gives both parameters the name of the second one
    have heq : shownName n = shownName (n ++ "_") := by
      rw [shownName_of_ne hdots, shownName_of_ne hdots', parameterName_of_mem hreserved,
        parameterName_of_not_mem (append_underscore_not_mem hreserved)]
    have hsame := (List.nodup_map_iff_inj_on hkept).1 hnodup n (by simp [hn, hne]) (n ++ "_")
      (by simp [hother, hne']) heq
    exact append_underscore_not_mem hreserved (hsame ▸ hreserved)
  · rintro ⟨hkept, hfree⟩
    refine (List.nodup_map_iff_inj_on hkept).2 fun m hm n hn heq => ?_
    have hm := (List.mem_filter.1 hm).1
    have hn := (List.mem_filter.1 hn).1
    rcases h.eq_or_reserved_of_shownName_eq hm hn heq with rfl | ⟨hm', rfl⟩ | ⟨hn', rfl⟩
    · rfl
    · exact absurd hn (hfree m hm hm')
    · exact absurd hm (hfree n hn hn')

end Lua.IsParameterList

/-! ### Parameters of a signature -/

namespace Definition

open FunctionDecl

theorem fst_plainParam (n : String) : (Derivation.plainParam n).1 = shownName n := by
  by_cases hn : n = "..."
  · simp [Derivation.plainParam, hn]
  · simp [Derivation.plainParam, shownName, hn]

theorem fst_annotatedParam (p : String × DocType × Option String) :
    (Derivation.annotatedParam p).1 = shownName p.1 := by
  by_cases hp : p.1 = "..."
  · simp [Derivation.annotatedParam, hp]
  · simp [Derivation.annotatedParam, shownName, hp]

theorem keys_paramInfos (d : Definition) : keys d.paramInfos = shownNames d.givenNames := by
  rw [paramInfos, givenNames]
  split
  · simp [keys, shownNames, Function.comp_def, fst_plainParam]
  · simp [keys, shownNames, List.filter_map, Function.comp_def, fst_annotatedParam]

/-- The names of the parameters of a definition in its signature, each where it is given first. -/
def shownParams (d : Definition) : List String :=
  (shownNames d.givenNames).eraseDups

theorem keys_params_signature (d : Definition) : keys d.signature.params = d.shownParams := by
  rw [signature, keys_ofList, keys_paramInfos, shownParams]

/-- **No parameter is lost exactly if no two end up with one name.**  Without parameter annotations, a
statement that defines a function declares it with the distinct ones of the names of its parameters. -/
theorem keeps_params_iff {fileGenerics : List String} {s : Lua.Statement} {b : DocBlock}
    {d : Definition} (hd : Derivation.definition? s b = some d) (hb : b.params = [])
    (hlist : Lua.IsParameterList d.params) :
    ∃ f used, Derivation.ofStatement fileGenerics s b = .ok ⟨[.function f], used⟩ ∧
      keys f.params = (shownNames d.params).eraseDups ∧
      (keys f.params = shownNames d.params ↔ Lua.HasDistinctParams d.params) := by
  obtain rfl := Derivation.block_of_definition hd
  have hgiven : d.givenNames = d.params := by simp [givenNames, hb]
  refine ⟨d.signature, _, Derivation.ofStatement_of_definition hd, ?_, ?_⟩
  · rw [keys_params_signature, shownParams, hgiven]
  · rw [← hlist.nodup_shownNames_iff, ← hgiven, ← keys_paramInfos]
    exact keys_ofList_eq_iff

/-- A function with a parameter that gets the name of another one, and with a parameter that is listed
twice. -/
def crowdedFunction : Lua.Statement :=
  ⟨⟨1, 1, 1, 48⟩,
    .function (.name "f") ["self", "class", "class_", "_", "x", "_", "..."] false⟩

/-- Of the six parameters beside `self`, four are left. -/
theorem keeps_params_of_crowded :
    ∃ f used, Derivation.ofStatement [] crowdedFunction DocBlock.empty =
        .ok ⟨[.function f], used⟩ ∧
      keys f.params = ["class_", "_", "x", "...args"] ∧
      keys f.params ≠ ["class_", "class_", "_", "x", "_", "...args"] := by
  have hlist : Lua.IsParameterList ["self", "class", "class_", "_", "x", "_", "..."] :=
    ⟨["self", "class", "class_", "_", "x", "_"], ["..."], rfl, by decide +kernel, .inr rfl⟩
  obtain ⟨f, used, hf, hkeys, hiff⟩ :=
    @keeps_params_iff [] crowdedFunction DocBlock.empty _ rfl rfl hlist
  refine ⟨f, used, hf, hkeys.trans (by decide +kernel), fun hkept => ?_⟩
  exact absurd (hiff.1 (hkept.trans (by decide +kernel))) (by decide +kernel)

end Definition

end LuaAmbient
