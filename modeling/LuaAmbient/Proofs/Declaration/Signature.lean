/-
**The order of the parameters of a declared function.**

The functions of a file are merged from the definitions of its statements.  What is merged from several
definitions has its parameters in order: required ones, then optional ones, then the rest.  A single
definition keeps the order in which its parameters are annotated, whatever that is; without annotations,
they are in order because parameter lists are.

Main definitions:

* `LuaAmbient.Attachment.definitionsOf` — the definitions of a function in a file;
* `LuaAmbient.FunctionDecl.MayFollow` — a parameter may stand behind another one.

Main results:

* `LuaAmbient.Derivation.functions_ofStatement` — statements declare the functions that they define;
* `LuaAmbient.SourceDeclarations.exists_definitions` — what a function of a file is merged from;
* `LuaAmbient.FunctionDecl.isOrdered_iff_pairwise` — the order of parameters, told pair by pair;
* `LuaAmbient.SourceDeclarations.isOrdered_params_iff` — **the parameters of a function are in order
  exactly if it has several definitions or those of its only one are in order**.
-/

import LuaAmbient.Proofs.Declaration.Classes
import LuaAmbient.Proofs.Declaration.Overload
import LuaAmbient.Proofs.Declaration.Parameters
import LuaAmbient.Proofs.Declaration.Repetition
import LuaAmbient.Proofs.Declaration.UsedNames

set_option relaxedAutoImplicit false
set_option autoImplicit false

namespace LuaAmbient

open LuaAmbient.Keyed

/-! ### The functions that are declared -/

namespace Derivation

variable {fileGenerics : List String} {b : DocBlock} {r : Derivation}

/-- The functions among the declarations. -/
def functions (r : Derivation) : List FunctionDecl :=
  r.declarations.filterMap Declaration.function?

theorem functions_ofClass {line : Int} {header : Directive.ClassHeader}
    {notes : List DocBlock.FieldNote} {table : Option (List Lua.Entry)}
    (h : ofClass fileGenerics b line header notes table = .ok r) : r.functions = [] := by
  obtain ⟨parent, -, hdecl⟩ := declarations_ofClass h
  rw [functions, hdecl]
  rfl

theorem functions_ofAliases (b : DocBlock) : (ofAliases b).functions = [] := by
  simp [functions, ofAliases, Declaration.function?]

theorem functions_ofOrphan (h : ofOrphan fileGenerics b = .ok r) : r.functions = [] := by
  obtain ⟨cs, hdecl, -⟩ := exists_of_ofOrphan h
  have hclasses : (cs.map Declaration.class_).filterMap Declaration.function? = [] := by
    simp [Declaration.function?]
  have haliases := functions_ofAliases b
  rw [functions] at haliases ⊢
  rw [hdecl, List.filterMap_append, hclasses, haliases, List.nil_append]

theorem IsDerived.functions_eq {d? : Option Definition} (h : IsDerived fileGenerics b d? r) :
    r.functions = (d?.map Definition.signature).toList := by
  cases h with
  | definition d => rfl
  | class_ _ h => exact functions_ofClass h
  | orphan h => exact functions_ofOrphan h
  | aliases => exact functions_ofAliases b
  | enum name entries => rfl
  | object name => rfl
  | exports names => simp [functions, Declaration.function?]

/-- A statement declares the function that it defines, and no other. -/
theorem functions_ofStatement {s : Lua.Statement} (h : ofStatement fileGenerics s b = .ok r) :
    r.functions = ((definition? s b).map Definition.signature).toList :=
  (isDerived_ofStatement h).functions_eq

end Derivation

/-! ### Definitions in a file -/

namespace Attachment

/-- The definitions of functions in a file, in order. -/
def definitions (a : Attachment) : List Definition :=
  a.attached.filterMap fun p => Derivation.definition? p.1 p.2

/-- The definitions of one function in a file. -/
def definitionsOf (a : Attachment) (name : String) : List Definition :=
  a.definitions.filter (·.qualifiedName == name)

variable {a : Attachment} {parts : List Derivation}

theorem functions_of_forall₂ {ps : List (Lua.Statement × DocBlock)} {fileGenerics : List String}
    (h : List.Forall₂ (fun p r => Derivation.ofStatement fileGenerics p.1 p.2 = .ok r) ps parts) :
    parts.flatMap (·.functions) =
      (ps.filterMap fun p => Derivation.definition? p.1 p.2).map Definition.signature := by
  induction h with
  | nil => rfl
  | cons hp _ ih =>
      rw [List.flatMap_cons, Derivation.functions_ofStatement hp, ih, List.filterMap_cons]
      cases Derivation.definition? _ _ <;> rfl

/-- A file declares the functions that its statements define, in order. -/
theorem functions_of_derivations (h : a.derivations = .ok parts) :
    (parts.flatMap (·.declarations)).filterMap Declaration.function? =
      a.definitions.map Definition.signature := by
  obtain ⟨attached, orphaned, hattached, horphaned, rfl⟩ := a.exists_of_derivations h
  have hnone : orphaned.flatMap (·.functions) = [] :=
    List.flatMap_eq_nil_iff.2 <|
      forall_of_mapM_eq_ok horphaned fun _ _ _ hr => Derivation.functions_ofOrphan hr
  calc ((attached ++ orphaned).flatMap (·.declarations)).filterMap Declaration.function?
      = (attached ++ orphaned).flatMap (·.functions) := by
        rw [List.filterMap_flatMap]
        rfl
    _ = attached.flatMap (·.functions) := by
        rw [List.flatMap_append, hnone, List.append_nil]
    _ = a.definitions.map Definition.signature :=
        functions_of_forall₂ (mapM_eq_ok_iff.1 hattached)

end Attachment

/-! ### The order of parameters -/

namespace FunctionDecl

open TypeScript

/-- The second of two parameters may stand behind the first one: the rest ends the list, and behind an
optional parameter no other is required. -/
def MayFollow (m n : String) : Prop :=
  m ≠ restName ∧ (isOptionalName m = true → isOptionalName n = true ∨ n = restName)

instance (m n : String) : Decidable (MayFollow m n) :=
  inferInstanceAs (Decidable (_ ∧ _))

theorem IsOrdered.pairwise {names : List String} (h : IsOrdered names) :
    names.Pairwise MayFollow := by
  obtain ⟨required, optional, rest, rfl, hrequired, hoptional, hrest⟩ := h
  have hfront : ∀ m ∈ required, ∀ n, MayFollow m n := by
    intro m hm n
    obtain ⟨hopt, hne⟩ := hrequired m hm
    exact ⟨hne, fun htrue => by simp [hopt] at htrue⟩
  have hmiddle : ∀ m ∈ optional, ∀ n ∈ optional ++ rest, MayFollow m n := by
    intro m hm n hn
    refine ⟨?_, fun _ => ?_⟩
    · rintro rfl
      exact absurd (hoptional restName hm) (by decide)
    · rcases List.mem_append.1 hn with hn | hn
      · exact .inl (hoptional n hn)
      · rcases hrest with rfl | rfl
        · simp at hn
        · exact .inr (List.mem_singleton.1 hn)
  have hlast : rest.Pairwise MayFollow := by
    rcases hrest with rfl | rfl
    · exact .nil
    · exact List.pairwise_singleton _ _
  rw [List.append_assoc, List.pairwise_append, List.pairwise_append]
  refine ⟨List.pairwise_of_forall_mem_list fun m hm n _ => hfront m hm n, ⟨?_, hlast, ?_⟩,
    fun m hm n _ => hfront m hm n⟩
  · exact List.pairwise_of_forall_mem_list fun m hm n hn => hmiddle m hm n (by simp [hn])
  · exact fun m hm n hn => hmiddle m hm n (by simp [hn])

/-- What stands in front of parameters in order. -/
theorem isOrdered_cons {n : String} {names : List String} (hn : ∀ m ∈ names, MayFollow n m)
    (h : IsOrdered names) : IsOrdered (n :: names) := by
  obtain ⟨required, optional, rest, rfl, hrequired, hoptional, hrest⟩ := h
  by_cases hlast : n = restName
  · -- nothing stands behind the rest
    have hnil : required ++ optional ++ rest = [] :=
      List.eq_nil_iff_forall_not_mem.2 fun m hm => (hn m hm).1 hlast
    rw [hnil, hlast]
    exact ⟨[], [], [restName], rfl, by simp, by simp, .inr rfl⟩
  · cases hopt : isOptionalName n with
    | false =>
        refine ⟨n :: required, optional, rest, rfl, ?_, hoptional, hrest⟩
        intro m hm
        rcases List.mem_cons.1 hm with rfl | hm
        · exact ⟨hopt, hlast⟩
        · exact hrequired m hm
    | true =>
        -- nothing behind an optional parameter is required
        obtain rfl : required = [] := by
          refine List.eq_nil_iff_forall_not_mem.2 fun m hm => ?_
          obtain ⟨hm', hne⟩ := hrequired m hm
          rcases (hn m (by simp [hm])).2 hopt with hmopt | hmrest
          · simp [hm'] at hmopt
          · exact hne hmrest
        refine ⟨[], n :: optional, rest, rfl, by simp, ?_, hrest⟩
        intro m hm
        rcases List.mem_cons.1 hm with rfl | hm
        · exact hopt
        · exact hoptional m hm

/-- Parameters are in order exactly if each may follow those in front of it. -/
theorem isOrdered_iff_pairwise {names : List String} :
    IsOrdered names ↔ names.Pairwise MayFollow := by
  constructor
  · exact IsOrdered.pairwise
  · intro h
    induction h with
    | nil => exact (InOrder.nil false).isOrdered
    | cons hn _ ih => exact isOrdered_cons hn ih

instance (names : List String) : Decidable (IsOrdered names) :=
  decidable_of_iff _ isOrdered_iff_pairwise.symm

/-- A signature that is merged from several definitions has its parameters in order. -/
theorem inOrder_foldl_merge {f : FunctionDecl} {gs : List FunctionDecl} (h : gs ≠ []) :
    InOrder false (keys (gs.foldl merge f).params) := by
  obtain ⟨init, g, rfl⟩ := List.eq_nil_or_concat gs |>.resolve_left h
  rw [List.concat_eq_append, List.foldl_append, List.foldl_cons, List.foldl_nil]
  exact inOrder_merge _ g

theorem isOptionalName_of_isName {n : String} (h : Lua.IsName n) : isOptionalName n = false := by
  rw [isOptionalName, beq_eq_false_iff_ne]
  intro hlast
  exact absurd (h.2 '?' (List.mem_of_getLast? hlast)) (by decide)

/-- The parameters of a parameter list are in order. -/
theorem inOrder_shownNames {params : List String} (h : Lua.IsParameterList params) :
    InOrder false (shownNames params) := by
  obtain ⟨names, rest, rfl, hnames, hrest⟩ := h
  induction names with
  | nil =>
      rcases hrest with rfl | rfl
      · exact .nil false
      · exact .rest false
  | cons n names ih =>
      have hn := hnames n List.mem_cons_self
      have htail := ih fun m hm => hnames m (List.mem_cons_of_mem n hm)
      rw [List.cons_append, shownNames, List.filter_cons]
      split
      · rw [List.map_cons, shownName_of_ne (ne_dots_of_isName hn)]
        refine .required ?_ (parameterName_ne_restName hn) htail
        by_cases hreserved : n ∈ reserved
        · rw [parameterName_of_mem hreserved, isOptionalName_append n (by decide)]
          rfl
        · rw [parameterName_of_not_mem hreserved]
          exact isOptionalName_of_isName hn
      · exact htail

end FunctionDecl

open FunctionDecl (IsOrdered)

/-- Without annotations, the parameters of a definition are in order. -/
theorem Definition.isOrdered_of_unannotated {d : Definition} (hb : d.block.params = [])
    (hlist : Lua.IsParameterList d.params) : IsOrdered (keys d.signature.params) := by
  have hgiven : d.givenNames = d.params := by simp [givenNames, hb]
  have hlisted := FunctionDecl.inOrder_shownNames hlist
  rw [← hgiven, ← keys_paramInfos] at hlisted
  exact (hlisted.sublist (sublist_keys_ofList _)).isOrdered

namespace SourceDeclarations

variable {path : String} {a : Attachment} {file : SourceDeclarations} {log : List Log.Entry}
  {f : FunctionDecl}

/-- A function of a file is merged from its definitions, in their order. -/
theorem exists_definitions (h : ofAttachment path a = .ok (file, log))
    (hf : .function f ∈ file.declarations) :
    ∃ d ds, a.definitionsOf f.qualifiedName = d :: ds ∧
      f = (ds.map Definition.signature).foldl FunctionDecl.merge d.signature := by
  obtain ⟨parts, hparts, -, hdecl, -⟩ := ofAttachment_eq_ok h
  rw [hdecl] at hf
  obtain ⟨g, gs, hdefs, hmerged⟩ := Derivation.exists_definitions_of_mem_collapse hf
  have hsignatures : Derivation.definitionsOf f.qualifiedName (parts.flatMap (·.declarations)) =
      (a.definitionsOf f.qualifiedName).map Definition.signature := by
    rw [Derivation.definitionsOf, a.functions_of_derivations hparts, List.filter_map]
    rfl
  rw [hsignatures] at hdefs
  obtain ⟨d, ds, hds, rfl, rfl⟩ := List.map_eq_cons_iff.1 hdefs
  exact ⟨d, ds, hds, hmerged⟩

/-- **The parameters of a function are in order exactly if it has several definitions or those of its
only one are in order.**  Those of a parameter list always are. -/
theorem isOrdered_params_iff (h : ofAttachment path a = .ok (file, log))
    (hf : .function f ∈ file.declarations) :
    ∃ d ds, a.definitionsOf f.qualifiedName = d :: ds ∧
      (IsOrdered (keys f.params) ↔ (ds = [] → IsOrdered d.shownParams)) ∧
      (d.block.params = [] → Lua.IsParameterList d.params → IsOrdered (keys f.params)) := by
  obtain ⟨d, ds, hds, hmerged⟩ := exists_definitions h hf
  refine ⟨d, ds, hds, ?_⟩
  cases ds with
  | nil =>
      obtain rfl : f = d.signature := hmerged
      refine ⟨?_, Definition.isOrdered_of_unannotated⟩
      rw [Definition.keys_params_signature]
      simp
  | cons e ds =>
      have hseveral : (e :: ds).map Definition.signature ≠ [] := by simp
      have hordered : IsOrdered (keys f.params) := by
        rw [hmerged]
        exact (FunctionDecl.inOrder_foldl_merge hseveral).isOrdered
      exact ⟨iff_of_true hordered (by simp), fun _ _ => hordered⟩

/-- A file with two definitions of one function and one of another, all of them with a required parameter
behind an optional one. -/
def optionalFirstAttachment : Attachment where
  attached := [
    (⟨⟨3, 1, 3, 9⟩, .function (.name "run") ["a", "b"] false⟩,
      ⟨[⟨1, .param "a?" (.plain "string") none⟩, ⟨2, .param "b" (.plain "number") none⟩], 1, 2⟩),
    (⟨⟨6, 1, 6, 9⟩, .function (.name "run") ["c", "d"] false⟩,
      ⟨[⟨4, .param "c?" (.plain "string") none⟩, ⟨5, .param "d" (.plain "string") none⟩], 4, 5⟩),
    (⟨⟨9, 1, 9, 9⟩, .function (.name "stop") ["self", "a", "b"] false⟩,
      ⟨[⟨7, .param "a?" (.plain "string") none⟩, ⟨8, .param "b" (.plain "number") none⟩], 7, 8⟩)]
  orphaned := []

/-- What the two definitions of the first function are merged into. -/
def mergedRun : FunctionDecl :=
  ⟨"run", false, [],
    [("a_or_c?", ⟨"string", none⟩), ("b_or_d?", ⟨"(number) | (string)", none⟩)], none, []⟩

/-- What the only definition of the second function declares. -/
def singleStop : FunctionDecl :=
  ⟨"stop", false, [], [("a?", ⟨"string", none⟩), ("b", ⟨"number", none⟩)], none, []⟩

/-- Merging puts the parameters in order, and nothing else does. -/
theorem isOrdered_params_of_optionalFirst :
    ∃ file log, ofAttachment "m.lua" optionalFirstAttachment = .ok (file, log) ∧
      file.declarations = [.function mergedRun, .function singleStop] ∧
      IsOrdered (keys mergedRun.params) ∧ ¬ IsOrdered (keys singleStop.params) := by
  obtain ⟨⟨file, log⟩, hfile, hdecl⟩ := exists_ok_of_toOption_map
    (e := ofAttachment "m.lua" optionalFirstAttachment) (g := fun r => r.1.declarations)
    (b := [.function mergedRun, .function singleStop]) (by decide +kernel)
  obtain ⟨d, ds, hds, hrun, -⟩ := isOrdered_params_iff hfile (f := mergedRun)
    (by simp [show file.declarations = _ from hdecl])
  obtain ⟨e, es, hes, hstop, -⟩ := isOrdered_params_iff hfile (f := singleStop)
    (by simp [show file.declarations = _ from hdecl])
  have htwo : (optionalFirstAttachment.definitionsOf mergedRun.qualifiedName).length = 2 := by
    decide +kernel
  have hone : (optionalFirstAttachment.definitionsOf singleStop.qualifiedName).length = 1 := by
    decide +kernel
  have hnames : ∀ d ∈ optionalFirstAttachment.definitionsOf singleStop.qualifiedName,
      ¬ IsOrdered d.shownParams := by
    decide +kernel
  rw [hds, List.length_cons] at htwo
  rw [hes, List.length_cons] at hone
  rw [hes] at hnames
  refine ⟨file, log, hfile, hdecl, hrun.2 fun hnil => ?_, fun hordered => ?_⟩
  · simp [hnil] at htwo
  · exact hnames e List.mem_cons_self (hstop.1 hordered (List.length_eq_zero_iff.1 (by omega)))

end SourceDeclarations

end LuaAmbient
