/-
**What is kept while declarations are collected stays in step.**

The declarations of a file are collected in a list.  Beside it stand the functions by name, each with
its definitions merged so far, and the names of the types.  A further definition is merged into the
function that is found by its name; the merged function takes the place of the one that is found by its
value in the list.  These are the same one, since no two functions of the list have one name.

Main definitions:

* `LuaAmbient.Derivation.functionNames`, `LuaAmbient.Derivation.typeNames` — the names of functions and
  of types;
* `LuaAmbient.Derivation.Repeats` — a type of a name that an earlier one has;
* `LuaAmbient.Derivation.remaining?` — what is left of a declaration between others;
* `LuaAmbient.Derivation.joined` — one more declaration merged into the others or put behind them;
* `LuaAmbient.Derivation.Collecting.InStep` — the list, the functions by name and the names of the types
  agree.

Main results:

* `LuaAmbient.Derivation.Collecting.InStep.add_eq` — **one more declaration is joined to the others**;
* `LuaAmbient.Derivation.inStep_collect` — all that is collected stays in step;
* `LuaAmbient.Derivation.collapse_append`, `LuaAmbient.Derivation.repeated_append` — what one more
  declaration adds to the list and to the types that are left out.
-/

import LuaAmbient.Declaration.Derivation
import LuaAmbient.Proofs.Keyed
import Mathlib.Data.List.Induction
import Mathlib.Data.List.Nodup
import Mathlib.Tactic.Common

set_option relaxedAutoImplicit false
set_option autoImplicit false

namespace LuaAmbient.Derivation

/-! ### Names -/

/-- The name of a declared function. -/
def functionName? (d : Declaration) : Option String :=
  d.function?.map (·.qualifiedName)

/-- The names of the functions among declarations. -/
def functionNames (l : List Declaration) : List String :=
  l.filterMap functionName?

/-- The names of the types among declarations. -/
def typeNames (l : List Declaration) : List String :=
  l.filterMap Declaration.typeName?

theorem eq_function {d : Declaration} {f : FunctionDecl} (h : d.function? = some f) :
    d = .function f := by
  cases d with
  | function g => exact congrArg _ (Option.some.inj h)
  | _ => exact absurd h (by simp [Declaration.function?])

theorem mem_functionNames {l : List Declaration} {name : String} :
    name ∈ functionNames l ↔ ∃ f, .function f ∈ l ∧ f.qualifiedName = name := by
  rw [functionNames, List.mem_filterMap]
  constructor
  · rintro ⟨d, hd, hname⟩
    obtain ⟨f, hf, hfname⟩ := Option.map_eq_some_iff.1 hname
    exact ⟨f, eq_function hf ▸ hd, hfname⟩
  · rintro ⟨f, hf, rfl⟩
    exact ⟨_, hf, rfl⟩

/-- A type of a name that an earlier one has. -/
def Repeats (earlier : List Declaration) (d : Declaration) : Prop :=
  ∃ name ∈ d.typeName?, name ∈ typeNames earlier

instance (earlier : List Declaration) (d : Declaration) : Decidable (Repeats earlier d) :=
  inferInstanceAs (Decidable (∃ name ∈ d.typeName?, name ∈ typeNames earlier))

/-- The definitions of a function among declarations. -/
def definitionsOf (name : String) (l : List Declaration) : List FunctionDecl :=
  (l.filterMap Declaration.function?).filter (·.qualifiedName == name)

/-! ### What is left -/

/-- What is left of a declaration between others.  The first definition of a function is merged with
those behind it, one after the other; further ones are left out, as are repeated types. -/
def remaining? (before : List Declaration) (d : Declaration) (behind : List Declaration) :
    Option Declaration :=
  match d with
  | .function f =>
    if f.qualifiedName ∈ functionNames before then none
    else some (.function ((definitionsOf f.qualifiedName behind).foldl FunctionDecl.merge f))
  | _ => if Repeats before d then none else some d

/-- A declaration with a further definition of the same function merged into it. -/
def absorb (d k : Declaration) : Declaration :=
  match d, k with
  | .function g, .function f =>
    if f.qualifiedName = g.qualifiedName then .function (f.merge g) else .function f
  | _, k => k

@[simp] theorem qualifiedName_merge (f g : FunctionDecl) :
    (f.merge g).qualifiedName = f.qualifiedName := rfl

@[simp] theorem qualifiedName_foldl_merge (f : FunctionDecl) (l : List FunctionDecl) :
    (l.foldl FunctionDecl.merge f).qualifiedName = f.qualifiedName := by
  induction l generalizing f with
  | nil => rfl
  | cons g l ih => rw [List.foldl_cons, ih, qualifiedName_merge]

@[simp] theorem typeName?_absorb (d k : Declaration) : (absorb d k).typeName? = k.typeName? := by
  cases d <;> cases k <;> try rfl
  rw [absorb]
  split <;> rfl

@[simp] theorem functionName?_absorb (d k : Declaration) :
    functionName? (absorb d k) = functionName? k := by
  cases d <;> cases k <;> try rfl
  rw [absorb]
  split <;> rfl

/-- A definition of a function that is not among the declarations is merged into none of them. -/
theorem map_absorb_of_not_mem {g : FunctionDecl} {l : List Declaration}
    (h : g.qualifiedName ∉ functionNames l) : l.map (absorb (.function g)) = l := by
  have hid : ∀ k ∈ l, absorb (.function g) k = id k := by
    intro k hk
    cases k with
    | function f =>
        have hne : f.qualifiedName ≠ g.qualifiedName :=
          fun heq => h (mem_functionNames.2 ⟨f, hk, heq⟩)
        rw [absorb, if_neg hne, id]
    | _ => rfl
  rw [List.map_congr_left hid, List.map_id]

theorem absorb_of_not_function {d : Declaration} (h : d.function? = none) (k : Declaration) :
    absorb d k = k := by
  cases d with
  | function g => exact absurd h (by simp [Declaration.function?])
  | _ => rfl

theorem remaining?_of_not_function {d : Declaration} (h : d.function? = none)
    (before behind : List Declaration) :
    remaining? before d behind = if Repeats before d then none else some d := by
  cases d with
  | function g => exact absurd h (by simp [Declaration.function?])
  | _ => rfl

/-- The declarations with one more, which is merged into the others or else put behind them. -/
def joined (known : List Declaration) (d : Declaration) : List Declaration :=
  known.map (absorb d) ++ (remaining? known d []).toList

/-! ### Distinct names -/

/-- What is left of a declaration adds the name of a function if it is new. -/
theorem functionNames_remaining? (before : List Declaration) (d : Declaration)
    (behind : List Declaration) :
    functionNames (remaining? before d behind).toList =
      (functionNames [d]).filter fun name => name ∉ functionNames before := by
  cases hd : d.function? with
  | none =>
      have hnames : functionNames [d] = [] := by simp [functionNames, functionName?, hd]
      rw [remaining?_of_not_function hd, hnames]
      split
      · rfl
      · exact hnames
  | some f =>
      obtain rfl := eq_function hd
      have hnames : ∀ g : FunctionDecl, functionNames [.function g] = [g.qualifiedName] :=
        fun g => rfl
      rw [remaining?, hnames]
      split
      · next hf =>
        rw [List.filter_cons_of_neg (by simpa using hf)]
        rfl
      · next hf =>
        rw [List.filter_cons_of_pos (by simpa using hf), Option.toList_some, hnames,
          qualifiedName_foldl_merge]
        rfl

/-- What is left of a declaration adds the name of a type if it is new. -/
theorem typeNames_remaining? (before : List Declaration) (d : Declaration)
    (behind : List Declaration) :
    typeNames (remaining? before d behind).toList =
      (typeNames [d]).filter fun name => name ∉ typeNames before := by
  cases hd : d.function? with
  | none =>
      rw [remaining?_of_not_function hd]
      cases hname : d.typeName? with
      | none => simp [Repeats, typeNames, hname]
      | some name =>
          have hnames : typeNames [d] = [name] := by simp [typeNames, hname]
          have hrepeats : Repeats before d ↔ name ∈ typeNames before := by simp [Repeats, hname]
          rw [hnames, if_congr hrepeats rfl rfl]
          split
          · next hin =>
            rw [List.filter_cons_of_neg (by simpa using hin)]
            rfl
          · next hin =>
            rw [List.filter_cons_of_pos (by simpa using hin), Option.toList_some, hnames]
            rfl
  | some f =>
      obtain rfl := eq_function hd
      have hnames : ∀ g : FunctionDecl, typeNames [.function g] = [] := fun g => rfl
      rw [remaining?, hnames]
      split <;> rfl

section Names

variable {name? : Declaration → Option String}
  (habsorb : ∀ d k, name? (absorb d k) = name? k)
  (hnew : ∀ before d behind, (remaining? before d behind).toList.filterMap name? =
    ([d].filterMap name?).filter fun name => name ∉ before.filterMap name?)

include habsorb hnew

/-- One more declaration adds its name if it is new. -/
theorem filterMap_joined (known : List Declaration) (d : Declaration) :
    (joined known d).filterMap name? = known.filterMap name? ++
      ([d].filterMap name?).filter fun name => name ∉ known.filterMap name? := by
  rw [joined, List.filterMap_append, List.filterMap_map, hnew]
  simp only [Function.comp_def, habsorb]

theorem nodup_filterMap_joined {known : List Declaration} (h : (known.filterMap name?).Nodup)
    (d : Declaration) : ((joined known d).filterMap name?).Nodup := by
  rw [filterMap_joined habsorb hnew, List.nodup_append]
  refine ⟨h, .filter _ ?_, fun name hname other hother heq => ?_⟩
  · cases hd : name? d <;> simp [hd]
  · exact of_decide_eq_true (List.mem_filter.1 hother).2 (heq ▸ hname)

end Names

/-! ### In step -/

/-- The functions among declarations, by name. -/
def functionsByName (l : List Declaration) : List (String × FunctionDecl) :=
  (l.filterMap Declaration.function?).map fun f => (f.qualifiedName, f)

@[simp] theorem functionsByName_append (l m : List Declaration) :
    functionsByName (l ++ m) = functionsByName l ++ functionsByName m := by
  simp [functionsByName]

@[simp] theorem keys_functionsByName (l : List Declaration) :
    Keyed.keys (functionsByName l) = functionNames l := by
  rw [Keyed.keys, functionsByName, List.map_map, List.map_filterMap]
  rfl

/-- A function that is found by its name is at one place of the list, and no other function has the
name. -/
theorem exists_append_of_get? {l : List Declaration} {name : String} {f : FunctionDecl}
    (hn : (functionNames l).Nodup) (hf : Keyed.get? (functionsByName l) name = some f) :
    ∃ before behind, l = before ++ .function f :: behind ∧ f.qualifiedName = name ∧
      name ∉ functionNames before ∧ name ∉ functionNames behind := by
  obtain ⟨f, hmem, heq⟩ := List.mem_map.1 (Keyed.mem_of_get?_eq_some hf)
  obtain ⟨rfl, rfl⟩ := Prod.mk.inj heq
  obtain ⟨d, hd, hdf⟩ := List.mem_filterMap.1 hmem
  obtain rfl := eq_function hdf
  obtain ⟨before, behind, rfl⟩ := List.append_of_mem hd
  have hnames : functionNames (before ++ .function f :: behind) =
      functionNames before ++ f.qualifiedName :: functionNames behind := by
    simp [functionNames, functionName?, Declaration.function?]
  rw [hnames, List.nodup_middle, List.nodup_cons, List.mem_append, not_or] at hn
  exact ⟨before, behind, rfl, rfl, hn.1⟩

/-- A further definition of a function is merged into it and into no other declaration. -/
theorem map_absorb_append {before behind : List Declaration} {f g : FunctionDecl}
    (hname : f.qualifiedName = g.qualifiedName) (hbefore : g.qualifiedName ∉ functionNames before)
    (hbehind : g.qualifiedName ∉ functionNames behind) :
    (before ++ .function f :: behind).map (absorb (.function g)) =
      before ++ .function (f.merge g) :: behind := by
  rw [List.map_append, List.map_cons, map_absorb_of_not_mem hbefore,
    map_absorb_of_not_mem hbehind, absorb, if_pos hname]

section Found

variable {l : List Declaration} {f g : FunctionDecl} (hn : (functionNames l).Nodup)
  (hf : Keyed.get? (functionsByName l) g.qualifiedName = some f)

include hn hf

/-- In the list the function that was found by name is the one into which a further definition is
merged. -/
theorem replace_eq_map_absorb :
    l.replace (.function f) (.function (f.merge g)) = l.map (absorb (.function g)) := by
  obtain ⟨before, behind, rfl, hname, hbefore, hbehind⟩ := exists_append_of_get? hn hf
  have hmem : Declaration.function f ∉ before := fun h =>
    hbefore (mem_functionNames.2 ⟨f, h, hname⟩)
  rw [map_absorb_append hname hbefore hbehind, List.replace_append_right hmem,
    List.replace_cons_self]

/-- Under its name the function that was found is the one into which a further definition is
merged. -/
theorem put_functionsByName :
    Keyed.put (functionsByName l) g.qualifiedName (f.merge g) =
      functionsByName (l.map (absorb (.function g))) := by
  obtain ⟨before, behind, rfl, hname, hbefore, hbehind⟩ := exists_append_of_get? hn hf
  have hkeys : g.qualifiedName ∉ Keyed.keys (functionsByName before) := by
    rwa [keys_functionsByName]
  rw [map_absorb_append hname hbefore hbehind, functionsByName_append, functionsByName_append,
    Keyed.put_append_of_not_mem hkeys]
  simp [functionsByName, Declaration.function?, Keyed.put, hname]

end Found

/-- **The list, the functions by name and the names of the types are in step**, and no two functions
and no two types of the list have one name. -/
structure Collecting.InStep (c : Collecting) : Prop where
  functions : c.functions = functionsByName c.declarations
  types : ∀ name, name ∈ c.typeNames ↔ name ∈ Derivation.typeNames c.declarations
  nodup_functionNames : (functionNames c.declarations).Nodup
  nodup_typeNames : (Derivation.typeNames c.declarations).Nodup

/-! ### One more declaration -/

theorem joined_of_not_function {d : Declaration} (h : d.function? = none)
    (known : List Declaration) :
    joined known d = if Repeats known d then known else known ++ [d] := by
  rw [joined, funext (absorb_of_not_function h), List.map_id', remaining?_of_not_function h]
  split
  · exact List.append_nil known
  · rfl

theorem functionsByName_joined_of_not_function {d : Declaration} (h : d.function? = none)
    (known : List Declaration) : functionsByName (joined known d) = functionsByName known := by
  rw [joined_of_not_function h]
  split
  · rfl
  · simp [functionsByName, h]

namespace Collecting

/-- A declaration that names no type is put behind the others. -/
theorem add_of_typeName?_eq_none {d : Declaration} (h : d.function? = none)
    (hname : d.typeName? = none) (c : Collecting) :
    c.add d = { c with declarations := c.declarations ++ [d] } := by
  cases d with
  | function g => exact absurd h (by simp [Declaration.function?])
  | _ => simp only [add, hname]

theorem add_of_typeName?_eq_some {d : Declaration} {name : String}
    (hname : d.typeName? = some name) (c : Collecting) : c.add d = c.addType name d := by
  cases d with
  | function g => exact absurd hname (by simp [Declaration.typeName?])
  | _ => simp only [add, hname]

namespace InStep

variable {c : Collecting} (h : c.InStep)

include h

/-- A definition of a function is joined to the declarations, in the list and under its name. -/
theorem addFunction_eq (g : FunctionDecl) :
    c.addFunction g = { c with
      declarations := joined c.declarations (.function g)
      functions := functionsByName (joined c.declarations (.function g)) } := by
  rw [addFunction, h.functions, joined, remaining?]
  cases hfound : Keyed.get? (functionsByName c.declarations) g.qualifiedName with
  | none =>
      have hg : g.qualifiedName ∉ functionNames c.declarations := by
        rwa [Keyed.get?_eq_none_iff, keys_functionsByName] at hfound
      rw [if_neg hg, map_absorb_of_not_mem hg, functionsByName_append]
      dsimp only
      rw [Keyed.put_of_not_mem (by rwa [keys_functionsByName])]
      rfl
  | some f =>
      have hg : g.qualifiedName ∈ functionNames c.declarations := by
        rw [← keys_functionsByName, ← Keyed.isSome_get?_iff, hfound, Option.isSome_some]
      rw [if_pos hg, Option.toList_none, List.append_nil]
      dsimp only
      rw [replace_eq_map_absorb h.nodup_functionNames hfound,
        put_functionsByName h.nodup_functionNames hfound]

/-- A type is left out if it repeats the name of an earlier one. -/
theorem addType_eq {d : Declaration} {name : String} (hname : d.typeName? = some name) :
    c.addType name d =
      if Repeats c.declarations d then { c with repeated := c.repeated ++ [d] }
      else { c with declarations := c.declarations ++ [d], typeNames := name :: c.typeNames } := by
  have hrepeats : c.typeNames.contains name = true ↔ Repeats c.declarations d := by
    simp [Repeats, hname, h.types]
  rw [addType, if_congr hrepeats rfl rfl]

/-- A declaration that is no function is joined to the others, and so is the name of a type. -/
theorem add_eq_of_not_function {d : Declaration} (hd : d.function? = none) :
    ∃ names, (∀ name, name ∈ names ↔ name ∈ Derivation.typeNames (joined c.declarations d)) ∧
      c.add d = ⟨joined c.declarations d, c.functions, names,
        c.repeated ++ if Repeats c.declarations d then [d] else []⟩ := by
  rw [joined_of_not_function hd]
  cases hname : d.typeName? with
  | none =>
      have hnew : ¬ Repeats c.declarations d := by simp [Repeats, hname]
      refine ⟨c.typeNames, fun name => ?_, ?_⟩
      · rw [if_neg hnew, h.types]
        simp [Derivation.typeNames, hname]
      · rw [add_of_typeName?_eq_none hd hname, if_neg hnew, if_neg hnew, List.append_nil]
  | some name =>
      rw [add_of_typeName?_eq_some hname, h.addType_eq hname]
      by_cases hrepeats : Repeats c.declarations d
      · rw [if_pos hrepeats, if_pos hrepeats, if_pos hrepeats]
        exact ⟨c.typeNames, h.types, rfl⟩
      · refine ⟨name :: c.typeNames, fun other => ?_, ?_⟩
        · rw [if_neg hrepeats, List.mem_cons, h.types, or_comm]
          simp [Derivation.typeNames, hname]
        · simp only [if_neg hrepeats, List.append_nil]

/-- **One more declaration is joined to the others**, in the list, under its name and among the names of
types.  It is left out if it repeats the name of a type. -/
theorem add_eq (d : Declaration) :
    ∃ names, (∀ name, name ∈ names ↔ name ∈ Derivation.typeNames (joined c.declarations d)) ∧
      c.add d = ⟨joined c.declarations d, functionsByName (joined c.declarations d), names,
        c.repeated ++ if Repeats c.declarations d then [d] else []⟩ := by
  cases hd : d.function? with
  | none =>
      rw [functionsByName_joined_of_not_function hd, ← h.functions]
      exact h.add_eq_of_not_function hd
  | some g =>
      obtain rfl := eq_function hd
      have hnew : ¬ Repeats c.declarations (.function g) := by
        simp [Repeats, Declaration.typeName?]
      refine ⟨c.typeNames, fun name => ?_, ?_⟩
      · rw [h.types, Derivation.typeNames, Derivation.typeNames,
          filterMap_joined typeName?_absorb typeNames_remaining?]
        simp [Declaration.typeName?]
      · rw [if_neg hnew, List.append_nil]
        exact h.addFunction_eq g

/-- What is kept stays in step. -/
theorem add (d : Declaration) : (c.add d).InStep := by
  obtain ⟨names, hnames, heq⟩ := h.add_eq d
  rw [heq]
  exact ⟨rfl, hnames, nodup_filterMap_joined functionName?_absorb functionNames_remaining?
    h.nodup_functionNames d, nodup_filterMap_joined typeName?_absorb typeNames_remaining?
    h.nodup_typeNames d⟩

end InStep

end Collecting

/-! ### All declarations -/

theorem collect_append (l : List Declaration) (d : Declaration) :
    collect (l ++ [d]) = (collect l).add d := by
  rw [collect, List.foldl_append]
  rfl

/-- **All that is collected stays in step.** -/
theorem inStep_collect (l : List Declaration) : (collect l).InStep := by
  induction l using List.reverseRecOn with
  | nil => exact ⟨rfl, fun _ => Iff.rfl, .nil, .nil⟩
  | append_singleton l d ih => rw [collect_append]; exact ih.add d

theorem collapse_append (l : List Declaration) (d : Declaration) :
    collapse (l ++ [d]) = joined (collapse l) d := by
  obtain ⟨names, -, heq⟩ := (inStep_collect l).add_eq d
  rw [collapse, collect_append, heq]
  rfl

theorem repeated_append (l : List Declaration) (d : Declaration) :
    (collect (l ++ [d])).repeated =
      (collect l).repeated ++ if Repeats (collapse l) d then [d] else [] := by
  obtain ⟨names, -, heq⟩ := (inStep_collect l).add_eq d
  rw [collect_append, heq]
  rfl

end LuaAmbient.Derivation
