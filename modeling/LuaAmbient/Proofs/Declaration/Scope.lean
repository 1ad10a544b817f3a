/-
**Where the type names of a declared function come from.**

A name in the type of a parameter or of a result has to come from somewhere: it is imported or stubbed if
the file refers to it, or it is a type parameter of the function, or of the class that the function is
written in.  Names are taken out definition by definition, each with its own type parameters, but what
several definitions are merged into has the type parameters of the first one.  So the name of a type
parameter that only a later definition declares comes from nowhere, unless some other part of the file
refers to it.

Main definitions:

* `LuaAmbient.SourceDeclarations.OwnerBinds` — a type parameter of the class of a function;
* `LuaAmbient.SourceDeclarations.InScope` — a name that comes from somewhere.

Main results:

* `LuaAmbient.FunctionDecl.generics_foldl_merge` — type parameters are those of the first definition;
* `LuaAmbient.Attachment.mem_of_mem_definitions` — what a definition in a file declares;
* `LuaAmbient.SourceDeclarations.inScope_typeName_iff` — **which names of a definition are in scope in
  the function that it is merged into**.
-/

import LuaAmbient.Proofs.Declaration.Signature

set_option relaxedAutoImplicit false
set_option autoImplicit false

namespace LuaAmbient

/-! ### Names in scope -/

namespace SourceDeclarations

/-- The name is a type parameter of the class that the function is written in. -/
def OwnerBinds (file : SourceDeclarations) (f : FunctionDecl) (n : String) : Prop :=
  ∃ c, .class_ c ∈ file.declarations ∧ c.isAliasLike = false ∧ f.owner? = some c.name ∧
    n ∈ c.generics

/-- The name comes from somewhere: the file imports or stubs it, or it is a type parameter. -/
def InScope (file : SourceDeclarations) (f : FunctionDecl) (n : String) : Prop :=
  n ∈ file.usedNames ∨ n ∈ f.generics ∨ file.OwnerBinds f n

end SourceDeclarations

/-! ### Merged definitions -/

namespace FunctionDecl

/-- Type parameters are those of the first definition. -/
@[simp] theorem generics_foldl_merge (f : FunctionDecl) (gs : List FunctionDecl) :
    (gs.foldl merge f).generics = f.generics := by
  induction gs generalizing f with
  | nil => rfl
  | cons g gs ih =>
      rw [List.foldl_cons, ih]
      rfl

theorem owner?_congr {f g : FunctionDecl} (h : f.qualifiedName = g.qualifiedName) :
    f.owner? = g.owner? := by
  rw [owner?, owner?, h]

end FunctionDecl

namespace Attachment

variable {a : Attachment} {parts : List Derivation} {d : Definition}

theorem qualifiedName_of_mem_definitionsOf {name : String} (h : d ∈ a.definitionsOf name) :
    d.qualifiedName = name :=
  eq_of_beq (List.mem_filter.1 h).2

/-- A definition in a file declares its function, and refers to the names of its types but for its own
type parameters. -/
theorem mem_of_mem_definitions (h : a.derivations = .ok parts) (hd : d ∈ a.definitions) :
    ⟨[.function d.signature], dropNames d.typeNames d.block.generics⟩ ∈ parts := by
  obtain ⟨attached, orphaned, hattached, -, rfl⟩ := a.exists_of_derivations h
  obtain ⟨p, hp, hdefines⟩ := List.mem_filterMap.1 hd
  obtain ⟨r, hr, hok⟩ := exists_mem_of_mapM_eq_ok hattached hp
  rw [Derivation.ofStatement_of_definition hdefines] at hok
  obtain rfl := Except.ok.inj hok
  exact List.mem_append_left _ hr

end Attachment

namespace Derivation

theorem eq_class {d : Declaration} {c : ClassDecl} (h : d.class? = some c) : d = .class_ c := by
  cases d with
  | class_ c' => exact congrArg _ (Option.some.inj h)
  | _ => exact absurd h (by simp [Declaration.class?])

theorem mem_genericsOfClass {declarations : List Declaration} {name n : String} :
    n ∈ genericsOfClass declarations name ↔
      ∃ c, .class_ c ∈ declarations ∧ c.isAliasLike = false ∧ c.name = name ∧ n ∈ c.generics := by
  rw [genericsOfClass, List.mem_flatMap]
  constructor
  · rintro ⟨c, hc, hn⟩
    obtain ⟨d, hd, hclass⟩ := List.mem_filterMap.1 hc
    obtain rfl := eq_class hclass
    split at hn
    · next hname =>
      simp only [Bool.and_eq_true, beq_iff_eq, Bool.not_eq_true'] at hname
      exact ⟨c, hd, hname.2, hname.1, hn⟩
    · simp at hn
  · rintro ⟨c, hc, halias, hname, hn⟩
    refine ⟨c, List.mem_filterMap.2 ⟨_, hc, rfl⟩, ?_⟩
    simpa [halias, hname] using hn

end Derivation

namespace SourceDeclarations

variable {path : String} {a : Attachment} {file : SourceDeclarations} {log : List Log.Entry}
  {f : FunctionDecl}

/-- The file refers to a name if one of its statements or blocks does. -/
theorem mem_usedNames_iff {parts : List Derivation} (h : ofAttachment path a = .ok (file, log))
    (hparts : a.derivations = .ok parts) {n : String} :
    n ∈ file.usedNames ↔ ∃ r ∈ parts, n ∈ Derivation.foreignNames file.declarations r := by
  obtain ⟨parts', hparts', -, -, hused⟩ := ofAttachment_eq_ok h
  obtain rfl := Except.ok.inj (hparts.symm.trans hparts')
  rw [hused, mem_sortNames, List.mem_flatMap]

/-- A name of a definition that is not one of its own type parameters is referred to by the file, unless
the class of the function binds it. -/
theorem mem_usedNames_or_ownerBinds (h : ofAttachment path a = .ok (file, log))
    {e : Definition} (he : e ∈ a.definitionsOf f.qualifiedName) {n : String}
    (hn : n ∈ e.typeNames) (hown : n ∉ e.block.generics) :
    n ∈ file.usedNames ∨ file.OwnerBinds f n := by
  obtain ⟨parts, hparts, -⟩ := ofAttachment_eq_ok h
  have hr := a.mem_of_mem_definitions hparts (List.mem_filter.1 he).1
  have hrefers : n ∈ dropNames e.typeNames e.block.generics := mem_dropNames.2 ⟨hn, hown⟩
  have howner : e.signature.owner? = f.owner? :=
    FunctionDecl.owner?_congr (a.qualifiedName_of_mem_definitionsOf he)
  rw [mem_usedNames_iff h hparts]
  cases ho : f.owner? with
  | none =>
      refine .inl ⟨_, hr, ?_⟩
      simpa only [Derivation.foreignNames, Derivation.soleOwner?, howner, ho] using hrefers
  | some owner =>
      by_cases hbound : n ∈ Derivation.genericsOfClass file.declarations owner
      · obtain ⟨c, hc, halias, hname, hgeneric⟩ := Derivation.mem_genericsOfClass.1 hbound
        exact .inr ⟨c, hc, halias, ho.trans (congrArg some hname.symm), hgeneric⟩
      · refine .inl ⟨_, hr, ?_⟩
        simpa only [Derivation.foreignNames, Derivation.soleOwner?, howner, ho] using
          mem_dropNames.2 ⟨hrefers, hbound⟩

/-- **Which names of a definition are in scope in the function that it is merged into**: all but its own
type parameters, and of these the ones that the first definition or the class declares as well, or that
some statement or block of the file refers to. -/
theorem inScope_typeName_iff (h : ofAttachment path a = .ok (file, log))
    (hf : .function f ∈ file.declarations) :
    ∃ parts d ds, a.derivations = .ok parts ∧ a.definitionsOf f.qualifiedName = d :: ds ∧
      ∀ e ∈ d :: ds, ∀ n ∈ e.typeNames, (file.InScope f n ↔
        (n ∈ e.block.generics → n ∈ d.block.generics ∨ file.OwnerBinds f n ∨
          ∃ r ∈ parts, n ∈ Derivation.foreignNames file.declarations r)) := by
  obtain ⟨parts, hparts, -⟩ := ofAttachment_eq_ok h
  obtain ⟨d, ds, hds, hmerged⟩ := exists_definitions h hf
  refine ⟨parts, d, ds, hparts, hds, fun e he n hn => ?_⟩
  have hgenerics : f.generics = d.block.generics := by
    rw [hmerged, FunctionDecl.generics_foldl_merge]
    rfl
  rw [InScope, hgenerics, ← mem_usedNames_iff h hparts]
  constructor
  · intro hscope _
    tauto
  · intro hscope
    by_cases hown : n ∈ e.block.generics
    · have := hscope hown
      tauto
    · exact (mem_usedNames_or_ownerBinds h (hds ▸ he) hn hown).imp_right .inr

/-- A definition without type parameters. -/
def plainFirst : Definition :=
  ⟨"first", ["list"], ⟨[⟨3, .param "list" (.array (.plain "Item")) none⟩], 3, 3⟩⟩

/-- A definition with a type parameter. -/
def genericFirst : Definition :=
  ⟨"first", ["list"], ⟨[⟨5, .generic ["Value"]⟩,
    ⟨6, .param "list" (.array (.plain "Value")) none⟩, ⟨7, .returns (.plain "Entry") none⟩], 5, 7⟩⟩

/-- A file with both definitions. -/
def laterGenericAttachment : Attachment where
  attached := [
    (⟨⟨4, 1, 4, 9⟩, .function (.name "first") plainFirst.params false⟩, plainFirst.block),
    (⟨⟨8, 1, 8, 9⟩, .function (.name "first") genericFirst.params false⟩, genericFirst.block)]
  orphaned := []

/-- What the two definitions are merged into. -/
def mergedFirst : FunctionDecl :=
  ⟨"first", false, [], [("list", ⟨"(Array<Item>) | (Array<Value>)", none⟩)], some "(void) | (Entry)",
    []⟩

/-- The type parameter of the second definition is in the merged type, and nothing declares it. -/
theorem inScope_typeName_of_laterGeneric :
    ∃ file log, ofAttachment "m.lua" laterGenericAttachment = .ok (file, log) ∧
      file.declarations = [.function mergedFirst] ∧ genericFirst.typeNames = ["Value", "Entry"] ∧
      file.InScope mergedFirst "Entry" ∧ ¬ file.InScope mergedFirst "Value" := by
  obtain ⟨⟨file, log⟩, hfile, hdecl⟩ := exists_ok_of_toOption_map
    (e := ofAttachment "m.lua" laterGenericAttachment) (g := fun r => r.1)
    (b := ⟨"m.lua", [.function mergedFirst], ["Entry", "Item"]⟩) (by decide +kernel)
  obtain rfl : file = ⟨"m.lua", [.function mergedFirst], ["Entry", "Item"]⟩ := hdecl
  obtain ⟨parts, d, ds, hparts, hds, hscope⟩ :=
    inScope_typeName_iff (f := mergedFirst) hfile (by simp)
  have hdefs : laterGenericAttachment.definitionsOf mergedFirst.qualifiedName =
      [plainFirst, genericFirst] := by
    decide +kernel
  obtain ⟨rfl, rfl⟩ := List.cons.inj (hds.symm.trans hdefs)
  have hentry := (hscope genericFirst (by simp) "Entry" (by decide +kernel)).2
    fun hown => absurd hown (by decide +kernel)
  refine ⟨_, log, hfile, rfl, by decide +kernel, hentry, ?_⟩
  rintro (hused | hbound | ⟨c, hc, -⟩)
  · exact absurd hused (by decide +kernel)
  · exact absurd hbound (by decide +kernel)
  · simp at hc

end SourceDeclarations

end LuaAmbient
