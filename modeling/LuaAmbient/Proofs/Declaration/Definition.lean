/-
**What a statement with its block declares.**

A statement defines a function if it is a function statement, or if it assigns a function to a target
with a name and its block declares no class.  It then declares that function and nothing else.  What the
other statements declare is one of six things, and none of them is a function.

Main definitions:

* `LuaAmbient.Definition`, `LuaAmbient.Derivation.definition?` — the function that a statement with its
  block defines;
* `LuaAmbient.Definition.signature`, `LuaAmbient.Definition.typeNames` — what is declared of it, and the
  names that its types refer to;
* `LuaAmbient.Derivation.IsDerived` — what can be declared.

Main results:

* `LuaAmbient.Derivation.ofStatement_of_definition` — what a definition declares;
* `LuaAmbient.Derivation.isDerived_ofStatement` — **a statement declares the function that it defines,
  or one of six other things**.
-/

import LuaAmbient.Declaration.Derivation
import Mathlib.Tactic.Common

set_option relaxedAutoImplicit false
set_option autoImplicit false

namespace LuaAmbient

/-! ### Definitions of functions -/

/-- The function that a statement defines: its name, its parameter list and its block. -/
structure Definition where
  name : String
  params : List String
  block : DocBlock
deriving Repr, DecidableEq, Inhabited

namespace Derivation

/-- The function that an assignment to a target defines if the block declares no class. -/
def assignedDefinition? (target : Option String) (init : List Lua.Expr) (b : DocBlock) :
    Option Definition :=
  if b.classes.isEmpty then (assignedFunction? target init).map fun f => ⟨f.1, f.2, b⟩ else none

/-- The function that a statement with its block defines. -/
def definition? (s : Lua.Statement) (b : DocBlock) : Option Definition :=
  match s.action with
  | .function target params _ => target.path?.map fun name => ⟨name, params, b⟩
  | .local_ names init => assignedDefinition? names.head? init b
  | .assign targets init => assignedDefinition? (targets.head?.bind Lua.Expr.path?) init b
  | _ => none

end Derivation

namespace Definition

/-- The parameters that a definition names: the annotated ones or, without annotations, those of its
parameter list. -/
def givenNames (d : Definition) : List String :=
  if d.block.params.isEmpty then d.params else d.block.params.map (·.1)

/-- The name that a definition declares. -/
def qualifiedName (d : Definition) : String :=
  if d.givenNames.contains "self" then Derivation.methodName d.name else d.name

/-- The parameters of a definition with their names in the signature. -/
def paramInfos (d : Definition) : List (String × ParamDecl) :=
  if d.block.params.isEmpty then (d.params.filter (· != "self")).map Derivation.plainParam
  else (d.block.params.filter fun p => p.1 != "self").map Derivation.annotatedParam

/-- The names that the types of a definition refer to: those of its annotated parameters but for
`self`, and those of its results. -/
def typeNames (d : Definition) : List String :=
  ((d.block.params.filter fun p => p.1 != "self").flatMap fun p => TypeScript.names p.2.1) ++
    d.block.returns.flatMap TypeScript.names

/-- The signature of a single definition. -/
def signature (d : Definition) : FunctionDecl where
  qualifiedName := d.qualifiedName
  isStatic := !d.qualifiedName.toList.contains ':' && d.qualifiedName.toList.contains '.'
  generics := d.block.generics
  params := Keyed.ofList d.paramInfos
  returnType := Derivation.resultType d.block.returns
  comments := d.block.comments

end Definition

namespace Derivation

variable {fileGenerics : List String} {s : Lua.Statement} {b : DocBlock} {d : Definition}
  {r : Derivation}

/-- What a definition declares, and what it refers to. -/
theorem ofFunction_eq (d : Definition) : ofFunction d.name d.params d.block =
    ⟨[.function d.signature], dropNames d.typeNames d.block.generics⟩ :=
  rfl

theorem assignedDefinition?_eq_some {target : Option String} {init : List Lua.Expr} :
    assignedDefinition? target init b = some d ↔
      b.classes = [] ∧ assignedFunction? target init = some (d.name, d.params) ∧ d.block = b := by
  obtain ⟨name, params, block⟩ := d
  rw [assignedDefinition?]
  by_cases hb : b.classes = []
  · simp [hb, @eq_comm _ block]
  · simp [hb]

theorem block_of_definition (h : definition? s b = some d) : d.block = b := by
  rw [definition?] at h
  split at h
  · obtain ⟨name, -, rfl⟩ := Option.map_eq_some_iff.1 h
    rfl
  · exact (assignedDefinition?_eq_some.1 h).2.2
  · exact (assignedDefinition?_eq_some.1 h).2.2
  · exact absurd h (by simp)

theorem ofAssignment_of_definition {target : Option String} {init : List Lua.Expr}
    (h : assignedDefinition? target init b = some d) (isPlain : Bool) :
    ofAssignment fileGenerics target isPlain init b =
      .ok (ofFunction d.name d.params d.block) := by
  obtain ⟨hclasses, hassigned, hblock⟩ := assignedDefinition?_eq_some.1 h
  simp only [ofAssignment, hclasses, hassigned, hblock]

/-- A statement that defines a function declares that function. -/
theorem ofStatement_of_definition (h : definition? s b = some d) :
    ofStatement fileGenerics s b =
      .ok ⟨[.function d.signature], dropNames d.typeNames d.block.generics⟩ := by
  rw [← ofFunction_eq, ofStatement]
  rw [definition?] at h
  cases haction : s.action with
  | function target params isLocal =>
      simp only [haction] at h
      obtain ⟨name, hname, rfl⟩ := Option.map_eq_some_iff.1 h
      simp only [hname]
  | local_ names init =>
      simp only [haction] at h
      exact ofAssignment_of_definition h true
  | assign targets init =>
      simp only [haction] at h
      exact ofAssignment_of_definition h (isPlainTarget targets)
  | return_ arguments => simp [haction] at h
  | other kind => simp [haction] at h

/-! ### What statements declare -/

/-- What a statement with a block can declare, given the function that it defines. -/
inductive IsDerived (fileGenerics : List String) (b : DocBlock) :
    Option Definition → Derivation → Prop
  | definition (d : Definition) :
      IsDerived fileGenerics b (some d)
        ⟨[.function d.signature], dropNames d.typeNames d.block.generics⟩
  | class_ {c : Int × Directive.ClassHeader} {table : Option (List Lua.Entry)} {r : Derivation}
      (hc : b.classes.head? = some c) (h : ofClass fileGenerics b c.1 c.2 b.fields table = .ok r) :
      IsDerived fileGenerics b none r
  | orphan {r : Derivation} (h : ofOrphan fileGenerics b = .ok r) : IsDerived fileGenerics b none r
  | enum (name : String) (entries : List Lua.Entry) :
      IsDerived fileGenerics b none (ofEnum name entries b)
  | object (name : String) : IsDerived fileGenerics b none ⟨[.object ⟨name, b.comments⟩], []⟩
  | aliases : IsDerived fileGenerics b none (ofAliases b)
  | exports (names : List String) : IsDerived fileGenerics b none ⟨names.map .export_, []⟩

theorem isDerived_ofTable (target : Option String) (isPlain : Bool) (entries : List Lua.Entry) :
    IsDerived fileGenerics b none (ofTable target isPlain entries b) := by
  unfold ofTable
  split
  · exact .enum _ _
  · split
    · exact .object _
    · exact .aliases
  · exact .aliases

theorem isDerived_ofAssignment {target : Option String} {isPlain : Bool} {init : List Lua.Expr}
    (h : ofAssignment fileGenerics target isPlain init b = .ok r) :
    IsDerived fileGenerics b (assignedDefinition? target init b) r := by
  cases hd : assignedDefinition? target init b with
  | some d =>
      rw [ofAssignment_of_definition hd] at h
      obtain rfl := Except.ok.inj h
      exact .definition d
  | none =>
      rw [ofAssignment] at h
      split at h
      · next hclasses => exact .class_ (by rw [hclasses, List.head?_cons]) h
      · next hclasses hassigned => simp [assignedDefinition?, hclasses, hassigned] at hd
      · obtain rfl := Except.ok.inj h
        exact isDerived_ofTable _ _ _
      · obtain rfl := Except.ok.inj h
        exact .aliases

/-- **A statement declares the function that it defines, or one of six other things.** -/
theorem isDerived_ofStatement (h : ofStatement fileGenerics s b = .ok r) :
    IsDerived fileGenerics b (definition? s b) r := by
  rw [ofStatement] at h
  rw [definition?]
  cases haction : s.action with
  | function target params isLocal =>
      simp only [haction] at h ⊢
      cases hname : target.path? with
      | some name =>
          rw [hname] at h
          obtain rfl := Except.ok.inj h
          exact .definition ⟨name, params, b⟩
      | none =>
          rw [hname] at h
          obtain rfl := Except.ok.inj h
          exact .exports []
  | local_ names init =>
      simp only [haction] at h ⊢
      exact isDerived_ofAssignment h
  | assign targets init =>
      simp only [haction] at h ⊢
      exact isDerived_ofAssignment h
  | return_ arguments =>
      simp only [haction] at h ⊢
      split at h
      · exact .orphan h
      · obtain rfl := Except.ok.inj h
        exact .exports _
  | other kind =>
      simp only [haction] at h ⊢
      exact .orphan h

end Derivation

end LuaAmbient
