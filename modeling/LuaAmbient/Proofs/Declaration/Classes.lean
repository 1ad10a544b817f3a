/-
**The classes of a block, with and without a statement.**

A block without a statement declares one class for each class annotation.  A field belongs to the last
class annotation above it, and the fields above the first one belong to that one.  If the lines of a
block increase, every field belongs to exactly one class.  A block of an assignment declares the first
class only, with all fields and with those of a table literal, so it declares the classes of the block
exactly if there is one.

Main definitions:

* `LuaAmbient.DocBlock.HasIncreasingLines` — every directive is below the one before it;
* `LuaAmbient.Derivation.fieldRuns` — the fields of each class of a block without a statement;
* `LuaAmbient.Derivation.classOf` — the class of an annotation with given fields;
* `LuaAmbient.ClassDecl.IsExtendedBy` — a class with further fields from a table literal.

Main results:

* `LuaAmbient.Derivation.flatten_fieldRuns` — every field belongs to exactly one class;
* `LuaAmbient.Derivation.exists_of_ofOrphan` — what a block without a statement declares;
* `LuaAmbient.Derivation.flatMap_fields_ofOrphan` — its classes have the fields of the block, in order;
* `LuaAmbient.Derivation.extends_classes_iff` — **a block of an assignment declares the classes of the
  block exactly if there is one**.
-/

import LuaAmbient.Declaration.Derivation
import LuaAmbient.Proofs.Except
import Mathlib.Data.List.Nodup
import Mathlib.Data.List.Pairwise
import Mathlib.Tactic.Common

set_option relaxedAutoImplicit false
set_option autoImplicit false

namespace LuaAmbient

open DocBlock (FieldNote)

/-! ### Lines -/

namespace DocBlock

/-- Every directive is below the one before it. -/
def HasIncreasingLines (b : DocBlock) : Prop :=
  b.directives.Pairwise fun d e => d.line < e.line

instance (b : DocBlock) : Decidable b.HasIncreasingLines :=
  inferInstanceAs (Decidable (b.directives.Pairwise _))

variable {b : DocBlock}

theorem mem_fields {f : FieldNote} :
    f ∈ b.fields ↔ ⟨f.line, .field f.name f.type f.description⟩ ∈ b.directives := by
  rw [fields, List.mem_filterMap]
  constructor
  · rintro ⟨⟨line, body⟩, hd, hf⟩
    cases body with
    | field name type description =>
        obtain rfl := Option.some.inj hf
        exact hd
    | _ => exact absurd hf (by simp)
  · intro hd
    exact ⟨_, hd, rfl⟩

theorem mem_classes {c : Int × Directive.ClassHeader} :
    c ∈ b.classes ↔ ⟨c.1, .classHeader c.2⟩ ∈ b.directives := by
  rw [classes, List.mem_filterMap]
  constructor
  · rintro ⟨⟨line, body⟩, hd, hc⟩
    cases body with
    | classHeader header =>
        obtain rfl := Option.some.inj hc
        exact hd
    | _ => exact absurd hc (by simp)
  · intro hd
    exact ⟨_, hd, rfl⟩

namespace HasIncreasingLines

variable (h : b.HasIncreasingLines)

include h

/-- What directives of one kind say stands on increasing lines. -/
theorem pairwise_filterMap {α : Type} {read : Directive → Option α} {line : α → Int}
    (hread : ∀ d, ∀ a ∈ read d, line a = d.line) :
    (b.directives.filterMap read).Pairwise fun x y => line x < line y := by
  refine List.pairwise_filterMap.2 (h.imp ?_)
  intro d e hlt x hx y hy
  rw [hread d x hx, hread e y hy]
  exact hlt

theorem fields : b.fields.Pairwise fun f g => f.line < g.line := by
  refine h.pairwise_filterMap ?_
  rintro ⟨line, body⟩ f hf
  cases body <;> simp at hf
  rw [← hf]

theorem classes : (b.classes.map (·.1)).Pairwise (· < ·) := by
  refine List.pairwise_map.2 (h.pairwise_filterMap ?_)
  rintro ⟨line, body⟩ c hc
  cases body <;> simp at hc
  rw [← hc]

/-- No field stands on the line of a class annotation. -/
theorem line_not_mem {f : FieldNote} (hf : f ∈ b.fields) : f.line ∉ b.classes.map (·.1) := by
  intro hline
  obtain ⟨c, hc, hline⟩ := List.mem_map.1 hline
  have hnodup : (b.directives.map (·.line)).Nodup := List.pairwise_map.2 (h.imp Int.ne_of_lt)
  have hsame := List.inj_on_of_nodup_map hnodup (mem_classes.1 hc) (mem_fields.1 hf) hline
  exact absurd (congrArg Directive.body hsame) (by simp)

end HasIncreasingLines

end DocBlock

namespace Derivation

/-! ### Runs of fields -/

/-- Below and above a line on which there is no field are all fields. -/
theorem filter_append_filter {notes : List FieldNote} {line : Int}
    (hsorted : notes.Pairwise fun f g => f.line < g.line) (hline : ∀ f ∈ notes, f.line ≠ line) :
    notes.filter (·.line < line) ++ notes.filter (line < ·.line) = notes := by
  induction notes with
  | nil => rfl
  | cons f notes ih =>
      obtain ⟨hf, hsorted⟩ := List.pairwise_cons.1 hsorted
      rcases Int.lt_or_gt_of_ne (hline f List.mem_cons_self) with hlt | hgt
      · have hrest := ih hsorted fun g hg => hline g (List.mem_cons_of_mem f hg)
        rw [List.filter_cons_of_pos (by simpa using hlt),
          List.filter_cons_of_neg (by simpa using Int.le_of_lt hlt), List.cons_append, hrest]
      · -- all fields behind this one are below the line too
        have hbelow : ∀ g ∈ f :: notes, line < g.line := by
          intro g hg
          rcases List.mem_cons.1 hg with rfl | hg
          · exact hgt
          · exact Int.lt_trans hgt (hf g hg)
        have hnone : (f :: notes).filter (·.line < line) = [] :=
          List.filter_eq_nil_iff.2 fun g hg => by simpa using Int.le_of_lt (hbelow g hg)
        have hall : (f :: notes).filter (line < ·.line) = f :: notes :=
          List.filter_eq_self.2 fun g hg => by simpa using hbelow g hg
        rw [hnone, hall, List.nil_append]

/-- The fields of each class of a block without a statement, given the lines of the annotations. -/
def fieldRuns (isFirst : Bool) (notes : List FieldNote) : List Int → List (List FieldNote)
  | [] => []
  | line :: lines =>
    ((if isFirst then notes.filter (·.line < line) else []) ++ ownedFields line lines.head? notes) ::
      fieldRuns false notes lines

@[simp] theorem length_fieldRuns (isFirst : Bool) (notes : List FieldNote) (lines : List Int) :
    (fieldRuns isFirst notes lines).length = lines.length := by
  induction lines generalizing isFirst with
  | nil => rfl
  | cons line lines ih => rw [fieldRuns, List.length_cons, ih, List.length_cons]

section Runs

variable {notes : List FieldNote} {line : Int} {lines : List Int}
  (hsorted : notes.Pairwise fun f g => f.line < g.line)
  (hlines : (line :: lines).Pairwise (· < ·)) (hfree : ∀ f ∈ notes, f.line ∉ line :: lines)

include hsorted hlines hfree

/-- From a class annotation on, the classes have all fields below it. -/
theorem flatten_fieldRuns_false :
    (fieldRuns false notes (line :: lines)).flatten = notes.filter (line < ·.line) := by
  induction lines generalizing line with
  | nil => simp [fieldRuns, ownedFields]
  | cons next lines ih =>
      obtain ⟨hline, hlines⟩ := List.pairwise_cons.1 hlines
      have hlt : line < next := hline next List.mem_cons_self
      have hrest := ih hlines fun f hf hmem => hfree f hf (List.mem_cons_of_mem line hmem)
      have hown : ownedFields line (some next) notes =
          (notes.filter (line < ·.line)).filter (·.line < next) := by
        rw [ownedFields, List.filter_filter]
        exact List.filter_congr fun f _ => Bool.and_comm _ _
      have hbelow : notes.filter (next < ·.line) =
          (notes.filter (line < ·.line)).filter (next < ·.line) := by
        rw [List.filter_filter]
        refine List.filter_congr fun f _ => ?_
        by_cases hf : next < f.line
        · simp [hf, Int.lt_trans hlt hf]
        · simp [hf]
      have hnext : ∀ f ∈ notes.filter (line < ·.line), f.line ≠ next := by
        intro f hf heq
        exact hfree f (List.mem_filter.1 hf).1 (by simp [heq])
      rw [fieldRuns, List.flatten_cons, hrest, hbelow, List.head?_cons, hown]
      exact filter_append_filter (hsorted.filter _) hnext

/-- Every field belongs to exactly one class. -/
theorem flatten_fieldRuns : (fieldRuns true notes (line :: lines)).flatten = notes := by
  have hbelow := flatten_fieldRuns_false hsorted hlines hfree
  have hline : ∀ f ∈ notes, f.line ≠ line := fun f hf heq => hfree f hf (by simp [heq])
  rw [fieldRuns, List.flatten_cons] at hbelow
  rw [fieldRuns, List.flatten_cons, if_pos rfl, List.append_assoc]
  simp only [Bool.false_eq_true, if_false, List.nil_append] at hbelow
  rw [hbelow]
  exact filter_append_filter hsorted hline

end Runs

/-! ### The classes that are declared -/

section Classes

variable {fileGenerics : List String} {b : DocBlock}

/-- The class of an annotation whose parent has been read, with the given fields. -/
def classOf (fileGenerics : List String) (b : DocBlock) (header : Directive.ClassHeader)
    (parent : Option String × Bool × List String) (fields : List FieldDecl) : ClassDecl where
  name := header.name
  generics := firstNonEmpty [header.generics, b.generics, fileGenerics]
  parent := parent.1
  fields := fields
  tableShape := (shapeParts header.parent).1
  isAliasLike := parent.2.1
  comments := b.comments

/-- Annotated fields, and those that a table literal adds to them. -/
def extendFields (fields : List FieldDecl) (entries : List Lua.Entry) : List FieldDecl :=
  fields ++ literalFields (fields.map (·.name)) entries

/-- A class is declared for an annotation with the given fields, each with its name, the text of its
type, and its description. -/
def IsClassOf (fileGenerics : List String) (b : DocBlock)
    (p : (Int × Directive.ClassHeader) × List FieldNote) (c : ClassDecl) : Prop :=
  ∃ parent, parentParts p.1.1 p.1.2.parent = .ok parent ∧
    c = classOf fileGenerics b p.1.2 parent
      (p.2.map fun f => ⟨f.name, TypeScript.text f.type, f.description⟩)

/-- What is declared of a field annotation. -/
theorem fieldInfo_eq :
    fieldInfo = fun f => ⟨f.name, TypeScript.text f.type, f.description⟩ := rfl

theorem declarations_ofClass {line : Int} {header : Directive.ClassHeader}
    {notes : List FieldNote} {table : Option (List Lua.Entry)} {r : Derivation}
    (h : ofClass fileGenerics b line header notes table = .ok r) :
    ∃ parent, parentParts line header.parent = .ok parent ∧
      r.declarations = [.class_ (classOf fileGenerics b header parent
        (extendFields (notes.map fieldInfo) (table.getD [])))] := by
  obtain ⟨⟨parent, isAliasLike, names⟩, hparent, h⟩ := bind_eq_ok h
  obtain rfl := Except.ok.inj h
  exact ⟨_, hparent, rfl⟩

/-- Without a table literal, a class has the given fields only. -/
theorem isClassOf_of_ofClass {line : Int} {header : Directive.ClassHeader}
    {notes : List FieldNote} {r : Derivation}
    (h : ofClass fileGenerics b line header notes none = .ok r) :
    ∃ c, r.declarations = [.class_ c] ∧ IsClassOf fileGenerics b ((line, header), notes) c := by
  obtain ⟨parent, hparent, hdecl⟩ := declarations_ofClass h
  refine ⟨_, hdecl, parent, hparent, ?_⟩
  rw [Option.getD_none, extendFields, literalFields, List.append_nil, fieldInfo_eq]

theorem declarations_ofClasses {isFirst : Bool} {headers : List (Int × Directive.ClassHeader)}
    {parts : List Derivation} (h : ofClasses fileGenerics b isFirst headers = .ok parts) :
    ∃ cs, parts.flatMap (·.declarations) = cs.map .class_ ∧
      List.Forall₂ (IsClassOf fileGenerics b)
        (headers.zip (fieldRuns isFirst b.fields (headers.map (·.1)))) cs := by
  induction headers generalizing isFirst parts with
  | nil =>
      obtain rfl := Except.ok.inj h
      exact ⟨[], rfl, .nil⟩
  | cons p headers ih =>
      obtain ⟨line, header⟩ := p
      obtain ⟨first, hfirst, h⟩ := bind_eq_ok h
      obtain ⟨others, hothers, h⟩ := bind_eq_ok h
      obtain rfl := Except.ok.inj h
      rw [← List.head?_map] at hfirst
      obtain ⟨c, hdecl, hc⟩ := isClassOf_of_ofClass hfirst
      obtain ⟨cs, hcs, hforall⟩ := ih hothers
      refine ⟨c :: cs, ?_, .cons hc hforall⟩
      rw [List.flatMap_cons, hdecl, hcs, List.map_cons, List.singleton_append]

/-- The classes among the declarations. -/
def classes (r : Derivation) : List ClassDecl :=
  r.declarations.filterMap Declaration.class?

/-- A block without a statement declares one class for each class annotation, and then its aliases. -/
theorem exists_of_ofOrphan {r : Derivation} (h : ofOrphan fileGenerics b = .ok r) :
    ∃ cs, r.declarations = cs.map .class_ ++ (ofAliases b).declarations ∧
      List.Forall₂ (IsClassOf fileGenerics b)
        (b.classes.zip (fieldRuns true b.fields (b.classes.map (·.1)))) cs := by
  obtain ⟨parts, hparts, h⟩ := bind_eq_ok h
  obtain rfl := Except.ok.inj h
  obtain ⟨cs, hcs, hforall⟩ := declarations_ofClasses hparts
  refine ⟨cs, ?_, hforall⟩
  rw [concat, List.flatMap_append, hcs, List.flatMap_singleton]

/-- No alias is among the classes. -/
theorem classes_eq_of_declarations {r : Derivation} {cs : List ClassDecl}
    (h : r.declarations = cs.map .class_ ++ (ofAliases b).declarations) : r.classes = cs := by
  have haliases : (ofAliases b).declarations.filterMap Declaration.class? = [] := by
    simp [ofAliases, Declaration.class?]
  have hclasses : (cs.map Declaration.class_).filterMap Declaration.class? = cs := by
    simp [List.filterMap_map, Function.comp_def, Declaration.class?]
  rw [classes, h, List.filterMap_append, haliases, hclasses, List.append_nil]

theorem classes_ofOrphan {r : Derivation} (h : ofOrphan fileGenerics b = .ok r) :
    List.Forall₂ (IsClassOf fileGenerics b)
      (b.classes.zip (fieldRuns true b.fields (b.classes.map (·.1)))) r.classes := by
  obtain ⟨cs, hdecl, hforall⟩ := exists_of_ofOrphan h
  rwa [classes_eq_of_declarations hdecl]

theorem length_classes_ofOrphan {r : Derivation} (h : ofOrphan fileGenerics b = .ok r) :
    r.classes.length = b.classes.length := by
  rw [← (classes_ofOrphan h).length_eq]
  simp

theorem map_fields_of_forall₂ {ps : List ((Int × Directive.ClassHeader) × List FieldNote)}
    {cs : List ClassDecl} (h : List.Forall₂ (IsClassOf fileGenerics b) ps cs) :
    cs.map (·.fields) = (ps.map Prod.snd).map
      (List.map fun f => ⟨f.name, TypeScript.text f.type, f.description⟩) := by
  induction h with
  | nil => rfl
  | cons hc _ ih =>
      obtain ⟨parent, -, rfl⟩ := hc
      rw [List.map_cons, List.map_cons, List.map_cons, ih]
      rfl

/-- The classes of a block without a statement have the fields of the block, in order. -/
theorem flatMap_fields_ofOrphan {r : Derivation} (hlines : b.HasIncreasingLines)
    (hb : b.classes ≠ []) (h : ofOrphan fileGenerics b = .ok r) :
    r.classes.flatMap (·.fields) =
      b.fields.map fun f => ⟨f.name, TypeScript.text f.type, f.description⟩ := by
  have hruns : (fieldRuns true b.fields (b.classes.map (·.1))).flatten = b.fields := by
    obtain ⟨c, cs, hcs⟩ := List.exists_cons_of_ne_nil hb
    have hincreasing := hlines.classes
    have hfree := fun f hf => hlines.line_not_mem (f := f) hf
    rw [hcs, List.map_cons] at hincreasing hfree ⊢
    exact flatten_fieldRuns hlines.fields hincreasing hfree
  rw [List.flatMap_def, map_fields_of_forall₂ (classes_ofOrphan h), List.map_snd_zip (by simp),
    ← List.map_flatten, hruns]

end Classes

/-! ### The classes of an assignment -/

end Derivation

/-- The values that a statement assigns. -/
def Lua.Action.assigned? : Lua.Action → Option (List Lua.Expr)
  | .local_ _ init => some init
  | .assign _ init => some init
  | _ => none

/-- A class with the fields of another one, and with those that a table literal adds to them. -/
structure ClassDecl.IsExtendedBy (entries : List Lua.Entry) (o c : ClassDecl) : Prop where
  name_eq : c.name = o.name
  fields_eq : c.fields = Derivation.extendFields o.fields entries

namespace Derivation

variable {fileGenerics : List String} {b : DocBlock} {s : Lua.Statement}

/-- The entries of the first table literal among values. -/
def tableEntries (init : List Lua.Expr) : List Lua.Entry :=
  (Lua.Expr.firstTable? init).getD []

theorem ofAssignment_of_classes {target : Option String} {isPlain : Bool} {init : List Lua.Expr}
    {c : Int × Directive.ClassHeader} {cs : List (Int × Directive.ClassHeader)}
    (hb : b.classes = c :: cs) :
    ofAssignment fileGenerics target isPlain init b =
      ofClass fileGenerics b c.1 c.2 b.fields (Lua.Expr.firstTable? init) := by
  simp only [ofAssignment, hb]

/-- A block of an assignment declares its first class, with all fields. -/
theorem classes_of_assigned {init : List Lua.Expr} {r : Derivation}
    {c : Int × Directive.ClassHeader} {cs : List (Int × Directive.ClassHeader)}
    (hs : s.action.assigned? = some init) (hb : b.classes = c :: cs)
    (h : ofStatement fileGenerics s b = .ok r) :
    ∃ parent, parentParts c.1 c.2.parent = .ok parent ∧
      r.classes = [classOf fileGenerics b c.2 parent
        (extendFields (b.fields.map fun f => ⟨f.name, TypeScript.text f.type, f.description⟩)
          (tableEntries init))] := by
  have hclass : ofClass fileGenerics b c.1 c.2 b.fields (Lua.Expr.firstTable? init) = .ok r := by
    rw [ofStatement] at h
    cases haction : s.action with
    | local_ names init' =>
        rw [haction] at hs h
        obtain rfl := Option.some.inj hs
        rwa [← ofAssignment_of_classes hb]
    | assign targets init' =>
        rw [haction] at hs h
        obtain rfl := Option.some.inj hs
        rwa [← ofAssignment_of_classes hb]
    | _ =>
        rw [haction] at hs
        exact absurd hs (by simp [Lua.Action.assigned?])
  obtain ⟨parent, hparent, hdecl⟩ := declarations_ofClass hclass
  refine ⟨parent, hparent, ?_⟩
  rw [classes, hdecl, fieldInfo_eq]
  rfl

/-- **A block of an assignment declares the classes of the block exactly if there is one.**  It declares
the first one, with the fields of all of them and with those that a table literal adds. -/
theorem extends_classes_iff {init : List Lua.Expr} {r r' : Derivation}
    (hlines : b.HasIncreasingLines) (hb : b.classes ≠ []) (hs : s.action.assigned? = some init)
    (h : ofStatement fileGenerics s b = .ok r) (h' : ofOrphan fileGenerics b = .ok r') :
    ∃ o os, r'.classes = o :: os ∧
      r.classes = [{ o with
        fields := extendFields ((o :: os).flatMap (·.fields)) (tableEntries init) }] ∧
      (List.Forall₂ (ClassDecl.IsExtendedBy (tableEntries init)) r'.classes r.classes ↔
        b.classes.length = 1) := by
  have hfields := flatMap_fields_ofOrphan hlines hb h'
  have hlength := length_classes_ofOrphan h'
  obtain ⟨c, cs, hcs⟩ := List.exists_cons_of_ne_nil hb
  obtain ⟨parent, hparent, hr⟩ := classes_of_assigned hs hcs h
  have hforall := classes_ofOrphan h'
  rw [hcs, List.map_cons, fieldRuns, List.zip_cons_cons] at hforall
  cases hclasses : r'.classes with
  | nil => simp [hclasses, hcs] at hlength
  | cons o os =>
      rw [hclasses] at hforall hfields hlength
      obtain ⟨⟨parent', hparent', rfl⟩, -⟩ := List.forall₂_cons.1 hforall
      obtain rfl := Except.ok.inj (hparent.symm.trans hparent')
      rw [← hfields] at hr
      refine ⟨_, os, rfl, hr, ?_⟩
      rw [hr, ← hlength]
      constructor
      · intro hextends
        exact hextends.length_eq
      · intro hone
        obtain rfl : os = [] := by simpa using hone
        exact .cons ⟨rfl, by rw [List.flatMap_singleton]; rfl⟩ .nil

/-- A block with two classes, with a field above the first one and one below each. -/
def pairBlock : DocBlock :=
  ⟨[⟨1, .field "y" (.plain "number") none⟩, ⟨2, .classHeader ⟨"Point", [], .none⟩⟩,
    ⟨3, .field "x" (.plain "number") none⟩, ⟨4, .classHeader ⟨"Size", ["T"], .named "Point"⟩⟩,
    ⟨5, .field "w" (.plain "T") none⟩], 1, 5⟩

/-- The values of an assignment below the block: a table literal with two named entries. -/
def pairValues : List Lua.Expr :=
  [.table [.mk (.number "0") (some "x") none, .mk (.string "") (some "label") none]]

/-- Of the two classes only the first one is left, and the field of the other one moves to it. -/
theorem extends_classes_of_pair :
    ∃ r r', ofStatement [] ⟨⟨6, 1, 6, 30⟩, .local_ ["Point"] pairValues⟩ pairBlock = .ok r ∧
      ofOrphan [] pairBlock = .ok r' ∧
      r'.classes.map (fun c => (c.name, c.fields.map (·.name))) =
        [("Point", ["y", "x"]), ("Size", ["w"])] ∧
      r.classes.map (fun c => (c.name, c.fields.map (·.name))) =
        [("Point", ["y", "x", "w", "label"])] ∧
      ¬ List.Forall₂ (ClassDecl.IsExtendedBy (tableEntries pairValues)) r'.classes r.classes := by
  obtain ⟨r, hr, hnames⟩ := exists_ok_of_toOption_map
    (e := ofStatement [] ⟨⟨6, 1, 6, 30⟩, .local_ ["Point"] pairValues⟩ pairBlock)
    (g := fun r => r.classes.map fun c => (c.name, c.fields.map (·.name)))
    (b := [("Point", ["y", "x", "w", "label"])]) (by decide +kernel)
  obtain ⟨r', hr', hnames'⟩ := exists_ok_of_toOption_map (e := ofOrphan [] pairBlock)
    (g := fun r => r.classes.map fun c => (c.name, c.fields.map (·.name)))
    (b := [("Point", ["y", "x"]), ("Size", ["w"])]) (by decide +kernel)
  obtain ⟨o, os, -, -, hiff⟩ := extends_classes_iff (by decide) (by decide) rfl hr hr'
  exact ⟨r, r', hr, hr', hnames', hnames, fun hextends => absurd (hiff.1 hextends) (by decide)⟩

end Derivation

end LuaAmbient
