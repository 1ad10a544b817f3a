/-
**Declarations of one name are put together.**

The definitions of a function are merged in the place of the first one, in their order, and a type of a
name that an earlier type has is left out with a warning.  What is left of a declaration can therefore
be told from those in front of it and those behind it.

Main definitions:

* `LuaAmbient.Derivation.remainders` — what is left of all declarations.

Main results:

* `LuaAmbient.Derivation.nodup_functionNames_collapse`,
  `LuaAmbient.Derivation.nodup_typeNames_collapse` — the names of functions and of types are distinct;
* `LuaAmbient.Derivation.collapse_eq` — what is left of all declarations;
* `LuaAmbient.Derivation.repeated_eq` — the types that are left out;
* `LuaAmbient.SourceDeclarations.declares_remainders` — **the declarations of a file are what is left of
  those of its parts**.
-/

import LuaAmbient.Proofs.Declaration.Collecting
import LuaAmbient.Proofs.Except

set_option relaxedAutoImplicit false
set_option autoImplicit false

namespace LuaAmbient

namespace Derivation

/-! ### What is left of all declarations -/

/-- What is left of all declarations, in order. -/
def remainders (l : List Declaration) : List Declaration :=
  l.zipIdx.filterMap fun p => remaining? (l.take p.2) p.1 (l.drop (p.2 + 1))

theorem definitionsOf_append (name : String) (l m : List Declaration) :
    definitionsOf name (l ++ m) = definitionsOf name l ++ definitionsOf name m := by
  simp [definitionsOf]

/-- One more declaration at the end is merged into what was left of another one. -/
theorem remaining?_append (before : List Declaration) (k : Declaration) (behind : List Declaration)
    (d : Declaration) :
    remaining? before k (behind ++ [d]) = (remaining? before k behind).map (absorb d) := by
  cases k with
  | function f =>
      rw [remaining?, remaining?, definitionsOf_append, List.foldl_append]
      split
      · rfl
      · rw [Option.map_some, Option.some.injEq]
        cases d with
        | function g =>
            rw [absorb, qualifiedName_foldl_merge]
            by_cases hname : f.qualifiedName = g.qualifiedName
            · simp [definitionsOf, Declaration.function?, hname]
            · simp [definitionsOf, Declaration.function?, hname, Ne.symm hname]
        | _ => rfl
  | _ =>
      simp only [remaining?]
      split <;> cases d <;> rfl

theorem remainders_append (l : List Declaration) (d : Declaration) :
    remainders (l ++ [d]) = (remainders l).map (absorb d) ++ (remaining? l d []).toList := by
  have hfront : l.zipIdx.filterMap (fun p =>
        remaining? ((l ++ [d]).take p.2) p.1 ((l ++ [d]).drop (p.2 + 1))) =
      (remainders l).map (absorb d) := by
    rw [remainders, List.map_filterMap]
    refine List.filterMap_congr fun ⟨k, i⟩ hk => ?_
    have hlt : i < l.length := (List.mem_zipIdx' hk).1
    rw [List.take_append_of_le_length (Nat.le_of_lt hlt), List.drop_append_of_le_length hlt,
      remaining?_append]
  have hlast : remaining? ((l ++ [d]).take l.length) d ((l ++ [d]).drop (l.length + 1)) =
      remaining? l d [] := by
    rw [List.take_left, List.drop_eq_nil_of_le (by simp)]
  rw [remainders, List.zipIdx_append, List.filterMap_append, hfront, List.zipIdx_singleton,
    Nat.zero_add, List.filterMap_cons, hlast]
  cases remaining? l d [] <;> rfl

/-! ### Distinct names -/

section Names

variable {name? : Declaration → Option String}
  (habsorb : ∀ d k, name? (absorb d k) = name? k)
  (hnew : ∀ before d behind, (remaining? before d behind).toList.filterMap name? =
    ([d].filterMap name?).filter fun name => name ∉ before.filterMap name?)

include habsorb hnew

/-- No name is lost or added. -/
theorem mem_filterMap_collapse {l : List Declaration} {name : String} :
    name ∈ (collapse l).filterMap name? ↔ name ∈ l.filterMap name? := by
  induction l using List.reverseRecOn with
  | nil => rfl
  | append_singleton l d ih =>
      rw [collapse_append, filterMap_joined habsorb hnew, List.filterMap_append, List.mem_append,
        List.mem_append, List.mem_filter, ← ih]
      simp only [decide_eq_true_eq]
      tauto

end Names

theorem mem_functionNames_collapse {l : List Declaration} {name : String} :
    name ∈ functionNames (collapse l) ↔ name ∈ functionNames l :=
  mem_filterMap_collapse functionName?_absorb functionNames_remaining?

theorem mem_typeNames_collapse {l : List Declaration} {name : String} :
    name ∈ typeNames (collapse l) ↔ name ∈ typeNames l :=
  mem_filterMap_collapse typeName?_absorb typeNames_remaining?

theorem nodup_functionNames_collapse (l : List Declaration) :
    (functionNames (collapse l)).Nodup :=
  (inStep_collect l).nodup_functionNames

theorem nodup_typeNames_collapse (l : List Declaration) : (typeNames (collapse l)).Nodup :=
  (inStep_collect l).nodup_typeNames

theorem repeats_collapse {l : List Declaration} {d : Declaration} :
    Repeats (collapse l) d ↔ Repeats l d := by
  simp only [Repeats, mem_typeNames_collapse]

/-! ### Left and left out -/

/-- What is left of one more declaration does not depend on what was left of the earlier ones. -/
theorem remaining?_collapse (l : List Declaration) (d : Declaration) :
    remaining? (collapse l) d [] = remaining? l d [] := by
  cases hd : d.function? with
  | none =>
      rw [remaining?_of_not_function hd, remaining?_of_not_function hd,
        if_congr repeats_collapse rfl rfl]
  | some f =>
      obtain rfl := eq_function hd
      rw [remaining?, remaining?, if_congr mem_functionNames_collapse rfl rfl]

/-- **Declarations are what is left of each of them.** -/
theorem collapse_eq (l : List Declaration) : collapse l = remainders l := by
  induction l using List.reverseRecOn with
  | nil => rfl
  | append_singleton l d ih =>
      rw [collapse_append, joined, remainders_append, remaining?_collapse, ih]

/-- What is left is left of a declaration between others. -/
theorem exists_of_mem_remainders {l : List Declaration} {e : Declaration} (h : e ∈ remainders l) :
    ∃ before d behind, l = before ++ d :: behind ∧ remaining? before d behind = some e := by
  obtain ⟨⟨d, i⟩, hmem, hleft⟩ := List.mem_filterMap.1 h
  obtain ⟨hlt, hd⟩ := List.mem_zipIdx' hmem
  refine ⟨l.take i, d, l.drop (i + 1), ?_, hleft⟩
  rw [show d = l[i] from hd, List.getElem_cons_drop, List.take_append_drop]

/-- A function that is left is what its definitions are merged into, in their order. -/
theorem exists_definitions_of_mem_collapse {l : List Declaration} {f : FunctionDecl}
    (h : .function f ∈ collapse l) :
    ∃ g gs, definitionsOf f.qualifiedName l = g :: gs ∧ f = gs.foldl FunctionDecl.merge g := by
  rw [collapse_eq] at h
  obtain ⟨before, d, behind, rfl, hleft⟩ := exists_of_mem_remainders h
  cases hd : d.function? with
  | none =>
      rw [remaining?_of_not_function hd] at hleft
      split at hleft
      · exact absurd hleft (by simp)
      · rw [Option.some.inj hleft] at hd
        exact absurd hd (by simp [Declaration.function?])
  | some g =>
      obtain rfl := eq_function hd
      rw [remaining?] at hleft
      split at hleft
      · exact absurd hleft (by simp)
      · next hnew =>
        obtain rfl := Declaration.function.inj (Option.some.inj hleft)
        refine ⟨g, definitionsOf g.qualifiedName behind, ?_, rfl⟩
        have hbefore : definitionsOf g.qualifiedName before = [] := by
          refine List.filter_eq_nil_iff.2 fun k hk hname => hnew ?_
          obtain ⟨d, hd, hk⟩ := List.mem_filterMap.1 hk
          exact mem_functionNames.2 ⟨k, eq_function hk ▸ hd, by simpa using hname⟩
        have hself : definitionsOf g.qualifiedName [.function g] = [g] := by
          simp [definitionsOf, Declaration.function?]
        rw [qualifiedName_foldl_merge, definitionsOf_append, hbefore, List.nil_append,
          ← List.singleton_append, definitionsOf_append, hself, List.singleton_append]

/-- The types that are left out are those that repeat the name of an earlier one. -/
theorem repeated_eq (l : List Declaration) :
    (collect l).repeated = (l.zipIdx.filter fun p => Repeats (l.take p.2) p.1).map Prod.fst := by
  induction l using List.reverseRecOn with
  | nil => rfl
  | append_singleton l d ih =>
      have hfront : l.zipIdx.filter (fun p => Repeats ((l ++ [d]).take p.2) p.1) =
          l.zipIdx.filter fun p => Repeats (l.take p.2) p.1 := by
        refine List.filter_congr fun ⟨k, i⟩ hk => ?_
        rw [List.take_append_of_le_length (Nat.le_of_lt (List.mem_zipIdx' hk).1)]
      rw [repeated_append, ih, List.zipIdx_append, List.filter_append, List.map_append, hfront,
        List.zipIdx_singleton, Nat.zero_add, List.filter_singleton, List.take_left,
        if_congr repeats_collapse rfl rfl]
      by_cases hd : Repeats l d <;> simp [hd]

end Derivation

/-! ### Files -/

open LuaAmbient.Derivation

/-- **The declarations of a file are what is left of those of its parts.**  First come those of the
statements with their blocks, and then those of the orphaned blocks. -/
theorem SourceDeclarations.declares_remainders {path : String} {a : Attachment}
    {attached orphaned : List Derivation}
    (hattached : a.attached.mapM (fun p => ofStatement a.fileGenerics p.1 p.2) = .ok attached)
    (horphaned : a.orphaned.mapM (ofOrphan a.fileGenerics) = .ok orphaned) :
    ∃ file log, SourceDeclarations.ofAttachment path a = .ok (file, log) ∧
      let all := (attached ++ orphaned).flatMap (·.declarations)
      file.declarations = remainders all ∧
        log = (all.zipIdx.filter fun p => Repeats (all.take p.2) p.1).map
          (fun p => repeatedWarning path p.1) ∧
        (functionNames file.declarations).Nodup ∧ (typeNames file.declarations).Nodup := by
  have hparts : a.derivations = .ok (attached ++ orphaned) := by
    rw [Attachment.derivations, hattached, horphaned]
    rfl
  rw [SourceDeclarations.ofAttachment, hparts]
  refine ⟨_, _, rfl, collapse_eq _, ?_, nodup_functionNames_collapse _, nodup_typeNames_collapse _⟩
  rw [repeated_eq, List.map_map]
  rfl

/-- Three definitions of one function with another function and a class between them, and an orphaned
block with a class and two aliases, one of the name of each class. -/
def overlappingAttachment : Attachment where
  attached := [
    (⟨⟨1, 1, 1, 9⟩, .function (.name "run") ["a"] false⟩, DocBlock.empty),
    (⟨⟨3, 1, 3, 9⟩, .local_ ["Item"] [.table []]⟩,
      ⟨[⟨2, .classHeader ⟨"Item", [], .none⟩⟩], 2, 2⟩),
    (⟨⟨4, 1, 4, 9⟩, .function (.name "run") ["b", "..."] false⟩, DocBlock.empty),
    (⟨⟨5, 1, 5, 9⟩, .function (.name "stop") [] true⟩, DocBlock.empty),
    (⟨⟨6, 1, 6, 9⟩, .function (.name "run") [] false⟩, DocBlock.empty)]
  orphaned := [⟨[⟨8, .aliasOf "Item" (.plain "Box")⟩, ⟨9, .classHeader ⟨"Box", [], .none⟩⟩,
    ⟨10, .aliasOf "Box" (.plain "string")⟩], 8, 10⟩]

/-- The three definitions are one signature in the place of the first one, and both aliases are left
out. -/
theorem SourceDeclarations.declares_remainders_of_overlapping :
    ∃ file log, SourceDeclarations.ofAttachment "m.lua" overlappingAttachment = .ok (file, log) ∧
      file.declarations.map (fun d => (d.kind, d.name)) =
        [(.function, "run"), (.class_, "Item"), (.function, "stop"), (.class_, "Box")] ∧
      file.declarations.head? = some (.function ⟨"run", false, [],
        [("a_or_b?", ⟨"any", none⟩), ("...args", ⟨"Array<any>", none⟩)], none, []⟩) ∧
      log = [⟨.warning, "m.lua: duplicate alias 'Item' ignored"⟩,
        ⟨.warning, "m.lua: duplicate alias 'Box' ignored"⟩] ∧
      (functionNames file.declarations).Nodup ∧ (typeNames file.declarations).Nodup := by
  obtain ⟨attached, hattached⟩ : ∃ attached, overlappingAttachment.attached.mapM
      (fun p => ofStatement overlappingAttachment.fileGenerics p.1 p.2) = .ok attached := ⟨_, rfl⟩
  obtain ⟨orphaned, horphaned⟩ : ∃ orphaned, overlappingAttachment.orphaned.mapM
      (ofOrphan overlappingAttachment.fileGenerics) = .ok orphaned := ⟨_, rfl⟩
  obtain ⟨file, log, hfile, -, -, hfunctions, htypes⟩ :=
    SourceDeclarations.declares_remainders hattached horphaned
  obtain ⟨r, hr, heq⟩ := exists_ok_of_toOption_map
    (e := SourceDeclarations.ofAttachment "m.lua" overlappingAttachment)
    (g := fun r => (r.1.declarations.map fun d => (d.kind, d.name), r.1.declarations.head?, r.2))
    (b := ([(.function, "run"), (.class_, "Item"), (.function, "stop"), (.class_, "Box")],
      some (.function ⟨"run", false, [],
        [("a_or_b?", ⟨"any", none⟩), ("...args", ⟨"Array<any>", none⟩)], none, []⟩),
      [⟨.warning, "m.lua: duplicate alias 'Item' ignored"⟩,
        ⟨.warning, "m.lua: duplicate alias 'Box' ignored"⟩]))
    (by decide +kernel)
  obtain rfl : (file, log) = r := Except.ok.inj (hfile.symm.trans hr)
  simp only [Prod.mk.injEq] at heq
  exact ⟨file, log, hfile, heq.1, heq.2.1, heq.2.2, hfunctions, htypes⟩

end LuaAmbient
