/-
**Which stubs declare a legal name.**

A name that no file exports is declared as an unknown type, unless the configuration or a known handle
type says how.  The name has been read out of a comment of a chunk and has passed a test for words,
which numbers and the two truth values pass as well: these are declared under a name that no type can
have.

Main definitions:

* `LuaAmbient.Emission.unknownStub`, `LuaAmbient.Emission.IsUnspecified` — the default stub, and the
  names that get it;
* `LuaAmbient.Emission.HasUnknownStub` — what is known of a name with a default stub.

Main results:

* `LuaAmbient.Emission.exists_stubText` — a stub is a line of the file;
* `LuaAmbient.Emission.unknownStub_legal_iff` — **which names in types and stubs are legal**.
-/

import LuaAmbient.Proofs.Declaration.UsedNames
import LuaAmbient.Proofs.Emission.Comments
import LuaAmbient.Proofs.Emission.Imports
import LuaAmbient.Proofs.TypeScript.LegalName

set_option relaxedAutoImplicit false
set_option autoImplicit false

namespace LuaAmbient.Emission

open LuaAmbient.Text
open LuaAmbient.TypeScript (IsLegalName StartsName)

/-! ### Default stubs -/

/-- The declaration of a name as an unknown type. -/
def unknownStub (name : String) : String :=
  "type " ++ name ++ " = unknown;"

/-- Neither the configuration nor a known handle type says how the name is declared. -/
def IsUnspecified (configured : List (String × String)) (name : String) : Prop :=
  Keyed.get? configured name = none ∧ Keyed.get? knownStubs name = none

instance (configured : List (String × String)) (name : String) :
    Decidable (IsUnspecified configured name) :=
  inferInstanceAs (Decidable (_ ∧ _))

theorem stub_of_isUnspecified {configured : List (String × String)} {name : String}
    (h : IsUnspecified configured name) : stub configured name = unknownStub name := by
  rw [stub, h.1, h.2]
  rfl

/-! ### Lines of stubs -/

/-- Lines behind a text that ends in a line feed end in one. -/
theorem exists_concat_lines (head : String) (lines : List String) :
    ∃ before, head ++ "\n" ++ concat (lines.map (· ++ "\n")) = before ++ "\n" := by
  rcases List.eq_nil_or_concat lines with rfl | ⟨init, last, rfl⟩
  · exact ⟨head, String.append_empty⟩
  · have hlast : concat [last ++ "\n"] = last ++ "\n" := rfl
    refine ⟨head ++ "\n" ++ concat (init.map (· ++ "\n")) ++ last, ?_⟩
    rw [List.concat_eq_append, List.map_append, concat_append, List.map_singleton, hlast]
    simp only [String.append_assoc]

/-- A stub that is not empty is a line of the stubs. -/
theorem exists_stubText {configured : List (String × String)} {missing : List String} {name : String}
    (h : name ∈ missing) (hne : stub configured name ≠ "") :
    ∃ before behind,
      stubText configured missing = before ++ "\n" ++ stub configured name ++ "\n" ++ behind := by
  have hmem : stub configured name ∈ (missing.map (stub configured)).filter fun s => !s.isEmpty :=
    List.mem_filter.2 ⟨List.mem_map_of_mem h, by simpa using hne⟩
  have hmissing : missing.isEmpty = false := List.isEmpty_eq_false_iff_exists_mem.2 ⟨name, h⟩
  have hhead : "// Unresolved dependencies\n" = "// Unresolved dependencies" ++ "\n" := rfl
  obtain ⟨above, below, hstubs⟩ := List.append_of_mem hmem
  obtain ⟨before, hbefore⟩ := exists_concat_lines "// Unresolved dependencies" above
  refine ⟨before, concat (below.map (· ++ "\n")) ++ "// -------------\n\n", ?_⟩
  rw [← hbefore, stubText, if_neg (by simp [hmissing]), hstubs, hhead]
  simp only [List.map_append, List.map_cons, concat_append, concat_cons, String.append_assoc]

/-! ### Names of stubs -/

/-- A declaration file has the default stub of a name that stands on one of the given lines, and
the stub declares a legal name unless that is a truth value or starts like a number. -/
structure HasUnknownStub (lines : List Directive.Line) (out : DeclarationFile) (name : String) :
    Prop where
  written : ∃ before behind, out.text = before ++ "\n" ++ unknownStub name ++ "\n" ++ behind
  stands : Directive.StandsOn lines name
  legal_iff : IsLegalName name ↔ StartsName name ∧ name ≠ "true" ∧ name ≠ "false"

theorem unknownStub_ne_empty (name : String) : unknownStub name ≠ "" := by
  intro h
  have hlist := congrArg String.toList h
  simp [unknownStub] at hlist

section Chunk

variable {path : String} {chunk : Lua.Chunk} {file : SourceDeclarations} {log : List Log.Entry}
  (h : SourceDeclarations.ofChunk path chunk = .ok (file, log))

include h

/-- A name that a chunk refers to stands on a line, so that no line feed is in it. -/
theorem feed_not_mem_of_ofChunk : ∀ name ∈ file.usedNames, '\n' ∉ name.toList := by
  intro name hname hfeed
  obtain ⟨l, hl, hs⟩ := SourceDeclarations.standsOn_of_ofChunk h name hname
  exact DocBlock.feed_not_mem_of_mem_linesOf hl (hs.subset hfeed)

theorem hasUnknownStub_of_produce {configured : List (String × String)}
    {files : List SourceDeclarations} {graph : List (String × List String)}
    {emitted : List DeclarationFile} (hfile : file ∈ files) (hn : (files.map (·.path)).Nodup)
    (he : (produce configured files graph).1 = .ok emitted) {out : DeclarationFile}
    (hout : out ∈ emitted) (hpath : out.path = path) {name : String} (hname : name ∈ out.missing)
    (hunspecified : IsUnspecified configured name) :
    HasUnknownStub (DocBlock.linesOf chunk.comments) out name := by
  obtain ⟨source, hsource, hsourcePath, hcomplete⟩ := exists_source_of_produce hn he out hout
  -- the paths are distinct, so the file comes from this source
  obtain rfl : source = file := by
    refine List.inj_on_of_nodup_map hn hsource hfile ?_
    rw [hsourcePath, hpath, SourceDeclarations.path_ofChunk h]
  have hresolves := resolves_of_complete hn hsource hcomplete
  have hused : name ∈ source.usedNames :=
    ((hresolves.mem_imports name).1 ((hresolves.mem_missing name).1 hname).1).1
  have hstub := stub_of_isUnspecified hunspecified
  refine ⟨?_, SourceDeclarations.standsOn_of_ofChunk h name hused, ?_⟩
  · obtain ⟨lines, -, htext⟩ := hresolves.text
    obtain ⟨before, behind, hstubs⟩ := exists_stubText hname (hstub ▸ unknownStub_ne_empty name)
    rw [hstub] at hstubs
    refine ⟨importHead lines ++ banner ++ body source ++ before, behind, ?_⟩
    rw [htext, hstubs]
    simp only [String.append_assoc]
  · have hword := SourceDeclarations.usedNames_ofChunk h name hused
    rw [TypeScript.isLegalName_iff hword]
    simp only [feed_not_mem_of_ofChunk h name hused, not_false_eq_true, true_and]

end Chunk

/-- **Which names in types and stubs are legal.**  A name in a type that can be read is a part of the
text, and a legal name unless it starts like a number, holds a line feed or is a truth value; all these
words occur.  The default stubs of a chunk are declared under names on the lines of its comments, with
the same exceptions but for the line feed. -/
theorem unknownStub_legal_iff (name : String) :
    (∀ text t, DocType.parse text = .ok t → name ∈ TypeScript.names t → name.toList <:+: text ∧
      (IsLegalName name ↔
        StartsName name ∧ '\n' ∉ name.toList ∧ name ≠ "true" ∧ name ≠ "false")) ∧
    (TypeScript.mayBeForeign name = true → ¬ IsLegalName name →
      ∃ text t, DocType.parse text = .ok t ∧ name ∈ TypeScript.names t) ∧
    ∀ path chunk file log configured files graph emitted,
      SourceDeclarations.ofChunk path chunk = .ok (file, log) → file ∈ files →
      (files.map (·.path)).Nodup → (produce configured files graph).1 = .ok emitted →
      ∀ out ∈ emitted, out.path = path → name ∈ out.missing → IsUnspecified configured name →
        HasUnknownStub (DocBlock.linesOf chunk.comments) out name := by
  refine ⟨?_, TypeScript.exists_mem_names, ?_⟩
  · intro text t ht hname
    exact ⟨DocType.infix_of_mem_names ht hname,
      TypeScript.isLegalName_iff (TypeScript.mayBeForeign_of_mem_names hname)⟩
  · intro path chunk file log configured files graph emitted h hfile hn he out hout hpath hname
    exact hasUnknownStub_of_produce h hfile hn he hout hpath hname

/-- A chunk without statements whose only comment is an alias of literals. -/
def literalChunk : Lua.Chunk :=
  ⟨[], [⟨"---@alias Mode true|10", 1, 1⟩]⟩

/-- What the chunk declares. -/
def literalFile : SourceDeclarations :=
  ⟨"a.lua", [.aliasOf ⟨"Mode", "true | 10", []⟩], ["10", "true"]⟩

/-- The two literals pass for names of types and are declared, though neither of them is a legal name,
and so does a word with a line feed in a type that is given as a text. -/
theorem unknownStub_legal_of_literals :
    (∃ t, DocType.parse "true|10".toList = .ok t ∧ TypeScript.names t = ["true", "10"] ∧
      ∀ name ∈ TypeScript.names t, name.toList <:+: "true|10".toList ∧ ¬ IsLegalName name) ∧
    (∃ text t, DocType.parse text = .ok t ∧ "Mode\n" ∈ TypeScript.names t) ∧
    ∃ emitted, (produce [] [literalFile] []).1 = .ok emitted ∧
      emitted.map (fun out => (out.path, out.missing)) = [("a.lua", ["10", "true"])] ∧
      ∀ out ∈ emitted, ∀ name ∈ out.missing, ¬ IsLegalName name ∧
        HasUnknownStub (DocBlock.linesOf literalChunk.comments) out name := by
  have hillegal : ∀ name ∈ ["10", "true"], ¬ IsLegalName name := by decide +kernel
  refine ⟨?_, ?_, ?_⟩
  · obtain ⟨t, ht, hnames⟩ := exists_ok_of_toOption_map (e := DocType.parse "true|10".toList)
      (g := TypeScript.names) (b := ["true", "10"]) (by decide +kernel)
    refine ⟨t, ht, hnames, ?_⟩
    intro name hname
    refine ⟨((unknownStub_legal_iff name).1 _ t ht hname).1, hillegal name ?_⟩
    simpa [hnames, or_comm] using hname
  · exact (unknownStub_legal_iff "Mode\n").2.1 (by decide +kernel) (by decide +kernel)
  · obtain ⟨⟨file, log⟩, hchunk, hfile⟩ := exists_ok_of_toOption_map
      (e := SourceDeclarations.ofChunk "a.lua" literalChunk) (g := Prod.fst) (b := literalFile)
      (by decide +kernel)
    obtain rfl : file = literalFile := hfile
    obtain ⟨emitted, he, hmissing⟩ := exists_ok_of_toOption_map (e := (produce [] [literalFile] []).1)
      (g := fun l => l.map fun out => (out.path, out.missing)) (b := [("a.lua", ["10", "true"])])
      (by decide +kernel)
    refine ⟨emitted, he, hmissing, ?_⟩
    intro out hout name hname
    have hpair : (out.path, out.missing) = ("a.lua", ["10", "true"]) := by
      have hmem := List.mem_map_of_mem (f := fun out => (out.path, out.missing)) hout
      rw [hmissing] at hmem
      exact List.mem_singleton.1 hmem
    obtain ⟨hpath, hout'⟩ := Prod.mk.inj hpair
    have hname' : name ∈ ["10", "true"] := hout' ▸ hname
    have hunspecified : ∀ name ∈ ["10", "true"], IsUnspecified [] name := by decide +kernel
    exact ⟨hillegal name hname', (unknownStub_legal_iff name).2.2 "a.lua" literalChunk literalFile
      log [] _ [] emitted hchunk (List.mem_singleton_self _) (List.nodup_singleton _) he out hout
      hpath hname (hunspecified name hname')⟩

end LuaAmbient.Emission
