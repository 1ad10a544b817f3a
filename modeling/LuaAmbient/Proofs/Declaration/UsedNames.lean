/-
**The names that the declarations of a source refer to.**

Every one of them stands in a type that an annotation of some block gives, and so on a line of some
comment of the source.  It has passed a test there: it is a word of more than one character.  Such names
can be stored in a text with commas.

Main definitions:

* `LuaAmbient.DocBlock.typeNames` — the names in the types that a block gives;
* `LuaAmbient.Derivation.RefersTo` — a derivation refers to such names only.

Main results:

* `LuaAmbient.TypeScript.storable_of_mayBeForeign` — a name that has passed the test can be stored;
* `LuaAmbient.Derivation.refersTo_ofStatement`, `LuaAmbient.Derivation.refersTo_ofOrphan` — statements
  and orphaned blocks refer to names of the block only;
* `LuaAmbient.SourceDeclarations.standsOn_of_ofChunk` — **the names stand in the comments**;
* `LuaAmbient.SourceDeclarations.usedNames_ofChunk` — **the names are words**;
* `LuaAmbient.SourceDeclarations.exists_ofChunk_of_ofSource` — all that is said of chunks holds of
  sources, whatever parses them.
-/

import LuaAmbient.Declaration.OfSource
import LuaAmbient.Proofs.Declaration.Definition
import LuaAmbient.Proofs.Directive.TypeNames
import LuaAmbient.Proofs.DocBlock
import LuaAmbient.Proofs.RunCache
import LuaAmbient.Proofs.TypeScript.LegalName

set_option relaxedAutoImplicit false
set_option autoImplicit false

namespace LuaAmbient

/-! ### Words -/

namespace TypeScript

theorem isWord_comma : Text.isWord ',' = false := by
  decide

/-- A name that has passed the test can be stored. -/
theorem storable_of_mayBeForeign {name : String} (h : mayBeForeign name = true) : Storable name := by
  obtain ⟨w, feed, hname, hne, hword, hfeed⟩ := exists_of_mayBeForeign h
  constructor
  · rintro rfl
    exact hne (List.append_eq_nil_iff.1 hname.symm).1
  · rw [hname]
    intro hcomma
    rcases List.mem_append.1 hcomma with hcomma | hcomma
    · have hisWord := hword _ hcomma
      rw [isWord_comma] at hisWord
      exact absurd hisWord Bool.false_ne_true
    · rcases hfeed with rfl | rfl
      · simp at hcomma
      · exact absurd (List.mem_singleton.1 hcomma) (by decide)

theorem mayBeForeign_of_mem_names {t : DocType} {n : String} (h : n ∈ names t) :
    mayBeForeign n = true :=
  (List.mem_filter.1 h).2

theorem mayBeForeign_of_mem_shapeNames {fields : List (DocType × DocType)} {n : String}
    (h : n ∈ shapeNames fields) : mayBeForeign n = true :=
  (List.mem_filter.1 h).2

end TypeScript

theorem Directive.Body.mayBeForeign_of_mem_typeNames {body : Directive.Body} {n : String}
    (h : n ∈ body.typeNames) : TypeScript.mayBeForeign n = true := by
  cases body with
  | classHeader header =>
      rw [typeNames, Directive.Parent.typeNames.eq_def] at h
      split at h
      · simp at h
      · split at h
        · exact TypeScript.mayBeForeign_of_mem_names h
        · simp at h
      · exact TypeScript.mayBeForeign_of_mem_shapeNames h
  | param | returns | field | aliasOf => exact TypeScript.mayBeForeign_of_mem_names h
  | enum | generic | metaFile | comment => exact absurd h (by simp [typeNames])

/-! ### Blocks -/

namespace DocBlock

/-- The names in the types that a block gives. -/
def typeNames (b : DocBlock) : List String :=
  b.directives.flatMap fun d => d.body.typeNames

variable {b : DocBlock}

theorem mayBeForeign_of_mem_typeNames {n : String} (h : n ∈ b.typeNames) :
    TypeScript.mayBeForeign n = true := by
  obtain ⟨d, -, hn⟩ := List.mem_flatMap.1 h
  exact Directive.Body.mayBeForeign_of_mem_typeNames hn

/-- The names in what directives of one kind say are names of the block. -/
theorem subset_typeNames_of_filterMap {α : Type} {f : Directive → Option α} {g : α → List String}
    (hf : ∀ d a, f d = some a → g a ⊆ d.body.typeNames) :
    ∀ a ∈ b.directives.filterMap f, g a ⊆ b.typeNames := by
  intro a ha n hn
  obtain ⟨d, hd, hda⟩ := List.mem_filterMap.1 ha
  exact List.mem_flatMap.2 ⟨d, hd, hf d a hda hn⟩

theorem names_classes : ∀ c ∈ b.classes, c.2.parent.typeNames ⊆ b.typeNames := by
  refine subset_typeNames_of_filterMap ?_
  rintro ⟨line, body⟩ c hc
  cases body with
  | classHeader header =>
      obtain rfl := Option.some.inj hc
      exact List.Subset.refl _
  | _ => exact absurd hc (by simp)

theorem names_fields : ∀ f ∈ b.fields, TypeScript.names f.type ⊆ b.typeNames := by
  refine subset_typeNames_of_filterMap ?_
  rintro ⟨line, body⟩ f hf
  cases body with
  | field name t description =>
      obtain rfl := Option.some.inj hf
      exact List.Subset.refl _
  | _ => exact absurd hf (by simp)

theorem names_aliases : ∀ a ∈ b.aliases, TypeScript.names a.2 ⊆ b.typeNames := by
  refine subset_typeNames_of_filterMap ?_
  rintro ⟨line, body⟩ a ha
  cases body with
  | aliasOf name t =>
      obtain rfl := Option.some.inj ha
      exact List.Subset.refl _
  | _ => exact absurd ha (by simp)

theorem names_params : ∀ p ∈ b.params, TypeScript.names p.2.1 ⊆ b.typeNames := by
  refine subset_typeNames_of_filterMap ?_
  rintro ⟨line, body⟩ p hp
  cases body with
  | param name t description =>
      obtain rfl := Option.some.inj hp
      exact List.Subset.refl _
  | _ => exact absurd hp (by simp)

theorem names_returns : ∀ t ∈ b.returns, TypeScript.names t ⊆ b.typeNames := by
  refine subset_typeNames_of_filterMap ?_
  rintro ⟨line, body⟩ t ht
  cases body with
  | returns t' description =>
      obtain rfl := Option.some.inj ht
      exact List.Subset.refl _
  | _ => exact absurd ht (by simp)

/-! ### Comments -/

/-- The lines of several comments. -/
def linesOf (comments : List Lua.Comment) : List Directive.Line :=
  comments.flatMap commentLines

/-- A line of a comment holds no line feed. -/
theorem feed_not_mem_of_mem_linesOf {comments : List Lua.Comment} {l : Directive.Line}
    (h : l ∈ linesOf comments) : '\n' ∉ l.text := by
  obtain ⟨c, -, h⟩ := List.mem_flatMap.1 h
  simp only [commentLines] at h
  obtain ⟨⟨s, i⟩, hs, rfl⟩ := List.mem_map.1 h
  have hfeed : '\n' ∉ s.toList := by
    have hmem := List.fst_mem_of_mem_zipIdx hs
    split at hmem
    · obtain rfl := List.mem_singleton.1 hmem
      simp
    · next hne =>
      obtain ⟨line, hline, rfl⟩ := List.mem_map.1 hmem
      rw [String.toList_ofList]
      exact Text.not_mem_of_mem_lines hline
  exact fun hmem => hfeed ((Text.infix_strip s.toList).subset hmem)

/-- The names in the types of a block stand in its comments. -/
theorem standsOn_of_ofComments {comments : List Lua.Comment} {blocks : List DocBlock}
    (h : ofComments comments = .ok blocks) :
    ∀ b ∈ blocks, ∀ n ∈ b.typeNames, Directive.StandsOn (linesOf comments) n := by
  refine forall_of_mapM_eq_ok h ?_
  intro group hgroup b hb n hn
  obtain ⟨directives, hd, hb⟩ := bind_eq_ok hb
  obtain rfl := Except.ok.inj hb
  obtain ⟨d, hmem, hn⟩ := List.mem_flatMap.1 hn
  obtain ⟨l, hl, hs⟩ := Directive.standsOn_of_parseLines hd d hmem n hn
  obtain ⟨c, hc, hl⟩ := List.mem_flatMap.1 hl
  have hcomment : c ∈ comments := by
    rw [← mem_sortBy Lua.Comment.precedes,
      ← (areRuns_groups (sortBy Lua.Comment.precedes comments)).flatten]
    exact List.mem_flatten.2 ⟨group, hgroup, hc⟩
  exact ⟨l, List.mem_flatMap.2 ⟨c, hcomment, hl⟩, hs⟩

theorem typeNames_empty : empty.typeNames = [] :=
  rfl

end DocBlock

/-! ### Derivations -/

namespace Derivation

open TypeScript

/-- The names that a derivation refers to are names in the types of the block. -/
def RefersTo (b : DocBlock) (d : Derivation) : Prop :=
  ∀ n ∈ d.usedNames, n ∈ b.typeNames

variable {b : DocBlock}

theorem refersTo_of_dropNames {used other : List String} {declarations : List Declaration}
    (h : ∀ n ∈ used, n ∈ b.typeNames) : RefersTo b ⟨declarations, dropNames used other⟩ :=
  fun n hn => h n (mem_dropNames.1 hn).1

/-- The first of several parents is one of the types that the text of the parents is read as. -/
theorem names_readParent {line : Int} {text : String} {t : DocType}
    (h : readParent line text = .ok t) : names t ⊆ (Directive.Parent.named text).typeNames := by
  rw [readParent] at h
  rw [Directive.Parent.typeNames]
  split at h
  · next t' ts hparse =>
    obtain rfl := Except.ok.inj h
    rw [hparse]
    intro n hn
    obtain ⟨hmem, hforeign⟩ := List.mem_filter.1 hn
    exact List.mem_filter.2 ⟨List.mem_append_left _ hmem, hforeign⟩
  · next hparse =>
    obtain rfl := Except.ok.inj h
    rw [hparse]
    exact List.Subset.refl _
  · exact absurd h (by simp)

theorem names_parentParts {line : Int} {parent : Directive.Parent}
    {r : Option String × Bool × List String} (h : parentParts line parent = .ok r) :
    r.2.2 ⊆ parent.typeNames := by
  cases parent with
  | named text =>
      obtain ⟨t, ht, h⟩ := bind_eq_ok h
      obtain rfl := Except.ok.inj h
      exact names_readParent ht
  | _ =>
      simp only [parentParts, Except.ok.injEq] at h
      simp [← h]

theorem names_shapeParts (parent : Directive.Parent) : (shapeParts parent).2 ⊆ parent.typeNames := by
  cases parent with
  | shape fields => exact List.Subset.refl _
  | _ => exact List.nil_subset _

theorem refersTo_ofClass {fileGenerics : List String} {c : Int × Directive.ClassHeader}
    (hc : c ∈ b.classes) {fields : List DocBlock.FieldNote} (hfields : fields ⊆ b.fields)
    {table : Option (List Lua.Entry)} {d : Derivation}
    (h : ofClass fileGenerics b c.1 c.2 fields table = .ok d) : d.RefersTo b := by
  obtain ⟨⟨parent, isAliasLike, parentNames⟩, hp, h⟩ := bind_eq_ok h
  obtain rfl := Except.ok.inj h
  refine refersTo_of_dropNames ?_
  intro n hn
  rcases List.mem_append.1 hn with hn | hn
  · rcases List.mem_append.1 hn with hn | hn
    · exact DocBlock.names_classes c hc (names_parentParts hp hn)
    · exact DocBlock.names_classes c hc (names_shapeParts _ hn)
  · obtain ⟨f, hf, hn⟩ := List.mem_flatMap.1 hn
    exact DocBlock.names_fields f (hfields hf) hn

theorem refersTo_ofAliases (b : DocBlock) : (ofAliases b).RefersTo b := by
  intro n hn
  obtain ⟨a, ha, hn⟩ := List.mem_flatMap.1 hn
  exact DocBlock.names_aliases a ha hn

theorem mem_typeNames_of_definition (f : Definition) : ∀ n ∈ f.typeNames, n ∈ f.block.typeNames := by
  intro n hn
  rcases List.mem_append.1 hn with hn | hn
  · obtain ⟨p, hp, hn⟩ := List.mem_flatMap.1 hn
    exact DocBlock.names_params p (List.mem_filter.1 hp).1 hn
  · obtain ⟨t, ht, hn⟩ := List.mem_flatMap.1 hn
    exact DocBlock.names_returns t ht hn

theorem refersTo_ofClasses {fileGenerics : List String} {isFirst : Bool}
    {headers : List (Int × Directive.ClassHeader)} (hheaders : headers ⊆ b.classes)
    {ds : List Derivation} (h : ofClasses fileGenerics b isFirst headers = .ok ds) :
    ∀ d ∈ ds, d.RefersTo b := by
  induction headers generalizing isFirst ds with
  | nil =>
      rw [ofClasses] at h
      simp [← Except.ok.inj h]
  | cons c headers ih =>
      obtain ⟨hc, hheaders⟩ := List.cons_subset.1 hheaders
      obtain ⟨first, hfirst, h⟩ := bind_eq_ok h
      obtain ⟨others, hothers, h⟩ := bind_eq_ok h
      obtain rfl := Except.ok.inj h
      intro d hd
      rcases List.mem_cons.1 hd with rfl | hd
      · refine refersTo_ofClass hc (List.append_subset.2 ⟨?_, List.filter_subset_self _⟩) hfirst
        split
        · exact List.filter_subset_self _
        · exact List.nil_subset _
      · exact ih hheaders hothers d hd

theorem refersTo_concat {ds : List Derivation} (h : ∀ d ∈ ds, d.RefersTo b) :
    (concat ds).RefersTo b := by
  intro n hn
  obtain ⟨d, hd, hdn⟩ := List.mem_flatMap.1 hn
  exact h d hd n hdn

theorem refersTo_ofOrphan {fileGenerics : List String} {d : Derivation}
    (h : ofOrphan fileGenerics b = .ok d) : d.RefersTo b := by
  obtain ⟨classes, hc, h⟩ := bind_eq_ok h
  obtain rfl := Except.ok.inj h
  refine refersTo_concat ?_
  intro d hd
  rcases List.mem_append.1 hd with hd | hd
  · exact refersTo_ofClasses (List.Subset.refl _) hc d hd
  · rw [List.mem_singleton.1 hd]
    exact refersTo_ofAliases b

theorem IsDerived.refersTo {fileGenerics : List String} {f? : Option Definition} {d : Derivation}
    (hf : ∀ f ∈ f?, f.block = b) (h : IsDerived fileGenerics b f? d) : d.RefersTo b := by
  cases h with
  | definition f =>
      obtain rfl := hf f rfl
      exact refersTo_of_dropNames (mem_typeNames_of_definition f)
  | class_ hc h => exact refersTo_ofClass (List.mem_of_mem_head? hc) (List.Subset.refl _) h
  | orphan h => exact refersTo_ofOrphan h
  | aliases => exact refersTo_ofAliases b
  | enum name entries => simp [RefersTo, ofEnum]
  | object name => simp [RefersTo]
  | exports names => simp [RefersTo]

theorem refersTo_ofStatement {fileGenerics : List String} {statement : Lua.Statement}
    {d : Derivation} (h : ofStatement fileGenerics statement b = .ok d) : d.RefersTo b :=
  (isDerived_ofStatement h).refersTo fun _ hf => block_of_definition hf

theorem mem_usedNames_of_mem_foreignNames {declarations : List Declaration} {d : Derivation}
    {n : String} (hn : n ∈ foreignNames declarations d) : n ∈ d.usedNames := by
  rw [foreignNames] at hn
  split at hn
  · exact (mem_dropNames.1 hn).1
  · exact hn

end Derivation

/-! ### Files -/

namespace Attachment

variable {a : Attachment} {parts : List Derivation}

/-- The derivations of a file are those of its statements and those of its orphaned blocks. -/
theorem exists_of_derivations (h : a.derivations = .ok parts) :
    ∃ attached orphaned,
      a.attached.mapM (fun p => Derivation.ofStatement a.fileGenerics p.1 p.2) = .ok attached ∧
      a.orphaned.mapM (Derivation.ofOrphan a.fileGenerics) = .ok orphaned ∧
      parts = attached ++ orphaned := by
  obtain ⟨attached, hattached, h⟩ := bind_eq_ok h
  obtain ⟨orphaned, horphaned, h⟩ := bind_eq_ok h
  exact ⟨attached, orphaned, hattached, horphaned, (Except.ok.inj h).symm⟩

/-- The blocks of the statements and the orphaned ones. -/
def blocks (a : Attachment) : List DocBlock :=
  a.attached.map (·.2) ++ a.orphaned

theorem refersTo_derivations (h : a.derivations = .ok parts) :
    ∀ d ∈ parts, ∃ b ∈ a.blocks, d.RefersTo b := by
  obtain ⟨attached, orphaned, ha, ho, rfl⟩ := exists_of_derivations h
  intro d hd
  rcases List.mem_append.1 hd with hd | hd
  · refine forall_of_mapM_eq_ok (p := fun d => ∃ b ∈ a.blocks, d.RefersTo b) ha ?_ d hd
    intro p hp d hd
    exact ⟨p.2, List.mem_append_left _ (List.mem_map_of_mem hp), Derivation.refersTo_ofStatement hd⟩
  · refine forall_of_mapM_eq_ok (p := fun d => ∃ b ∈ a.blocks, d.RefersTo b) ho ?_ d hd
    intro b hb d hd
    exact ⟨b, List.mem_append_right _ hb, Derivation.refersTo_ofOrphan hd⟩

/-- The names in the types of the blocks of a chunk stand in its comments. -/
theorem standsOn_of_ofChunk {chunk : Lua.Chunk} (h : ofChunk chunk = .ok a) :
    ∀ b ∈ a.blocks, ∀ n ∈ b.typeNames,
      Directive.StandsOn (DocBlock.linesOf chunk.comments) n := by
  obtain ⟨blocks, hblocks, h⟩ := bind_eq_ok h
  obtain rfl := Except.ok.inj h
  have hstands := DocBlock.standsOn_of_ofComments hblocks
  intro b hb n hn
  rcases List.mem_append.1 hb with hb | hb
  · obtain ⟨p, hp, rfl⟩ := List.mem_map.1 hb
    obtain ⟨s, -, rfl⟩ := List.mem_map.1 hp
    rcases DocBlock.forLine_cases s.span.startLine blocks with ⟨q, hq, -, hfor⟩ | ⟨-, hfor⟩
    · simp only [hfor] at hn
      exact hstands q.1 (List.fst_mem_of_mem_zipIdx hq) n hn
    · simp only [hfor, DocBlock.typeNames_empty] at hn
      simp at hn
  · simp only [DocBlock.orphans_eq] at hb
    obtain ⟨q, hq, rfl⟩ := List.mem_map.1 hb
    exact hstands q.1 (List.fst_mem_of_mem_zipIdx (List.mem_filter.1 hq).1) n hn

end Attachment

namespace SourceDeclarations

theorem ofAttachment_eq_ok {path : String} {a : Attachment} {file : SourceDeclarations}
    {log : List Log.Entry} (h : ofAttachment path a = .ok (file, log)) :
    ∃ parts, a.derivations = .ok parts ∧ file.path = path ∧
      file.declarations = Derivation.collapse (parts.flatMap (·.declarations)) ∧
      file.usedNames = sortNames (parts.flatMap (Derivation.foreignNames file.declarations)) := by
  obtain ⟨parts, hparts, h⟩ := bind_eq_ok h
  obtain ⟨rfl, -⟩ := Prod.mk.inj (Except.ok.inj h)
  exact ⟨parts, hparts, rfl, rfl, rfl⟩

/-- A file refers to names in the types of its blocks. -/
theorem exists_block_of_ofAttachment {path : String} {a : Attachment} {file : SourceDeclarations}
    {log : List Log.Entry} (h : ofAttachment path a = .ok (file, log)) :
    ∀ n ∈ file.usedNames, ∃ b ∈ a.blocks, n ∈ b.typeNames := by
  obtain ⟨parts, hparts, -, -, hused⟩ := ofAttachment_eq_ok h
  intro n hn
  rw [hused, mem_sortNames] at hn
  obtain ⟨d, hd, hdn⟩ := List.mem_flatMap.1 hn
  obtain ⟨b, hb, hrefers⟩ := Attachment.refersTo_derivations hparts d hd
  exact ⟨b, hb, hrefers n (Derivation.mem_usedNames_of_mem_foreignNames hdn)⟩

section Chunk

variable {path : String} {chunk : Lua.Chunk} {file : SourceDeclarations} {log : List Log.Entry}
  (h : ofChunk path chunk = .ok (file, log))

include h

theorem path_ofChunk : file.path = path := by
  obtain ⟨a, -, ha⟩ := bind_eq_ok h
  obtain ⟨_, _, hp, -⟩ := ofAttachment_eq_ok ha
  exact hp

/-- **A chunk refers to words only.** -/
theorem usedNames_ofChunk : ∀ n ∈ file.usedNames, TypeScript.mayBeForeign n = true := by
  obtain ⟨a, -, ha⟩ := bind_eq_ok h
  intro n hn
  obtain ⟨b, -, hb⟩ := exists_block_of_ofAttachment ha n hn
  exact DocBlock.mayBeForeign_of_mem_typeNames hb

/-- **A chunk refers to names that stand in its comments.** -/
theorem standsOn_of_ofChunk :
    ∀ n ∈ file.usedNames, Directive.StandsOn (DocBlock.linesOf chunk.comments) n := by
  obtain ⟨a, hchunk, ha⟩ := bind_eq_ok h
  intro n hn
  obtain ⟨b, hb, hbn⟩ := exists_block_of_ofAttachment ha n hn
  exact Attachment.standsOn_of_ofChunk hchunk b hb n hbn

end Chunk

/-- The declarations of a source are those of the chunk that is read of it. -/
theorem exists_ofChunk_of_ofSource {reader : SourceReader} {path : String} {text : List Char}
    {file : SourceDeclarations} (h : (ofSource reader path text).1 = .ok file) :
    ∃ log, ofChunk path (reader.read path text).chunk = .ok (file, log) := by
  simp only [ofSource] at h
  split at h
  · next f log hf =>
    obtain rfl := Except.ok.inj h
    exact ⟨log, hf⟩
  · exact absurd h (by simp)

end SourceDeclarations

end LuaAmbient
