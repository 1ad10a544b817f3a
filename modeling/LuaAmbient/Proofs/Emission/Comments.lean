/-
**Where documentation ends.**

A comment ends at the first star with a slash behind it.  What is said in the annotations of a source
is copied into comments as it is, so that a comment of a file is closed by its own end exactly if none
of the texts in it holds these two characters.  Otherwise what follows them is read as code.

The body of a file is taken apart into its comments and the code around them.  The pieces are those
that the sections of the file are written in, in the same order.

Main definitions:

* `LuaAmbient.Emission.EndsComment` — a text that ends the comment that it stands in;
* `LuaAmbient.Emission.IsClosed` — a comment that nothing but its own end closes;
* `LuaAmbient.Emission.Piece`, `LuaAmbient.Emission.pieces` — the comments of a file and the code
  around them;
* `LuaAmbient.Emission.Documents` — the texts of the annotations that a file is documented with.

Main results:

* `LuaAmbient.Emission.isClosed_commentText_iff`, `LuaAmbient.Emission.isClosed_noteText_iff` — which
  comments are closed;
* `LuaAmbient.Emission.body_eq_written` — a file is written in its pieces;
* `LuaAmbient.Emission.comments_closed_iff` — **the comments of a file are closed exactly if no text in
  its documentation ends a comment**.
-/

import LuaAmbient.Emission.Body
import LuaAmbient.Proofs.Text.Blank
import LuaAmbient.Proofs.Text.Search

set_option relaxedAutoImplicit false
set_option autoImplicit false

namespace LuaAmbient.Emission

open LuaAmbient.Text

/-! ### The end of a comment -/

/-- A text that ends the comment that it stands in. -/
def EndsComment (s : List Char) : Prop :=
  ['*', '/'] <:+: s

theorem not_endsComment_nil : ¬ EndsComment [] := by
  simp [EndsComment]

section Separators

variable {c : Char} (hstar : c ≠ '*') (hslash : c ≠ '/')

include hstar in
theorem endsComment_cons_iff (b : List Char) : EndsComment (c :: b) ↔ EndsComment b := by
  rw [EndsComment, List.infix_cons_iff, or_iff_right]
  · rfl
  · intro h
    exact hstar (List.cons_prefix_cons.1 h).1.symm

include hstar hslash

/-- The end of a comment goes over no other character. -/
theorem endsComment_append_cons_iff (a b : List Char) :
    EndsComment (a ++ c :: b) ↔ EndsComment a ∨ EndsComment b := by
  induction a with
  | nil => rw [List.nil_append, endsComment_cons_iff hstar, or_iff_right not_endsComment_nil]
  | cons d a ih =>
      have hprefix : ['*', '/'] <+: d :: (a ++ c :: b) ↔ ['*', '/'] <+: d :: a := by
        rw [List.cons_prefix_cons, List.cons_prefix_cons]
        cases a with
        | nil => simp [hslash.symm]
        | cons e a => simp
      rw [EndsComment, EndsComment, List.cons_append, List.infix_cons_iff, List.infix_cons_iff,
        hprefix, or_assoc]
      exact or_congr_right ih

end Separators

section Blanks

theorem ne_star_of_isBlank {c : Char} (h : isBlank c = true) : c ≠ '*' := by
  rintro rfl
  exact absurd h (by decide)

theorem ne_slash_of_isBlank {c : Char} (h : isBlank c = true) : c ≠ '/' := by
  rintro rfl
  exact absurd h (by decide)

variable {b : List Char} (hb : AllBlank b)

include hb

/-- Blanks in front do not matter. -/
theorem endsComment_blank_append_iff (a : List Char) : EndsComment (b ++ a) ↔ EndsComment a := by
  induction b with
  | nil => rw [List.nil_append]
  | cons c b ih =>
      obtain ⟨hc, hb⟩ := List.forall_mem_cons.1 hb
      rw [List.cons_append, endsComment_cons_iff (ne_star_of_isBlank hc), ih hb]

/-- Nor do blanks at the end. -/
theorem endsComment_append_blank_iff (a : List Char) : EndsComment (a ++ b) ↔ EndsComment a := by
  induction b generalizing a with
  | nil => rw [List.append_nil]
  | cons c b ih =>
      obtain ⟨hc, hb⟩ := List.forall_mem_cons.1 hb
      have hrest : ¬ EndsComment b := by
        have h := (ih hb []).not.2 not_endsComment_nil
        rwa [List.nil_append] at h
      rw [endsComment_append_cons_iff (ne_star_of_isBlank hc) (ne_slash_of_isBlank hc),
        or_iff_left hrest]

end Blanks

theorem endsComment_joinWith_iff (lines : List String) :
    EndsComment (joinWith "\n" lines).toList ↔ ∃ line ∈ lines, EndsComment line.toList := by
  induction lines with
  | nil => simpa [joinWith] using not_endsComment_nil
  | cons line lines ih =>
      cases lines with
      | nil => simp [joinWith]
      | cons next lines =>
          have htext : (joinWith "\n" (line :: next :: lines)).toList =
              line.toList ++ '\n' :: (joinWith "\n" (next :: lines)).toList := by
            simp [joinWith]
          rw [htext, endsComment_append_cons_iff (by decide) (by decide), ih]
          simp

/-! ### Comments -/

/-- A comment that nothing but its own end closes. -/
def IsClosed (text : String) : Prop :=
  ∃ inner, text.toList = inner ++ ['*', '/', '\n'] ∧ ¬ EndsComment inner

theorem isClosed_append_iff (text : String) :
    IsClosed (text ++ "*/\n") ↔ ¬ EndsComment text.toList := by
  have htext : (text ++ "*/\n").toList = text.toList ++ ['*', '/', '\n'] := by simp
  rw [IsClosed, htext]
  constructor
  · rintro ⟨inner, heq, hinner⟩
    rwa [List.append_cancel_right heq]
  · intro h
    exact ⟨text.toList, rfl, h⟩

section Indent

variable {indent : String} (hindent : AllBlank indent.toList)

include hindent

theorem endsComment_docLine_iff (comment : String) :
    EndsComment (docLine indent comment).toList ↔ EndsComment comment.toList := by
  obtain ⟨b, hb, htext, -⟩ := exists_stripRight (indent ++ " * " ++ comment).toList
  have hline : (indent ++ " * " ++ comment).toList =
      indent.toList ++ ([' ', '*'] ++ ' ' :: comment.toList) := by simp
  have hfront : ¬ EndsComment [' ', '*'] := by
    unfold EndsComment
    decide
  rw [docLine, String.toList_ofList, ← endsComment_append_blank_iff hb, ← htext, hline,
    endsComment_blank_append_iff hindent, endsComment_append_cons_iff (by decide) (by decide),
    or_iff_right hfront]

/-- Documentation lines make a closed comment exactly if none of them ends it. -/
theorem isClosed_commentText_iff {lines : List String} (hlines : lines ≠ []) :
    IsClosed (commentText indent lines) ↔ ∀ s ∈ lines, ¬ EndsComment s.toList := by
  have htext : commentText indent lines =
      joinWith "\n" ([indent ++ "/**"] ++ lines.map (docLine indent) ++ [indent ++ " "]) ++ "*/\n" := by
    have hend : indent ++ " */" = (indent ++ " ") ++ "*/" := by rw [String.append_assoc]; rfl
    rw [commentText, if_neg (by simpa using hlines), hend, joinWith_concat_append,
      String.append_assoc]
    rfl
  have hfirst : ¬ EndsComment (indent ++ "/**").toList := by
    rw [String.toList_append, endsComment_blank_append_iff hindent]
    unfold EndsComment
    decide
  have hlast : ¬ EndsComment (indent ++ " ").toList := by
    rw [String.toList_append, endsComment_blank_append_iff hindent]
    unfold EndsComment
    decide
  rw [htext, isClosed_append_iff, endsComment_joinWith_iff]
  constructor
  · intro h s hs hends
    refine h ⟨docLine indent s, ?_, (endsComment_docLine_iff hindent s).2 hends⟩
    exact List.mem_append_left _ (List.mem_append_right _ (List.mem_map_of_mem hs))
  · rintro h ⟨line, hline, hends⟩
    simp only [List.mem_append, List.mem_singleton, List.mem_map] at hline
    rcases hline with (rfl | ⟨s, hs, rfl⟩) | rfl
    · exact hfirst hends
    · exact h s hs ((endsComment_docLine_iff hindent s).1 hends)
    · exact hlast hends

end Indent

/-- The comment of a field. -/
def noteText (description : String) : String :=
  indentation ++ "/** " ++ description ++ " */\n"

theorem isClosed_noteText_iff (description : String) :
    IsClosed (noteText description) ↔ ¬ EndsComment description.toList := by
  have htext : noteText description = indentation ++ "/** " ++ description ++ " " ++ "*/\n" := by
    have hend : " */\n" = " " ++ "*/\n" := rfl
    rw [noteText, hend, ← String.append_assoc]
  have hline : (indentation ++ "/** " ++ description ++ " ").toList =
      [' ', ' ', ' ', ' ', '/', '*', '*'] ++ ' ' :: (description.toList ++ ' ' :: []) := by
    simp [indentation]
  have hfront : ¬ EndsComment [' ', ' ', ' ', ' ', '/', '*', '*'] := by
    unfold EndsComment
    decide
  rw [htext, isClosed_append_iff, hline, endsComment_append_cons_iff (by decide) (by decide),
    endsComment_append_cons_iff (by decide) (by decide), or_iff_right hfront,
    or_iff_left not_endsComment_nil]

/-! ### Pieces -/

/-- The space in front of a comment, which may stand inside of an object or a class. -/
def margin (inside : Bool) : String :=
  if inside then indentation else ""

theorem allBlank_margin (inside : Bool) : AllBlank (margin inside).toList := by
  unfold AllBlank
  cases inside <;> decide

/-- A piece of a file. -/
inductive Piece where
  /-- Documentation lines, of which there is at least one. -/
  | comment (inside : Bool) (first : String) (rest : List String)
  /-- The description of a field. -/
  | note (description : String)
  /-- What is no comment. -/
  | code (text : String)

namespace Piece

/-- How a piece is written. -/
def text : Piece → String
  | .comment inside first rest => commentText (margin inside) (first :: rest)
  | .note description => noteText description
  | .code text => text

/-- The texts that a comment is made of. -/
def lines : Piece → List String
  | .comment _ first rest => first :: rest
  | .note description => [description]
  | .code _ => []

/-- What is no code. -/
def IsComment : Piece → Prop
  | .code _ => False
  | _ => True

theorem isClosed_text_iff {p : Piece} (h : p.IsComment) :
    IsClosed p.text ↔ ∀ s ∈ p.lines, ¬ EndsComment s.toList := by
  cases p with
  | comment inside first rest =>
      exact isClosed_commentText_iff (allBlank_margin inside) (List.cons_ne_nil first rest)
  | note description =>
      rw [text, isClosed_noteText_iff, lines, List.forall_mem_singleton]
  | code text => exact h.elim

end Piece

/-- Pieces one after the other. -/
def written (ps : List Piece) : String :=
  concat (ps.map Piece.text)

theorem concat_cons (s : String) (texts : List String) : concat (s :: texts) = s ++ concat texts := by
  cases texts with
  | nil => simp [concat, joinWith]
  | cons t texts => simp [concat, joinWith]

theorem concat_append (l l' : List String) : concat (l ++ l') = concat l ++ concat l' := by
  induction l with
  | nil => simp [concat, joinWith]
  | cons s l ih => rw [List.cons_append, concat_cons, concat_cons, ih, String.append_assoc]

@[simp] theorem written_nil : written [] = "" := rfl

@[simp] theorem written_code (text : String) (ps : List Piece) :
    written (.code text :: ps) = text ++ written ps :=
  concat_cons _ _

@[simp] theorem written_append (ps ps' : List Piece) :
    written (ps ++ ps') = written ps ++ written ps' := by
  rw [written, List.map_append, concat_append]
  rfl

@[simp] theorem written_flatMap {α : Type} (l : List α) (g : α → List Piece) :
    written (l.flatMap g) = concat (l.map fun a => written (g a)) := by
  induction l with
  | nil => rfl
  | cons a l ih => rw [List.flatMap_cons, written_append, ih, List.map_cons, concat_cons]

/-- A comment, unless there is nothing to say. -/
def documentation (inside : Bool) : List String → List Piece
  | [] => []
  | first :: rest => [.comment inside first rest]

@[simp] theorem written_documentation (inside : Bool) (lines : List String) :
    written (documentation inside lines) = commentText (margin inside) lines := by
  cases lines with
  | nil => rfl
  | cons first rest => rfl

/-- The pieces of an enumeration. -/
def enumPieces (d : EnumDecl) : List Piece :=
  documentation false d.comments ++ [.code ("export enum " ++ d.name ++ " \x7b\n" ++
    concat (d.entries.map fun e => indentation ++ e.1 ++ " = " ++ e.2 ++ ",\n") ++ "\x7d\n\n")]

/-- The pieces of an alias. -/
def aliasPieces (d : AliasDecl) : List Piece :=
  documentation false d.comments ++ [.code ("export type " ++ d.name ++ " = " ++ d.type ++ ";\n")]

/-- The pieces of a function without an owner. -/
def functionPieces (f : FunctionDecl) : List Piece :=
  documentation false (functionComment f) ++
    [.code ("export function " ++ signature f f.qualifiedName false ++ ";\n")]

/-- The pieces of a function inside of its owner. -/
def memberPieces (inClass : Bool) (f : FunctionDecl) : List Piece :=
  documentation true (functionComment f) ++
    [.code (indentation ++ (if inClass && f.isStatic then "static " else "") ++
      signature f (memberName f.memberName) f.isStatic ++ ";\n")]

/-- The pieces of an object with its functions. -/
def objectPieces (functions : List FunctionDecl) (d : ObjectDecl) : List Piece :=
  let members := classMembers functions d.name
  documentation false d.comments ++ [.code ("declare const " ++ d.name)] ++
    if members.isEmpty then [.code ": any;\n"]
    else .code ": \x7b\n" :: members.flatMap (memberPieces false) ++ [.code "\x7d;\n\n"]

/-- The pieces of a field. -/
def fieldPieces (f : FieldDecl) : List Piece :=
  (saidOf f.description).toList.map .note ++
    [.code (indentation ++ memberName f.name ++ ": " ++ f.type ++ ";\n")]

/-- The pieces of a class with its functions. -/
def classPieces (functions : List FunctionDecl) (d : ClassDecl) : List Piece :=
  documentation false d.comments ++
    if d.isAliasLike then
      [.code ("export type " ++ d.name ++ typeParameters d.generics ++ " = " ++
        d.parent.getD "None" ++ ";\n")]
    else
      .code ("export class " ++ d.name ++ classGenericClause d.generics ++ extendsClause d.parent ++
        " \x7b\n" ++ concat (d.tableShape.map fun line => indentation ++ line ++ "\n")) ::
        (classMembers functions d.name).flatMap (memberPieces true) ++
        d.fields.flatMap fieldPieces ++ [.code "\x7d\n\n"]

theorem written_enumPieces (d : EnumDecl) : written (enumPieces d) = enumText d := by
  simp [enumPieces, enumText, margin, String.append_assoc]

theorem written_aliasPieces (d : AliasDecl) : written (aliasPieces d) = aliasText d := by
  simp [aliasPieces, aliasText, margin, String.append_assoc]

theorem written_functionPieces (f : FunctionDecl) : written (functionPieces f) = functionText f := by
  simp [functionPieces, functionText, margin, String.append_assoc]

theorem written_memberPieces (inClass : Bool) (f : FunctionDecl) :
    written (memberPieces inClass f) = member inClass f := by
  simp [memberPieces, member, margin, String.append_assoc]

theorem written_fieldPieces (f : FieldDecl) : written (fieldPieces f) = fieldText f := by
  rw [fieldPieces, fieldText, written_append, written_code, written_nil, String.append_empty]
  cases saidOf f.description with
  | none => simp [String.append_assoc]
  | some d =>
      rw [Option.toList_some, List.map_singleton]
      simp [written, concat, joinWith, Piece.text, noteText, String.append_assoc]

section Functions

variable (functions : List FunctionDecl)

theorem written_objectPieces (d : ObjectDecl) :
    written (objectPieces functions d) = objectText functions d := by
  rw [objectPieces, objectText, written_append, written_append, written_documentation]
  cases hmembers : (classMembers functions d.name).isEmpty with
  | true => simp [margin, String.append_assoc]
  | false => simp [margin, String.append_assoc, written_memberPieces]

theorem written_classPieces (d : ClassDecl) :
    written (classPieces functions d) = classText functions d := by
  rw [classPieces, classText, written_append, written_documentation]
  cases hlike : d.isAliasLike with
  | true => simp [margin, String.append_assoc]
  | false => simp [margin, String.append_assoc, written_memberPieces, written_fieldPieces]

end Functions

/-! ### Sections -/

/-- The pieces of the declarations for which there are some, in order. -/
def sectionPieces (pieces? : Declaration → Option (List Piece)) (declarations : List Declaration) :
    List Piece :=
  (declarations.filterMap pieces?).flatMap id

theorem written_sectionPieces {text? : Declaration → Option String}
    {pieces? : Declaration → Option (List Piece)} (h : ∀ d, (pieces? d).map written = text? d)
    (declarations : List Declaration) :
    written (sectionPieces pieces? declarations) = sectionText text? declarations := by
  have htexts : declarations.filterMap text? = (declarations.filterMap pieces?).map written := by
    rw [List.map_filterMap]
    exact List.filterMap_congr fun d _ => (h d).symm
  rw [sectionPieces, written_flatMap, sectionText, htexts]
  rfl

/-- The pieces of an enumeration. -/
def enumPieces? : Declaration → Option (List Piece)
  | .enum d => some (enumPieces d)
  | _ => none

/-- The pieces of an alias. -/
def aliasPieces? : Declaration → Option (List Piece)
  | .aliasOf d => some (aliasPieces d)
  | _ => none

/-- The pieces of a function without an owner. -/
def functionPieces? : Declaration → Option (List Piece)
  | .function f => if f.owner?.isNone then some (functionPieces f) else none
  | _ => none

/-- The pieces of an object with its functions. -/
def objectPieces? (functions : List FunctionDecl) : Declaration → Option (List Piece)
  | .object d => some (objectPieces functions d)
  | _ => none

/-- The pieces of a class with its functions. -/
def classPieces? (functions : List FunctionDecl) : Declaration → Option (List Piece)
  | .class_ d => some (classPieces functions d)
  | _ => none

/-- The piece of a default export. -/
def exportPieces? : Declaration → Option (List Piece)
  | .export_ name => some [.code ("export default " ++ name ++ ";\n\n")]
  | _ => none

/-- The comments of a file and the code around them. -/
def pieces (file : SourceDeclarations) : List Piece :=
  let ds := file.declarations
  let functions := functionsOf ds
  sectionPieces enumPieces? ds ++ sectionPieces aliasPieces? ds ++
    sectionPieces functionPieces? ds ++ sectionPieces (objectPieces? functions) ds ++
    sectionPieces (classPieces? functions) ds ++ sectionPieces exportPieces? ds

/-- A file is written in its pieces. -/
theorem body_eq_written (file : SourceDeclarations) : body file = written (pieces file) := by
  have henum : ∀ d, (enumPieces? d).map written = enumText? d := by
    intro d
    cases d <;> simp [enumPieces?, enumText?, written_enumPieces]
  have halias : ∀ d, (aliasPieces? d).map written = aliasText? d := by
    intro d
    cases d <;> simp [aliasPieces?, aliasText?, written_aliasPieces]
  have hfunction : ∀ d, (functionPieces? d).map written = functionText? d := by
    intro d
    cases d with
    | function f =>
        rw [functionPieces?, functionText?]
        split
        · rw [Option.map_some, written_functionPieces]
        · rfl
    | _ => rfl
  have hobject : ∀ functions d, (objectPieces? functions d).map written = objectText? functions d := by
    intro functions d
    cases d <;> simp [objectPieces?, objectText?, written_objectPieces]
  have hclass : ∀ functions d, (classPieces? functions d).map written = classText? functions d := by
    intro functions d
    cases d <;> simp [classPieces?, classText?, written_classPieces]
  have hexport : ∀ d, (exportPieces? d).map written = exportText? d := by
    intro d
    cases d <;> simp [exportPieces?, exportText?]
  simp only [body, pieces, written_append, written_sectionPieces henum,
    written_sectionPieces halias, written_sectionPieces hfunction,
    written_sectionPieces (hobject _), written_sectionPieces (hclass _),
    written_sectionPieces hexport]

/-! ### What is documented -/

/-- What is said of a function: its comments, and the names and descriptions of its parameters that
are described. -/
def described (f : FunctionDecl) : List String :=
  f.comments ++ f.params.flatMap fun p =>
    match saidOf p.2.description with
    | some d => [TypeScript.bareName p.1, d]
    | none => []

/-- The texts of the annotations that a file is documented with. -/
inductive Documents (file : SourceDeclarations) : String → Prop
  | enum {d : EnumDecl} {s : String} : .enum d ∈ file.declarations → s ∈ d.comments →
      Documents file s
  | aliasOf {d : AliasDecl} {s : String} : .aliasOf d ∈ file.declarations → s ∈ d.comments →
      Documents file s
  | function {f : FunctionDecl} {s : String} : .function f ∈ file.declarations → f.owner? = none →
      s ∈ described f → Documents file s
  | object {d : ObjectDecl} {s : String} : .object d ∈ file.declarations → s ∈ d.comments →
      Documents file s
  | class_ {d : ClassDecl} {s : String} : .class_ d ∈ file.declarations → s ∈ d.comments →
      Documents file s
  | member {f : FunctionDecl} {owner s : String} : .function f ∈ file.declarations →
      f.owner? = some owner → owner ∈ owners file.declarations → s ∈ described f → Documents file s
  | field {d : ClassDecl} {f : FieldDecl} {s : String} : .class_ d ∈ file.declarations →
      d.isAliasLike = false → f ∈ d.fields → saidOf f.description = some s → Documents file s

/-- Some text in a comment ends it. -/
def Leaks (ps : List Piece) : Prop :=
  ∃ p ∈ ps, ∃ s ∈ p.lines, EndsComment s.toList

@[simp] theorem leaks_code (text : String) (ps : List Piece) :
    Leaks (.code text :: ps) ↔ Leaks ps := by
  simp [Leaks, Piece.lines]

@[simp] theorem not_leaks_nil : ¬ Leaks [] := by
  simp [Leaks]

@[simp] theorem leaks_append (ps ps' : List Piece) : Leaks (ps ++ ps') ↔ Leaks ps ∨ Leaks ps' := by
  simp only [Leaks, List.mem_append, or_and_right, exists_or]

theorem leaks_flatMap {α : Type} (l : List α) (g : α → List Piece) :
    Leaks (l.flatMap g) ↔ ∃ a ∈ l, Leaks (g a) := by
  simp only [Leaks, List.mem_flatMap]
  constructor
  · rintro ⟨p, ⟨a, ha, hp⟩, hs⟩
    exact ⟨a, ha, p, hp, hs⟩
  · rintro ⟨a, ha, p, hp, hs⟩
    exact ⟨p, ⟨a, ha, hp⟩, hs⟩

@[simp] theorem leaks_documentation (inside : Bool) (lines : List String) :
    Leaks (documentation inside lines) ↔ ∃ s ∈ lines, EndsComment s.toList := by
  cases lines with
  | nil => simp [documentation]
  | cons first rest => simp [documentation, Leaks, Piece.lines]

theorem leaks_sectionPieces (pieces? : Declaration → Option (List Piece))
    (declarations : List Declaration) :
    Leaks (sectionPieces pieces? declarations) ↔
      ∃ d ∈ declarations, ∃ ps, pieces? d = some ps ∧ Leaks ps := by
  rw [sectionPieces, leaks_flatMap]
  simp only [List.mem_filterMap, id]
  constructor
  · rintro ⟨ps, ⟨d, hd, hps⟩, hleaks⟩
    exact ⟨d, hd, ps, hps, hleaks⟩
  · rintro ⟨d, hd, ps, hps, hleaks⟩
    exact ⟨ps, ⟨d, hd, hps⟩, hleaks⟩

/-- A line about a parameter ends its comment if the name or the description does. -/
theorem endsComment_param_iff (name description : String) :
    EndsComment ("@param " ++ name ++ " " ++ description).toList ↔
      EndsComment name.toList ∨ EndsComment description.toList := by
  have hline : ("@param " ++ name ++ " " ++ description).toList =
      "@param".toList ++ ' ' :: (name.toList ++ ' ' :: description.toList) := by simp
  have hfront : ¬ EndsComment "@param".toList := by
    unfold EndsComment
    decide
  rw [hline, endsComment_append_cons_iff (by decide) (by decide), or_iff_right hfront,
    endsComment_append_cons_iff (by decide) (by decide)]

theorem exists_functionComment_iff (f : FunctionDecl) :
    (∃ s ∈ functionComment f, EndsComment s.toList) ↔ ∃ s ∈ described f, EndsComment s.toList := by
  have hparam : ∀ p : String × ParamDecl,
      (∃ s, ((saidOf p.2.description).map fun d => "@param " ++ TypeScript.bareName p.1 ++ " " ++ d) =
          some s ∧ EndsComment s.toList) ↔
        ∃ s ∈ (match saidOf p.2.description with
          | some d => [TypeScript.bareName p.1, d]
          | none => []), EndsComment s.toList := by
    intro p
    cases saidOf p.2.description with
    | none => simp
    | some d => simp [endsComment_param_iff, -String.toList_append]
  simp only [functionComment, described, List.mem_append, or_and_right, exists_or,
    List.mem_filterMap, List.mem_flatMap]
  refine or_congr_right ?_
  constructor
  · rintro ⟨s, ⟨p, hp, hs⟩, hends⟩
    obtain ⟨t, ht, hends⟩ := (hparam p).1 ⟨s, hs, hends⟩
    exact ⟨t, ⟨p, hp, ht⟩, hends⟩
  · rintro ⟨t, ⟨p, hp, ht⟩, hends⟩
    obtain ⟨s, hs, hends⟩ := (hparam p).2 ⟨t, ht, hends⟩
    exact ⟨s, ⟨p, hp, hs⟩, hends⟩

theorem leaks_functionPieces (f : FunctionDecl) :
    Leaks (functionPieces f) ↔ ∃ s ∈ described f, EndsComment s.toList := by
  simp [functionPieces, exists_functionComment_iff]

theorem leaks_memberPieces (inClass : Bool) (f : FunctionDecl) :
    Leaks (memberPieces inClass f) ↔ ∃ s ∈ described f, EndsComment s.toList := by
  simp [memberPieces, exists_functionComment_iff]

theorem leaks_fieldPieces (f : FieldDecl) :
    Leaks (fieldPieces f) ↔ ∃ s, saidOf f.description = some s ∧ EndsComment s.toList := by
  rw [fieldPieces, leaks_append, leaks_code, or_iff_left not_leaks_nil]
  cases saidOf f.description with
  | none => simp
  | some d => simp [Leaks, Piece.lines]

theorem leaks_objectPieces (functions : List FunctionDecl) (d : ObjectDecl) :
    Leaks (objectPieces functions d) ↔ (∃ s ∈ d.comments, EndsComment s.toList) ∨
      ∃ f ∈ classMembers functions d.name, ∃ s ∈ described f, EndsComment s.toList := by
  rw [objectPieces, leaks_append, leaks_append, leaks_documentation, leaks_code,
    or_iff_left not_leaks_nil]
  refine or_congr_right ?_
  cases hmembers : classMembers functions d.name with
  | nil => simp
  | cons f members =>
      rw [List.isEmpty_cons, if_neg Bool.false_ne_true, List.cons_append, leaks_code, leaks_append,
        leaks_code, or_iff_left not_leaks_nil, leaks_flatMap]
      simp only [leaks_memberPieces]

theorem leaks_classPieces (functions : List FunctionDecl) (d : ClassDecl) :
    Leaks (classPieces functions d) ↔ (∃ s ∈ d.comments, EndsComment s.toList) ∨
      d.isAliasLike = false ∧
        ((∃ f ∈ classMembers functions d.name, ∃ s ∈ described f, EndsComment s.toList) ∨
          ∃ f ∈ d.fields, ∃ s, saidOf f.description = some s ∧ EndsComment s.toList) := by
  rw [classPieces, leaks_append, leaks_documentation]
  refine or_congr_right ?_
  cases d.isAliasLike with
  | true => simp
  | false =>
      simp only [Bool.false_eq_true, if_false, true_and, List.cons_append, leaks_code, leaks_append,
        not_leaks_nil, or_false, leaks_flatMap, leaks_memberPieces, leaks_fieldPieces]

section Files

variable {file : SourceDeclarations}

theorem mem_classMembers_iff {declarations : List Declaration} {f : FunctionDecl} {owner : String} :
    f ∈ classMembers (functionsOf declarations) owner ↔
      .function f ∈ declarations ∧ f.owner? = some owner := by
  rw [classMembers, List.mem_filter, functionsOf, List.mem_filterMap, beq_iff_eq]
  refine and_congr_left fun _ => ?_
  constructor
  · rintro ⟨d, hd, hf⟩
    cases d with
    | function g =>
        obtain rfl := Option.some.inj hf
        exact hd
    | _ => exact absurd hf (by simp [Declaration.function?])
  · intro hf
    exact ⟨.function f, hf, rfl⟩

theorem mem_owners_iff {declarations : List Declaration} {owner : String} :
    owner ∈ owners declarations ↔ (∃ d, .object d ∈ declarations ∧ d.name = owner) ∨
      ∃ d, .class_ d ∈ declarations ∧ d.isAliasLike = false ∧ d.name = owner := by
  rw [owners, List.mem_filterMap]
  constructor
  · rintro ⟨d, hd, hname⟩
    cases d with
    | object o => exact .inl ⟨o, hd, Option.some.inj hname⟩
    | class_ c =>
        cases hlike : c.isAliasLike with
        | true => simp [hlike] at hname
        | false => exact .inr ⟨c, hd, hlike, by simpa [hlike] using hname⟩
    | _ => exact absurd hname (by simp)
  · rintro (⟨o, ho, hname⟩ | ⟨c, hc, hlike, hname⟩)
    · exact ⟨.object o, ho, congrArg some hname⟩
    · exact ⟨.class_ c, hc, by simp [hlike, hname]⟩

/-- What leaks is documented, section by section. -/
theorem exists_documents_of_leaks (h : Leaks (pieces file)) :
    ∃ s, Documents file s ∧ EndsComment s.toList := by
  simp only [pieces, leaks_append, leaks_sectionPieces] at h
  rcases h with ((((h | h) | h) | h) | h) | h
  all_goals obtain ⟨d, hd, ps, hps, hleaks⟩ := h
  · cases d with
    | enum e =>
        obtain rfl := Option.some.inj hps
        obtain ⟨s, hs, hends⟩ : ∃ s ∈ e.comments, EndsComment s.toList := by
          simpa [enumPieces] using hleaks
        exact ⟨s, .enum hd hs, hends⟩
    | _ => exact absurd hps (by simp [enumPieces?])
  · cases d with
    | aliasOf a =>
        obtain rfl := Option.some.inj hps
        obtain ⟨s, hs, hends⟩ : ∃ s ∈ a.comments, EndsComment s.toList := by
          simpa [aliasPieces] using hleaks
        exact ⟨s, .aliasOf hd hs, hends⟩
    | _ => exact absurd hps (by simp [aliasPieces?])
  · cases d with
    | function f =>
        rw [functionPieces?] at hps
        split at hps
        · next howner =>
          obtain rfl := Option.some.inj hps
          obtain ⟨s, hs, hends⟩ := (leaks_functionPieces f).1 hleaks
          exact ⟨s, .function hd (Option.isNone_iff_eq_none.1 howner) hs, hends⟩
        · simp at hps
    | _ => exact absurd hps (by simp [functionPieces?])
  · cases d with
    | object o =>
        obtain rfl := Option.some.inj hps
        rcases (leaks_objectPieces _ o).1 hleaks with ⟨s, hs, hends⟩ | ⟨f, hf, s, hs, hends⟩
        · exact ⟨s, .object hd hs, hends⟩
        · obtain ⟨hf, howner⟩ := mem_classMembers_iff.1 hf
          exact ⟨s, .member hf howner (mem_owners_iff.2 (.inl ⟨o, hd, rfl⟩)) hs, hends⟩
    | _ => exact absurd hps (by simp [objectPieces?])
  · cases d with
    | class_ c =>
        obtain rfl := Option.some.inj hps
        rcases (leaks_classPieces _ c).1 hleaks with
          ⟨s, hs, hends⟩ | ⟨hlike, ⟨f, hf, s, hs, hends⟩ | ⟨f, hf, s, hs, hends⟩⟩
        · exact ⟨s, .class_ hd hs, hends⟩
        · obtain ⟨hf, howner⟩ := mem_classMembers_iff.1 hf
          exact ⟨s, .member hf howner (mem_owners_iff.2 (.inr ⟨c, hd, hlike, rfl⟩)) hs, hends⟩
        · exact ⟨s, .field hd hlike hf hs, hends⟩
    | _ => exact absurd hps (by simp [classPieces?])
  · cases d with
    | export_ name =>
        obtain rfl := Option.some.inj hps
        simp at hleaks
    | _ => exact absurd hps (by simp [exportPieces?])

/-- What is documented stands in a comment. -/
theorem leaks_of_documents {s : String} (h : Documents file s) (hends : EndsComment s.toList) :
    Leaks (pieces file) := by
  simp only [pieces, leaks_append, leaks_sectionPieces]
  cases h with
  | enum hd hs =>
      refine .inl (.inl (.inl (.inl (.inl ⟨_, hd, _, rfl, ?_⟩))))
      simpa [enumPieces] using ⟨s, hs, hends⟩
  | aliasOf hd hs =>
      refine .inl (.inl (.inl (.inl (.inr ⟨_, hd, _, rfl, ?_⟩))))
      simpa [aliasPieces] using ⟨s, hs, hends⟩
  | @function f _ hf howner hs =>
      refine .inl (.inl (.inl (.inr ⟨_, hf, functionPieces f, ?_, ?_⟩)))
      · rw [functionPieces?, howner]
        rfl
      · exact (leaks_functionPieces f).2 ⟨s, hs, hends⟩
  | object hd hs =>
      exact .inl (.inl (.inr ⟨_, hd, _, rfl, (leaks_objectPieces _ _).2 (.inl ⟨s, hs, hends⟩)⟩))
  | class_ hd hs =>
      exact .inl (.inr ⟨_, hd, _, rfl, (leaks_classPieces _ _).2 (.inl ⟨s, hs, hends⟩)⟩)
  | @member f _ _ hf howner ho hs =>
      -- the owner is written with its functions
      rcases mem_owners_iff.1 ho with ⟨o, hd, rfl⟩ | ⟨c, hd, hlike, rfl⟩
      · have hleaks := (leaks_objectPieces (functionsOf file.declarations) o).2
          (.inr ⟨f, mem_classMembers_iff.2 ⟨hf, howner⟩, s, hs, hends⟩)
        exact .inl (.inl (.inr ⟨_, hd, _, rfl, hleaks⟩))
      · have hleaks := (leaks_classPieces (functionsOf file.declarations) c).2
          (.inr ⟨hlike, .inl ⟨f, mem_classMembers_iff.2 ⟨hf, howner⟩, s, hs, hends⟩⟩)
        exact .inl (.inr ⟨_, hd, _, rfl, hleaks⟩)
  | @field c f _ hd hlike hf hs =>
      have hleaks := (leaks_classPieces (functionsOf file.declarations) c).2
        (.inr ⟨hlike, .inr ⟨f, hf, s, hs, hends⟩⟩)
      exact .inl (.inr ⟨_, hd, _, rfl, hleaks⟩)

end Files

/-- **The comments of a file are closed exactly if no text in its documentation ends a comment.**  The
file is written in its comments and the code around them. -/
theorem comments_closed_iff (file : SourceDeclarations) :
    body file = concat ((pieces file).map Piece.text) ∧
      ((∀ p ∈ pieces file, p.IsComment → IsClosed p.text) ↔
        ∀ s, Documents file s → ¬ EndsComment s.toList) := by
  refine ⟨body_eq_written file, ?_, ?_⟩
  · intro h s hs hends
    obtain ⟨p, hp, t, ht, hends⟩ := leaks_of_documents hs hends
    have hcomment : p.IsComment := by
      cases p with
      | code text => simp [Piece.lines] at ht
      | _ => trivial
    exact (p.isClosed_text_iff hcomment).1 (h p hp hcomment) t ht hends
  · intro h p hp hcomment
    rw [p.isClosed_text_iff hcomment]
    intro t ht hends
    obtain ⟨s, hs, hends⟩ := exists_documents_of_leaks ⟨p, hp, t, ht, hends⟩
    exact h s hs hends

end LuaAmbient.Emission
