/-
**Annotations are read back.**

A parameter, a field or a result is written as a tag, perhaps a name, a type and perhaps a
description.  If the type can be printed and read again, the line that holds them all is read as they
were.

Main definitions:

* `LuaAmbient.Directive.IsWordlike` — a text without blanks.

Main results:

* `LuaAmbient.Directive.tagged?_ofString` — the tag of a line, and what stands behind it;
* `LuaAmbient.Directive.readMember_printed`, `LuaAmbient.Directive.readReturn_printed` — what stands
  behind the tag;
* `LuaAmbient.Directive.parse_annotation` — **an annotation of a printed type is read back**.
-/

import LuaAmbient.Directive.Parser
import LuaAmbient.Proofs.DocType.Seamless

set_option relaxedAutoImplicit false
set_option autoImplicit false

namespace LuaAmbient.Directive

open LuaAmbient.Text Nesting

/-! ### Words and what stands behind them -/

/-- A text without blanks. -/
def IsWordlike (s : List Char) : Prop :=
  s ≠ [] ∧ ∀ c ∈ s, isBlank c = false

instance (s : List Char) : Decidable (IsWordlike s) :=
  inferInstanceAs (Decidable (_ ∧ _))

/-- The first word of a text, and what stands behind it. -/
theorem splitAtBlank_word {w : List Char} (hw : IsWordlike w) {s : List Char} (hs : Trimmed s) :
    splitAtBlank ' ' (w ++ ' ' :: s) = (w, s) := by
  have hne : ∀ c ∈ w, (!(c == ' ')) = true := by
    intro c hc
    have hblank := hw.2 c hc
    rw [Bool.not_eq_true', beq_eq_false_iff_ne]
    rintro rfl
    exact absurd hblank (by decide)
  have hfirst : splitFirst? (· == ' ') (w ++ ' ' :: s) = some (w, s) := by
    rw [splitFirst?, List.dropWhile_append_of_pos hne, List.takeWhile_append_of_pos hne]
    simp
  rw [splitAtBlank, hfirst]
  exact Prod.ext (strip_eq_self (trimmed_of_forall hw.2)) (strip_eq_self hs)

/-- A line with a tag and something behind it. -/
theorem tagged?_ofString (number : Int) {tag s : List Char} (htag : IsWordlike tag)
    (hs : Trimmed s) (hne : s ≠ []) {text : String}
    (htext : strip text.toList = "---@".toList ++ tag ++ ' ' :: s) :
    (Line.ofString number text).tagged? = some (String.ofList tag, s) := by
  have htrimmed : Trimmed (tag ++ ' ' :: s) := (trimmed_of_forall htag.2).spaced hs htag.1 hne
  have htext' : (Line.ofString number text).text =
      '-' :: '-' :: '-' :: '@' :: (tag ++ ' ' :: s) := by
    rw [Line.ofString, htext]
    rfl
  rw [Line.tagged?.eq_def]
  simp only [htext', strip_eq_self htrimmed, splitAtBlank_word htag hs]

/-- The directive of a single line with a tag. -/
theorem parse_singleton {text tag : String} {s : List Char}
    (h : (Line.ofString 1 text).tagged? = some (tag, s)) {body : Body}
    (hbody : readTag (Line.ofString 1 text) [] tag s = .ok (some body)) :
    parse [text] = .ok [⟨1, body⟩] := by
  have hline : parse [text] = parseLines [Line.ofString 1 text] := rfl
  rw [hline, parseLines, List.takeWhile_nil, readLine, readBody, h]
  simp only [hbody]
  rfl

/-! ### Types with descriptions -/

section Described

variable {t : DocType} (ht : DocType.Printable true t) (hclosed : DocType.Closed t)
  {description : List Char} (hd : IsDescription description)

include ht hd

theorem splitDescription_printed :
    splitDescription (described t.print description) = (t.print, description) :=
  splitDescription_described ht.seamless ht.ne_nil hd

theorem trimmed_printed : Trimmed (described t.print description) :=
  trimmed_described ht.trimmed ht.ne_nil hd.trimmed

include hclosed

theorem readReturn_printed (l : Line) :
    readReturn l (described t.print description) = .ok (.returns t (description? description)) := by
  have hparse : DocType.parse t.print = .ok t := ht.returns_iff.2 hclosed
  simp only [readReturn, splitDescription_printed ht hd, Line.readType, hparse]
  rfl

theorem readMember_printed (l : Line) {isField : Bool} {name : List Char} (hname : IsWordlike name)
    (hv : isField = true → isVisibility name = false) :
    readMember l isField (name ++ ' ' :: described t.print description) =
      .ok ((if isField then Body.field else Body.param) (String.ofList name) t
        (description? description)) := by
  have hparse : DocType.parse t.print = .ok t := ht.returns_iff.2 hclosed
  have hsplit := splitAtBlank_word hname (trimmed_printed ht hd)
  have hmember : memberName isField (name ++ ' ' :: described t.print description) =
      (name, described t.print description) := by
    rw [memberName, hsplit]
    cases isField with
    | false => rfl
    | true => simp [hv rfl]
  have hempty : name.isEmpty = false := by simpa using hname.1
  rw [readMember, hmember]
  simp only [hempty, splitDescription_printed ht hd, hparse]
  rfl

end Described

/-! ### Lines -/

/-- Behind a type and a space, an empty description leaves a space that is stripped. -/
theorem strip_line {front s description : List Char} (hs : Trimmed s) (hne : s ≠ [])
    (hfront : front ≠ []) (hf : Trimmed front) (hd : Trimmed description) :
    strip (front ++ ' ' :: (s ++ ' ' :: description)) =
      front ++ ' ' :: described s description := by
  have htrimmed : Trimmed (front ++ ' ' :: described s description) :=
    hf.spaced (trimmed_described hs hne hd) hfront (described_ne_nil hne _)
  by_cases hnil : description = []
  · have hspace : front ++ ' ' :: (s ++ ' ' :: description) =
        (front ++ ' ' :: described s description) ++ [' '] := by
      simp [described, hnil]
    rw [hspace, strip_append_right _ allBlank_space, strip_eq_self htrimmed]
  · rw [show s ++ ' ' :: description = described s description by simp [described, hnil],
      strip_eq_self htrimmed]

theorem trimmed_tag {tag : List Char} (h : IsWordlike tag) : Trimmed ("---@".toList ++ tag) :=
  trimmed_of_forall (List.forall_mem_append.2 ⟨by decide, h.2⟩)

/-- A line with a tag, a name and a printed type. -/
theorem tagged?_member {t : DocType} (ht : DocType.Printable true t) {tag name description : String}
    (htag : IsWordlike tag.toList) (hname : IsWordlike name.toList)
    (hd : IsDescription description.toList) (number : Int) :
    (Line.ofString number
      ("---@" ++ tag ++ " " ++ name ++ " " ++ t.format ++ " " ++ description)).tagged? =
      some (tag, name.toList ++ ' ' :: described t.print description.toList) := by
  have hfront : Trimmed ("---@".toList ++ tag.toList ++ ' ' :: name.toList) :=
    (trimmed_tag htag).spaced (trimmed_of_forall hname.2) (by simp) hname.1
  have hrest : Trimmed (name.toList ++ ' ' :: described t.print description.toList) :=
    (trimmed_of_forall hname.2).spaced (trimmed_printed ht hd) hname.1
      (described_ne_nil ht.ne_nil _)
  have htext := strip_line ht.trimmed ht.ne_nil (by simp) hfront hd.trimmed
  rw [tagged?_ofString number htag hrest (by simp) (by simpa [DocType.format] using htext),
    String.ofList_toList]

/-- A line with a tag and a printed type. -/
theorem tagged?_type {t : DocType} (ht : DocType.Printable true t) {tag description : String}
    (htag : IsWordlike tag.toList) (hd : IsDescription description.toList) (number : Int) :
    (Line.ofString number ("---@" ++ tag ++ " " ++ t.format ++ " " ++ description)).tagged? =
      some (tag, described t.print description.toList) := by
  have hne := described_ne_nil ht.ne_nil description.toList
  have htext := strip_line ht.trimmed ht.ne_nil (by simp) (trimmed_tag htag) hd.trimmed
  rw [tagged?_ofString number htag (trimmed_printed ht hd) hne
      (by simpa [DocType.format] using htext), String.ofList_toList]

theorem description?_eq (description : String) :
    description? description.toList = if description = "" then none else some description := by
  rw [description?, String.ofList_toList]
  refine if_congr ?_ rfl rfl
  rw [List.isEmpty_iff, String.toList_eq_nil_iff]

/-- **An annotation of a printed type is read back.** -/
theorem parse_annotation {t : DocType} (ht : DocType.Printable true t) (hclosed : DocType.Closed t)
    {description : String} (hd : IsDescription description.toList) :
    (∀ name : String, IsWordlike name.toList →
      parse ["---@param " ++ name ++ " " ++ t.format ++ " " ++ description] =
          .ok [⟨1, .param name t (if description = "" then none else some description)⟩] ∧
        (name ∉ ["public", "private", "protected", "package"] →
          parse ["---@field " ++ name ++ " " ++ t.format ++ " " ++ description] =
            .ok [⟨1, .field name t (if description = "" then none else some description)⟩])) ∧
      parse ["---@return " ++ t.format ++ " " ++ description] =
        .ok [⟨1, .returns t (if description = "" then none else some description)⟩] := by
  rw [← description?_eq]
  refine ⟨fun name hname => ⟨?_, fun hother => ?_⟩, ?_⟩
  · have htag : IsWordlike "param".toList := by decide
    refine parse_singleton (tagged?_member ht htag hname hd 1) ?_
    rw [readTag, readMember_printed ht hclosed hd _ hname (by simp), String.ofList_toList]
    rfl
  · have htag : IsWordlike "field".toList := by decide
    have hvisible : isVisibility name.toList = false := by
      rw [isVisibility, String.ofList_toList]
      simpa using hother
    refine parse_singleton (tagged?_member ht htag hname hd 1) ?_
    rw [readTag, readMember_printed ht hclosed hd _ hname fun _ => hvisible, String.ofList_toList]
    rfl
  · have htag : IsWordlike "return".toList := by decide
    refine parse_singleton (tagged?_type ht htag hd 1) ?_
    rw [readTag, readReturn_printed ht hclosed hd]
    rfl

/-- A tuple that ends in a function, with brackets and a number sign in its description. -/
theorem parse_annotation_of_callback :
    let t : DocType := .tuple [.plain "a.b", .function [(.named "x?", .plain "T"),
      (.rest, DocType.any)] (.generic "Map" [.plain "K", .plain "V"])]
    let description := "takes <x, or # none"
    parse ["---@param cb a.b, fun(x?: T, ...): Map<K, V> takes <x, or # none"] =
        .ok [⟨1, .param "cb" t (some description)⟩] ∧
      parse ["---@field cb a.b, fun(x?: T, ...): Map<K, V> takes <x, or # none"] =
        .ok [⟨1, .field "cb" t (some description)⟩] ∧
      parse ["---@return a.b, fun(x?: T, ...): Map<K, V> takes <x, or # none"] =
        .ok [⟨1, .returns t (some description)⟩] := by
  intro t description
  have hletter : ∀ c : Char, isNameStart c = true → DocType.IsTypeName [c] :=
    fun c hc => ⟨c, [], rfl, hc, by simp⟩
  have hT : DocType.Printable false (.plain "T") := .plain (hletter 'T' (by decide)) (by decide)
  have hK : DocType.Printable false (.plain "K") := .plain (hletter 'K' (by decide)) (by decide)
  have hV : DocType.Printable false (.plain "V") := .plain (hletter 'V' (by decide)) (by decide)
  have hany : DocType.Printable false DocType.any :=
    .plain ⟨'a', ['n', 'y'], rfl, by decide, by decide⟩ (by decide)
  have hdotted : DocType.Printable false (.plain "a.b") :=
    .plain ⟨'a', ['.', 'b'], rfl, by decide, by decide⟩ (by decide)
  have hresult : DocType.Printable false (.generic "Map" [.plain "K", .plain "V"]) :=
    .generic ⟨'M', ['a', 'p'], rfl, by decide, by decide⟩ (by decide) (by decide) (by simp [hK, hV])
  have hlabel : DocType.IsAsciiLabel "x?".toList :=
    ⟨'x', [], ['?'], rfl, by decide, by simp, .inr rfl⟩
  have hfunction : DocType.Printable false (.function [(.named "x?", .plain "T"),
      (.rest, DocType.any)] (.generic "Map" [.plain "K", .plain "V"])) :=
    .function (by simp [hT, hany]) (List.forall_mem_cons.2 ⟨hlabel, by simp [DocType.Labelled]⟩)
      hresult rfl rfl rfl
  have ht : DocType.Printable true t := by
    refine .tuple (by decide) (by simp [hdotted, hfunction]) (by simp [DocType.isUnion]) ?_
    simp only [List.head?_cons, Option.mem_def, Option.some.injEq, forall_eq']
    decide
  have hplain : ∀ name, DocType.Closed (.plain name) := fun name =>
    (DocType.closed_iff (by simp)).2 (by simp [DocType.parts])
  have hgeneric : DocType.Closed (.generic "Map" [.plain "K", .plain "V"]) :=
    (DocType.closed_iff (by simp)).2 (by simp [DocType.parts, hplain])
  have hclosed : DocType.Closed t := by
    rw [DocType.closed_tuple]
    refine ⟨by simp [DocType.isOptional, DocType.isArray], ?_⟩
    simp only [List.forall_mem_cons, hplain, true_and, List.not_mem_nil, false_imp_iff,
      implies_true, and_true]
    exact (DocType.closed_iff (by simp)).2 (by simp [DocType.parts, hplain, hgeneric, DocType.any])
  have hfirst : description.toList.head? = some 't' := by decide +kernel
  have hlast : description.toList.getLast? = some 'e' := by decide +kernel
  have hd : IsDescription description.toList := by
    refine ⟨⟨?_, ?_⟩, ?_⟩ <;> simp only [hfirst, hlast, Option.mem_some, forall_eq'] <;> decide
  have hformat : t.format = "a.b, fun(x?: T, ...): Map<K, V>" := by decide +kernel
  obtain ⟨hmember, hreturn⟩ := parse_annotation ht hclosed hd
  obtain ⟨hparam, hfield⟩ := hmember "cb" (by decide)
  rw [hformat] at hparam hreturn hfield
  exact ⟨hparam, hfield (by decide), hreturn⟩

end LuaAmbient.Directive
