/-
**The words that pass for names of types.**

A name that may need an import or a stub has passed a test for words.  The test lets through some words
that cannot name a type: numbers, the two truth values, and words with a line feed at their end.  Each
of them is a name in some type that can be read.

Main definitions:

* `LuaAmbient.TypeScript.StartsName`, `LuaAmbient.TypeScript.IsLegalName` — words that start like a
  name and are no literals.

Main results:

* `LuaAmbient.TypeScript.isLegalName_iff` — **which of the words that pass are legal names**;
* `LuaAmbient.TypeScript.exists_mem_names` — the other words stand in types that can be read.
-/

import LuaAmbient.Proofs.DocType.Forms
import LuaAmbient.Proofs.Text.Part
import LuaAmbient.Proofs.Text.Search
import LuaAmbient.TypeScript.TypeText

set_option relaxedAutoImplicit false
set_option autoImplicit false

namespace LuaAmbient.TypeScript

open LuaAmbient.Text

/-! ### Legal names -/

/-- The name starts like an identifier: with a letter or an underscore. -/
def StartsName (name : String) : Prop :=
  name.toList.head?.any isIdentifierStart = true

instance (name : String) : Decidable (StartsName name) :=
  inferInstanceAs (Decidable (_ = true))

/-- The name is a word that starts with a letter or an underscore, and no truth value.  The other
reserved words are no literals and are not told apart. -/
structure IsLegalName (name : String) : Prop where
  starts : StartsName name
  word : ∀ c ∈ name.toList, isWord c = true
  ne_true : name ≠ "true"
  ne_false : name ≠ "false"

instance (name : String) : Decidable (IsLegalName name) :=
  decidable_of_iff
    (StartsName name ∧ name.toList.all isWord = true ∧ name ≠ "true" ∧ name ≠ "false")
    ⟨fun ⟨hstarts, hword, htrue, hfalse⟩ => ⟨hstarts, List.all_eq_true.1 hword, htrue, hfalse⟩,
      fun h => ⟨h.starts, List.all_eq_true.2 h.word, h.ne_true, h.ne_false⟩⟩

/-! ### Words that pass -/

theorem isWord_feed : isWord '\n' = false := by
  decide

/-- What passes the test is made of word characters, apart from a line feed at its end. -/
theorem exists_of_mayBeForeign {name : String} (h : mayBeForeign name = true) :
    ∃ w feed, name.toList = w ++ feed ∧ w ≠ [] ∧ (∀ c ∈ w, isWord c = true) ∧
      (feed = [] ∨ feed = ['\n']) := by
  simp only [mayBeForeign, isWordText, Bool.and_eq_true, Bool.not_eq_true', List.isEmpty_eq_false_iff,
    List.all_eq_true] at h
  obtain ⟨-, hne, hword⟩ := h
  rcases chomp_cases name.toList with hname | hname
  · exact ⟨_, [], by rw [hname, List.append_nil], hne, hword, .inl rfl⟩
  · exact ⟨_, ['\n'], hname, hne, hword, .inr rfl⟩

/-- Of the words that pass, those are legal names that start like one, hold no line feed and are no
truth values. -/
theorem isLegalName_iff {name : String} (h : mayBeForeign name = true) :
    IsLegalName name ↔
      StartsName name ∧ '\n' ∉ name.toList ∧ name ≠ "true" ∧ name ≠ "false" := by
  obtain ⟨w, feed, hname, -, hword, hfeed⟩ := exists_of_mayBeForeign h
  constructor
  · rintro ⟨hstarts, hall, htrue, hfalse⟩
    refine ⟨hstarts, ?_, htrue, hfalse⟩
    intro hmem
    have hisWord := hall _ hmem
    rw [isWord_feed] at hisWord
    exact absurd hisWord Bool.false_ne_true
  · rintro ⟨hstarts, hmem, htrue, hfalse⟩
    rcases hfeed with rfl | rfl
    · rw [List.append_nil] at hname
      exact ⟨hstarts, hname ▸ hword, htrue, hfalse⟩
    · exact absurd (by simp [hname]) hmem

/-! ### Occurrences -/

/-- The ending of type names, which is not read. -/
def typeEnding : List Char :=
  "::Type".toList

theorem unmarked_typeEnding {name : String} (h : mayBeForeign name = true) :
    DocType.Unmarked (name.toList ++ typeEnding) := by
  obtain ⟨w, feed, hname, hne, hword, hfeed⟩ := exists_of_mayBeForeign h
  have hdotted : DocType.IsDotted w := by
    refine ⟨hne, fun c hc => ?_⟩
    rw [isDottedPart, hword c hc, Bool.true_or, Bool.true_or]
  have hending : Trimmed typeEnding := by
    have hblank : (typeEnding.all fun c => isBlank c == false) = true := by decide
    exact trimmed_of_forall fun c hc => eq_of_beq (List.all_eq_true.1 hblank c hc)
  have hmarks : (typeEnding.all fun c =>
      decide (Nesting.IsPlain c ∧ c ≠ '|' ∧ c ≠ ',' ∧ c ≠ '?' ∧ c ≠ ']')) = true := by decide
  rw [hname]
  refine ⟨by simp [hne], hdotted.unmarked.trimmed.around hending hne (by decide), ?_⟩
  intro c hc
  rcases List.mem_append.1 hc with hc | hc
  · rcases List.mem_append.1 hc with hc | hc
    · exact hdotted.unmarked.unmarked c hc
    · rcases hfeed with rfl | rfl
      · simp at hc
      · obtain rfl := List.mem_singleton.1 hc
        decide
  · exact of_decide_eq_true (List.all_eq_true.1 hmarks c hc)

/-- The names that stand for other types. -/
def replacedNames : List String :=
  ["table", "lightuserdata", "userdata", "integer", "int", "float", "nil"]

theorem isLegalName_of_mem_replacedNames : ∀ name ∈ replacedNames, IsLegalName name := by
  decide +kernel

/-- A name that is not legal stands for itself. -/
theorem canonical_of_not_legal {name : String} (h : ¬ IsLegalName name) :
    DocType.canonical (name.toList ++ typeEnding) = .plain name := by
  have hname : name ∉ replacedNames := fun hmem => h (isLegalName_of_mem_replacedNames name hmem)
  simp only [replacedNames, List.mem_cons, List.not_mem_nil, or_false, not_or] at hname
  obtain ⟨htable, hlight, huser, hinteger, hint, hfloat, hnil⟩ := hname
  have hopen : DocType.isOpenTable name = false := by
    simp [DocType.isOpenTable, htable, hlight, huser]
  have hprimitive : DocType.primitive name = name := by
    simp [DocType.primitive, hinteger, hint, hfloat, hnil]
  have htext : dropSuffix (name.toList ++ typeEnding) "::Type".toList = name.toList :=
    dropSuffix_append name.toList typeEnding
  simp only [DocType.canonical, htext, String.ofList_toList, hopen, hprimitive, Bool.false_eq_true,
    if_false]

/-- A word that passes and is no legal name stands in a type that can be read. -/
theorem exists_mem_names {name : String} (h : mayBeForeign name = true) (hlegal : ¬ IsLegalName name) :
    ∃ text t, DocType.parse text = .ok t ∧ name ∈ names t := by
  have hword : name.toList ++ typeEnding ≠ "function".toList := by
    intro he
    have hlast := congrArg List.getLast? he
    rw [List.getLast?_append_of_ne_nil _ (by decide)] at hlast
    exact absurd hlast (by decide)
  refine ⟨name.toList ++ typeEnding, .plain name, ?_, ?_⟩
  · rw [DocType.parse_unmarked (unmarked_typeEnding h) hword, canonical_of_not_legal hlegal]
  · exact List.mem_filter.2 ⟨List.mem_singleton_self name, h⟩

end LuaAmbient.TypeScript
