/-
**Strings that spell the phrases of TypeScript types.**

The grammar of types is about words and marks, and a text is about characters.  A string spells a
phrase if its tokens derive the phrase, in front of everything that does not go on its last word; so
the rules of the grammar become rules about how strings are put together.

Main definitions:

* `LuaAmbient.TypeScript.Lexes`, `LuaAmbient.TypeScript.LexesWord` — the tokens of a text inside of
  another;
* `LuaAmbient.TypeScript.Spells` — a string spells a phrase of the grammar.

Main results:

* `LuaAmbient.TypeScript.IsWordName.lexes` — a name is one word;
* `LuaAmbient.TypeScript.spells_function`, `LuaAmbient.TypeScript.spells_or` and so on — a rule for
  every way of putting texts together;
* `LuaAmbient.TypeScript.Spells.reads` — **what spells a type is read as the type**.
-/

import Mathlib.Tactic.Common
import LuaAmbient.Proofs.TypeScript.Grammar

set_option relaxedAutoImplicit false
set_option autoImplicit false

namespace LuaAmbient.TypeScript

open LuaAmbient.Text

/-! ### Texts and their tokens -/

/-- The text does not go on a word that stands before it. -/
def EndsWord (s : List Char) : Prop :=
  ∀ c ∈ s.head?, isWordPart c = false

/-- The text has these tokens, whatever follows. -/
def Lexes (s : List Char) (l : List Token) : Prop :=
  ∀ rest, tokens (s ++ rest) = l ++ tokens rest

/-- The text has these tokens, whatever follows that does not go on its last word. -/
def LexesWord (s : List Char) (l : List Token) : Prop :=
  ∀ rest, EndsWord rest → tokens (s ++ rest) = l ++ tokens rest

theorem Lexes.toWord {s : List Char} {l : List Token} (h : Lexes s l) : LexesWord s l :=
  fun rest _ => h rest

theorem Lexes.append {s s' : List Char} {l l' : List Token} (h : Lexes s l) (h' : Lexes s' l') :
    Lexes (s ++ s') (l ++ l') := by
  intro rest
  rw [List.append_assoc, h, h', List.append_assoc]

theorem Lexes.append_word {s s' : List Char} {l l' : List Token} (h : Lexes s l)
    (h' : LexesWord s' l') : LexesWord (s ++ s') (l ++ l') := by
  intro rest hrest
  rw [List.append_assoc, h, h' rest hrest, List.append_assoc]

theorem LexesWord.append {s : List Char} {c : Char} {cs : List Char} {l l' : List Token}
    (h : LexesWord s l) (hc : isWordPart c = false) (h' : Lexes (c :: cs) l') :
    Lexes (s ++ c :: cs) (l ++ l') := by
  intro rest
  have hends : EndsWord (c :: cs ++ rest) := by
    rintro d hd
    obtain rfl : c = d := by simpa using hd
    exact hc
  rw [List.append_assoc, h _ hends, h', List.append_assoc]

theorem tokensFrom_of_endsWord (w : List Char) {s : List Char} (h : EndsWord s) :
    tokensFrom w s = wordToken w ++ tokens s := by
  rw [tokens]
  fun_cases tokensFrom w s with
  | case1 => simp [tokensFrom, wordToken]
  | case2 cs => simp [tokensFrom, wordToken]
  | case3 cs => simp [tokensFrom, wordToken]
  | case4 c cs _ _ hc =>
    rw [h c rfl] at hc
    cases hc
  | case5 c cs hequal hdot hc hblank =>
    rw [tokensFrom, if_neg hc, if_pos hblank]
    · rfl
    all_goals assumption
  | case6 c cs hequal hdot hc hblank =>
    rw [tokensFrom, if_neg hc, if_neg hblank]
    · rfl
    all_goals assumption

theorem ne_of_isWordPart {c d : Char} (hc : isWordPart c = true) (hd : isWordPart d = false) :
    c ≠ d := by
  rintro rfl
  rw [hc] at hd
  cases hd

theorem tokensFrom_word (w cs : List Char) (h : ∀ c ∈ cs, isWordPart c = true) (rest : List Char) :
    tokensFrom w (cs ++ rest) = tokensFrom (w ++ cs) rest := by
  induction cs generalizing w with
  | nil => rw [List.nil_append, List.append_nil]
  | cons c cs ih =>
    have hc := h c List.mem_cons_self
    rw [List.cons_append, tokensFrom, if_pos hc, ih _ fun d hd => h d (List.mem_cons_of_mem _ hd),
      List.append_assoc]
    · rfl
    · exact fun _ heq _ => ne_of_isWordPart hc (d := '=') (by decide) heq
    · exact fun _ heq _ => ne_of_isWordPart hc (d := '.') (by decide) heq

theorem lexes_mark {c : Char} (hc : isWordPart c = false ∧ isBlank c = false ∧ c ≠ '=' ∧ c ≠ '.') :
    Lexes [c] [.mark c] := by
  obtain ⟨hword, hblank, hequal, hdot⟩ := hc
  intro rest
  rw [List.singleton_append, tokens, tokensFrom, if_neg (by simp [hword]),
    if_neg (by simp [hblank])]
  · rfl
  · exact fun _ h _ => hequal h
  · exact fun _ h _ => hdot h

theorem lexes_comma : Lexes [',', ' '] [.mark ','] :=
  fun _ => rfl

theorem lexes_bar : Lexes [' ', '|', ' '] [.mark '|'] :=
  fun _ => rfl

theorem lexes_ampersand : Lexes [' ', '&', ' '] [.mark '&'] :=
  fun _ => rfl

theorem lexes_colon : Lexes [':', ' '] [.mark ':'] :=
  fun _ => rfl

theorem lexes_arrow : Lexes [')', ' ', '=', '>', ' '] [.mark ')', .arrow] :=
  fun _ => rfl

theorem lexes_dots : Lexes ['.', '.', '.'] [.dots] :=
  fun _ => rfl

/-- A name of one word. -/
def IsWordName (n : String) : Prop :=
  n ≠ "" ∧ ∀ c ∈ n.toList, isWordPart c = true

theorem IsWordName.lexes {n : String} (h : IsWordName n) : LexesWord n.toList [.word n] := by
  intro rest hrest
  have hne : n.toList.isEmpty = false := by
    have : n.toList ≠ [] := by simpa using h.1
    simpa using this
  rw [tokens, tokensFrom_word [] _ h.2, tokensFrom_of_endsWord _ hrest, List.nil_append, wordToken,
    hne, String.ofList_toList]
  rfl

/-! ### Spelling -/

/-- The string spells the phrase, whatever follows that does not go on its last word. -/
def Spells (s : String) (p : Phrase) : Prop :=
  ∃ l, LexesWord s.toList l ∧ Derives l p

theorem Spells.reads {s : String} {t : Tree} (h : Spells s (.type t)) : Reads s t := by
  obtain ⟨l, hl, h⟩ := h
  have heq : tokens s.toList = l := by
    have := hl [] (by simp [EndsWord])
    rwa [List.append_nil, show tokens [] = [] from rfl, List.append_nil] at this
  rw [Reads, heq]
  exact h

section Rules

variable {s s' n : String} {t : Tree} {ts us : List Tree} {ps : List (Parameter × Tree)}

theorem spells_name (h : IsWordName n) : Spells n (.primary (.reference n [])) :=
  ⟨_, h.lexes, .name n⟩

theorem spells_applied (h : IsWordName n) (hs : Spells s (.types ts)) :
    Spells (n ++ "<" ++ s ++ ">") (.primary (.reference n ts)) := by
  obtain ⟨l, hl, hs⟩ := hs
  refine ⟨_, ?_, .applied n hs⟩
  simp only [String.toList_append]
  have hopen := h.lexes.append rfl (lexes_mark (c := '<') (by decide))
  exact ((hopen.append_word hl).append rfl (lexes_mark (c := '>') (by decide))).toWord

theorem spells_object : Spells "\x7b\x7d" (.primary .object) :=
  ⟨_, Lexes.toWord fun _ => rfl, .object⟩

theorem spells_unit : Spells "[]" (.primary (.tuple [])) :=
  ⟨_, Lexes.toWord fun _ => rfl, .unit⟩

theorem spells_tuple (hs : Spells s (.types ts)) :
    Spells ("[" ++ s ++ "]") (.primary (.tuple ts)) := by
  obtain ⟨l, hl, hs⟩ := hs
  refine ⟨_, ?_, .tuple hs⟩
  simp only [String.toList_append]
  have hopen := (lexes_mark (c := '[') (by decide)).append_word hl
  exact (hopen.append rfl (lexes_mark (c := ']') (by decide))).toWord

theorem spells_group (hs : Spells s (.type t)) : Spells ("(" ++ s ++ ")") (.primary t) := by
  obtain ⟨l, hl, hs⟩ := hs
  refine ⟨_, ?_, .group hs⟩
  simp only [String.toList_append]
  have hopen := (lexes_mark (c := '(') (by decide)).append_word hl
  exact (hopen.append rfl (lexes_mark (c := ')') (by decide))).toWord

/-- Two texts with a separator between them. -/
theorem LexesWord.join {a a' : List Char} {c d : Char} {cs : List Char} {l l' : List Token}
    (h : LexesWord a l) (h' : LexesWord a' l') (hc : isWordPart c = false)
    (hsep : Lexes (c :: cs) [.mark d]) : LexesWord (a ++ c :: cs ++ a') (l ++ .mark d :: l') := by
  simpa using (h.append hc hsep).append_word h'

theorem spells_and (h : Spells s (.primary t)) (hs : Spells s' (.operands ts)) :
    Spells (s ++ " & " ++ s') (.operands (t :: ts)) := by
  obtain ⟨l, hl, h⟩ := h
  obtain ⟨l', hl', hs⟩ := hs
  refine ⟨_, ?_, .and h hs⟩
  simp only [String.toList_append]
  exact hl.join hl' rfl lexes_ampersand

theorem spells_more (h : Spells s (.type t)) (hs : Spells s' (.types ts)) :
    Spells (s ++ ", " ++ s') (.types (t :: ts)) := by
  obtain ⟨l, hl, h⟩ := h
  obtain ⟨l', hl', hs⟩ := hs
  refine ⟨_, ?_, .more h hs⟩
  simp only [String.toList_append]
  exact hl.join hl' rfl lexes_comma

/-- The members of a union are put together. -/
theorem Derives.or_append {l m : List Token} {p : Phrase} (h : Derives l p) :
    ∀ {ts us : List Tree}, p = .members ts → Derives m (.members us) →
      Derives (l ++ .mark '|' :: m) (.members (ts ++ us)) := by
  induction h with
  | member h =>
    rintro ts us heq hu
    cases heq
    exact .or h hu
  | or h hs _ ih =>
    rintro ts us heq hu
    cases heq
    rw [List.append_assoc]
    exact .or h (ih rfl hu)
  | name | applied | object | unit | tuple | group | operand | and | union | thunk | function | one
  | more | param | moreParams => exact nofun

theorem spells_or (h : Spells s (.members ts)) (hs : Spells s' (.members us)) :
    Spells (s ++ " | " ++ s') (.members (ts ++ us)) := by
  obtain ⟨l, hl, h⟩ := h
  obtain ⟨l', hl', hs⟩ := hs
  refine ⟨_, ?_, h.or_append rfl hs⟩
  simp only [String.toList_append]
  exact hl.join hl' rfl lexes_bar

theorem spells_thunk (h : Spells s (.type t)) :
    Spells ("(" ++ "" ++ ") => " ++ s) (.type (.function [] t)) := by
  obtain ⟨l, hl, h⟩ := h
  refine ⟨_, ?_, .thunk h⟩
  simp only [String.toList_append]
  exact ((lexes_mark (c := '(') (by decide)).append lexes_arrow).append_word hl

theorem spells_function (hs : Spells s (.params ps)) (h : Spells s' (.type t)) :
    Spells ("(" ++ s ++ ") => " ++ s') (.type (.function ps t)) := by
  obtain ⟨l, hl, hs⟩ := hs
  obtain ⟨l', hl', h⟩ := h
  refine ⟨_, ?_, .function hs h⟩
  simp only [String.toList_append]
  have hopen := (lexes_mark (c := '(') (by decide)).append_word hl
  simpa using (hopen.append rfl lexes_arrow).append_word hl'

theorem spells_param {p : Parameter} (hp : Lexes s.toList p.tokens) (h : Spells s' (.type t)) :
    Spells (s ++ s') (.params [(p, t)]) := by
  obtain ⟨l, hl, h⟩ := h
  refine ⟨_, ?_, .param p h⟩
  rw [String.toList_append]
  exact hp.append_word hl

theorem spells_moreParams {p : Parameter} {s'' : String} (hp : Lexes s.toList p.tokens)
    (h : Spells s' (.type t)) (hs : Spells s'' (.params ps)) :
    Spells (s ++ s' ++ ", " ++ s'') (.params ((p, t) :: ps)) := by
  obtain ⟨l, hl, h⟩ := h
  obtain ⟨l', hl', hs⟩ := hs
  refine ⟨_, ?_, .moreParams p h hs⟩
  simp only [String.toList_append, List.append_assoc]
  have := hp.append_word (hl.join hl' rfl lexes_comma)
  simpa using this

/-- The list of a type. -/
theorem spells_array (h : Spells s (.type t)) :
    Spells ("Array<" ++ s ++ ">") (.primary (.reference "Array" [t])) := by
  obtain ⟨l, hl, h⟩ := h
  rw [show "Array<" = "Array" ++ "<" by decide]
  exact spells_applied ⟨by decide, by decide⟩ ⟨l, hl, .one h⟩

theorem spells_record {u : Tree} (h : Spells s (.type t)) (h' : Spells s' (.type u)) :
    Spells ("Record<" ++ s ++ ", " ++ s' ++ ">") (.primary (.reference "Record" [t, u])) := by
  obtain ⟨l, hl, h'⟩ := h'
  have hs : Spells (s ++ ", " ++ s') (.types [t, u]) := spells_more h ⟨l, hl, .one h'⟩
  have htext :
      "Record<" ++ s ++ ", " ++ s' ++ ">" = "Record" ++ "<" ++ (s ++ ", " ++ s') ++ ">" := by
    rw [show "Record<" = "Record" ++ "<" by decide]
    simp only [String.append_assoc]
  rw [htext]
  exact spells_applied ⟨by decide, by decide⟩ hs

theorem Spells.member (h : Spells s (.primary t)) : Spells s (.members [t]) := by
  obtain ⟨l, hl, h⟩ := h
  exact ⟨l, hl, .member (.operand h)⟩

theorem Spells.meet (h : Spells s (.operands ts)) : Spells s (.members [.meet ts]) := by
  obtain ⟨l, hl, h⟩ := h
  exact ⟨l, hl, .member h⟩

theorem Spells.type (h : Spells s (.members ts)) : Spells s (.type (.join ts)) := by
  obtain ⟨l, hl, h⟩ := h
  exact ⟨l, hl, .union h⟩

end Rules

end LuaAmbient.TypeScript
