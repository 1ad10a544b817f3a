/-
**Blocks of lines are read part by part.**

Only an alias looks at more than its own line: at the variants below it.  A block that is cut in front
of a line that is no variant is therefore read by reading its two parts.  If lines are numbered, an
alias also passes over its variants; since a variant says nothing by itself, that is the same as
reading them.

Main definitions:

* `LuaAmbient.Directive.numberedLines` — the lines of given numbers and texts.

Main results:

* `LuaAmbient.Directive.parseLines_variants_append` — variants say nothing by themselves;
* `LuaAmbient.Directive.parseLines_append` — the parts of a block of lines;
* `LuaAmbient.Directive.readNumbered_length`, `LuaAmbient.Directive.parseNumbered_eq` — with a number
  for every line, passing over variants is reading them, and no number is missed;
* `LuaAmbient.Directive.parseNumbered_append` — **a numbered block is read part by part**.
-/

import LuaAmbient.Directive.Numbering
import Mathlib.Data.List.TakeWhile
import Mathlib.Tactic.Common

set_option relaxedAutoImplicit false
set_option autoImplicit false

namespace LuaAmbient.Directive

open LuaAmbient.Text

/-! ### Variants -/

theorem isVariant_iff {l : Line} :
    l.isVariant = true ↔ ∃ rest, l.text = '-' :: '-' :: '-' :: '|' :: rest := by
  rw [Line.isVariant, List.isPrefixOf_iff_prefix]
  exact ⟨fun ⟨rest, h⟩ => ⟨rest, h.symm⟩, fun ⟨rest, h⟩ => ⟨rest, h.symm⟩⟩

/-- A variant says nothing by itself. -/
theorem readLine_variant {l : Line} (h : l.isVariant = true) (variants : List Line) :
    readLine l variants = .ok none := by
  obtain ⟨rest, hrest⟩ := isVariant_iff.1 h
  have htag : l.tagged? = none := by simp [Line.tagged?, hrest]
  have hbody : readUntagged l = none := by simp [readUntagged, hrest]
  rw [readLine, readBody, htag]
  simp only [hbody]
  rfl

theorem parseLines_cons_variant {l : Line} (h : l.isVariant = true) (ls : List Line) :
    parseLines (l :: ls) = parseLines ls := by
  rw [parseLines, readLine_variant h]
  cases parseLines ls <;> rfl

/-- Variants in front of a block say nothing. -/
theorem parseLines_variants_append {vs : List Line} (h : ∀ v ∈ vs, v.isVariant = true)
    (ls : List Line) : parseLines (vs ++ ls) = parseLines ls := by
  induction vs with
  | nil => rfl
  | cons v vs ih =>
      rw [List.cons_append, parseLines_cons_variant (h v List.mem_cons_self)]
      exact ih fun w hw => h w (List.mem_cons_of_mem _ hw)

/-- Reading goes on behind the variants as it does in front of them. -/
theorem parseLines_drop_variants (ls : List Line) :
    parseLines (ls.drop (ls.takeWhile Line.isVariant).length) = parseLines ls := by
  have hsplit := List.takeWhile_append_dropWhile (p := Line.isVariant) (l := ls)
  have hdrop : ls.drop (ls.takeWhile Line.isVariant).length = ls.dropWhile Line.isVariant := by
    conv_lhs => rw [← hsplit, List.drop_left' (by rw [hsplit])]
  conv_rhs => rw [← hsplit]
  rw [hdrop, parseLines_variants_append fun v hv => List.mem_takeWhile_imp hv]

/-! ### Parts of a block -/

/-- The variants below a line do not reach over a line that is none. -/
theorem takeWhile_variants_append {ls ms : List Line} (h : ∀ m ∈ ms.head?, m.isVariant = false) :
    (ls ++ ms).takeWhile Line.isVariant = ls.takeWhile Line.isVariant := by
  induction ls with
  | nil =>
      cases ms with
      | nil => rfl
      | cons m ms => simp [h m rfl]
  | cons l ls ih => simp only [List.cons_append, List.takeWhile_cons, ih]

/-- **A block that is cut in front of a line that is no variant is read part by part.** -/
theorem parseLines_append {ls ms : List Line} (h : ∀ m ∈ ms.head?, m.isVariant = false) :
    parseLines (ls ++ ms) = (do
      let ds ← parseLines ls
      let es ← parseLines ms
      return ds ++ es) := by
  induction ls with
  | nil => cases hms : parseLines ms <;> simp [hms, parseLines, bind, Except.bind, pure, Except.pure]
  | cons l ls ih =>
      rw [List.cons_append, parseLines, parseLines, takeWhile_variants_append h, ih]
      simp only [bind_assoc, pure_bind, List.append_assoc]

/-! ### Numbers -/

/-- The lines of given numbers and texts. -/
def numberedLines (numbers : List Int) (texts : List String) : List Line :=
  List.zipWith Line.ofString numbers texts

theorem length_numberedLines {numbers : List Int} {texts : List String}
    (h : numbers.length = texts.length) : (numberedLines numbers texts).length = texts.length := by
  rw [numberedLines, List.length_zipWith, h, Nat.min_self]

/-- With a number for every line, passing over the variants of an alias is reading them. -/
theorem readNumbered_length (ls : List Line) :
    readNumbered ls.length ls = (parseLines ls).mapError .problem := by
  induction hn : ls.length using Nat.strong_induction_on generalizing ls with
  | _ n ih =>
      subst hn
      cases ls with
      | nil => rw [readNumbered, parseLines]; rfl
      | cons l ls =>
          have hdrop : (ls.takeWhile Line.isVariant).drop ls.length = [] :=
            List.drop_eq_nil_of_le (List.takeWhile_prefix _).length_le
          -- The rest starts behind the line, or behind its variants.
          have hrest : ∀ taken, taken = 0 ∨ taken = (ls.takeWhile Line.isVariant).length →
              readNumbered (ls.length - taken) (ls.drop taken) =
                (parseLines ls).mapError .problem := by
            intro taken htaken
            rw [← List.length_drop, ih _ (by rw [List.length_drop, List.length_cons]; omega) _ rfl]
            rcases htaken with rfl | rfl
            · rw [List.drop_zero]
            · rw [parseLines_drop_variants]
          rw [readNumbered, parseLines]
          simp only [List.length_cons, Nat.add_sub_cancel, hdrop, List.any_nil, Bool.and_false]
          rw [hrest _ (by split <;> simp)]
          cases readLine l (ls.takeWhile Line.isVariant) with
          | error p => rfl
          | ok d => cases parseLines ls <;> rfl

/-- A numbered block is the block of its lines: no number is missed. -/
theorem parseNumbered_eq {numbers : List Int} {texts : List String}
    (h : numbers.length = texts.length) :
    parseNumbered numbers texts = (parseLines (numberedLines numbers texts)).mapError .problem := by
  have hlines : (texts.zipIdx.map fun p => Line.ofString (numbers[p.2]?.getD 0) p.1) =
      numberedLines numbers texts := by
    refine List.ext_getElem (by simp [length_numberedLines h]) fun i hi _ => ?_
    have hi' : i < numbers.length := by simpa [h] using hi
    simp [numberedLines, hi']
  rw [parseNumbered, hlines, ← readNumbered_length, length_numberedLines h, h]

/-- The text of a line starts with the marker of a variant. -/
theorem isVariant_ofString_iff {number : Int} {text : String} :
    (Line.ofString number text).isVariant = true ↔ "---|".toList <+: strip text.toList := by
  rw [Line.isVariant, List.isPrefixOf_iff_prefix]
  rfl

/-- **A numbered block is read part by part** if it is cut in front of a line that is no variant: the
directives of both parts one after the other, or else the problem of the first part that has one. -/
theorem parseNumbered_append {ms ns : List Int} {a b : List String} (ha : ms.length = a.length)
    (hb : ns.length = b.length) (hcut : ∀ text ∈ b.head?, ¬ "---|".toList <+: strip text.toList) :
    parseNumbered (ms ++ ns) (a ++ b) = (do
      let ds ← parseNumbered ms a
      let es ← parseNumbered ns b
      return ds ++ es) := by
  have hlines : numberedLines (ms ++ ns) (a ++ b) = numberedLines ms a ++ numberedLines ns b :=
    List.zipWith_append ha
  have hvariant : ∀ m ∈ (numberedLines ns b).head?, m.isVariant = false := by
    intro m hm
    cases b with
    | nil => simp [numberedLines] at hm
    | cons text b =>
        cases ns with
        | nil => simp at hb
        | cons number ns =>
            obtain rfl : Line.ofString number text = m := by simpa [numberedLines] using hm
            rw [← Bool.not_eq_true, isVariant_ofString_iff]
            exact hcut text rfl
  rw [parseNumbered_eq ha, parseNumbered_eq hb, parseNumbered_eq (by simp [ha, hb]), hlines,
    parseLines_append hvariant]
  cases parseLines (numberedLines ms a) with
  | error p => rfl
  | ok ds => cases parseLines (numberedLines ns b) <;> rfl

/-- The cut is below an alias of which one variant has only a description and one says nothing.  The
part behind it starts with a result, has a stray variant, and ends in a parameter without a type: its
problem is that of the whole block. -/
theorem parseNumbered_append_of_alias :
    let a := ["  ---@alias Mode", "---| # none", "---|", "---| 'r' # read"]
    let b := ["---@return Mode", "---| 'w'", "---@param mode"]
    parseNumbered [3, 4, 5, 6] a = .ok [⟨3, .aliasOf "Mode" (.plain "'r'")⟩] ∧
      (∀ text ∈ b.head?, ¬ "---|".toList <+: strip text.toList) ∧
      parseNumbered ([3, 4, 5, 6] ++ [7, 8, 8]) (a ++ b) =
        .error (.problem ⟨.memberType "param" "mode" .empty, 8, "---@param mode"⟩) := by
  intro a b
  have hfirst : parseNumbered [3, 4, 5, 6] a = .ok [⟨3, .aliasOf "Mode" (.plain "'r'")⟩] := by
    rw [parseNumbered_eq rfl]
    decide +kernel
  have hsecond : parseNumbered [7, 8, 8] b =
      .error (.problem ⟨.memberType "param" "mode" .empty, 8, "---@param mode"⟩) := by
    rw [parseNumbered_eq rfl]
    decide +kernel
  have hcut : ∀ text ∈ b.head?, ¬ "---|".toList <+: strip text.toList := by decide +kernel
  refine ⟨hfirst, hcut, ?_⟩
  rw [parseNumbered_append rfl rfl hcut, hfirst, hsecond]
  rfl

end LuaAmbient.Directive
