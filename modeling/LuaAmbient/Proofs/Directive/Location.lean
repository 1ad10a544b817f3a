/-
**A problem is found where it stands.**

The problem of a block carries the number and the text of the line that cannot be read.  That line is
the first one that says nothing readable, or it is a variant of the alias that does so.  A problem wraps
the fault of a type exactly if its line gives the type of a parameter or of a field.

Main definitions:

* `LuaAmbient.Directive.Fault.cause?` — the fault of a type that a fault of a directive wraps;
* `LuaAmbient.Directive.Line.Annotates` — the part of a line that gives the type of a parameter or of a
  field;
* `LuaAmbient.Directive.Problem.IsOf`, `LuaAmbient.Directive.Problem.IsAt` — a problem of a line, and
  of a line in a block.

Main results:

* `LuaAmbient.Directive.readMember_error`, `LuaAmbient.Directive.readReturn_error`,
  `LuaAmbient.Directive.readClass_error`, `LuaAmbient.Directive.readAlias_error` — the problems of the
  annotations;
* `LuaAmbient.Directive.readLine_error` — the problems of a line with the variants below it;
* `LuaAmbient.Directive.exists_of_parseLines_error` — the line that a block fails on;
* `LuaAmbient.Directive.isAt_of_parseNumbered` — **the problem of a numbered block is found where it
  stands**.
-/

import LuaAmbient.Proofs.Directive.Boundary
import LuaAmbient.Proofs.Except

set_option relaxedAutoImplicit false
set_option autoImplicit false

namespace LuaAmbient.Directive

open LuaAmbient.Text

/-- The fault of a type that a fault of a directive wraps. -/
def Fault.cause? : Fault → Option DocType.Fault
  | .memberType _ _ fault => some fault
  | _ => none

/-- The line gives a parameter or a field of some name the type that is written as `typeText`. -/
def Line.Annotates (l : Line) (typeText : List Char) : Prop :=
  ∃ isField s name rest, l.tagged? = some (if isField then "field" else "param", s) ∧
    memberName isField s = (name, rest) ∧ name ≠ [] ∧ (Nesting.splitDescription rest).1 = typeText

/-- The problem is one of the line: it has its number and its text, and it wraps a fault exactly if
that is one of the type that the line gives to a parameter or to a field. -/
structure Problem.IsOf (p : Problem) (l : Line) : Prop where
  line : p.line = l.number
  text : p.text = String.ofList l.text
  cause : ∀ fault, p.fault.cause? = some fault ↔
    ∃ typeText, l.Annotates typeText ∧ DocType.parse typeText = .error fault

/-! ### Annotations -/

/-- The part of a line that gives a type is determined by its tag and what stands behind it. -/
theorem annotates_iff {l : Line} {isField : Bool} {s : List Char}
    (h : l.tagged? = some (if isField then "field" else "param", s)) {typeText : List Char} :
    l.Annotates typeText ↔ (memberName isField s).1 ≠ [] ∧
      (Nesting.splitDescription (memberName isField s).2).1 = typeText := by
  constructor
  · rintro ⟨isField', s', name, rest, h', hname, hne, htype⟩
    rw [h, Option.some.injEq, Prod.mk.injEq] at h'
    obtain ⟨htag, rfl⟩ := h'
    have hsame : isField = isField' := by revert htag; cases isField <;> cases isField' <;> decide
    rw [hsame, hname]
    exact ⟨hne, htype⟩
  · rintro ⟨hne, htype⟩
    exact ⟨isField, s, _, _, h, rfl, hne, htype⟩

theorem not_annotates_of_tag {l : Line} {tag : String} {s : List Char}
    (h : l.tagged? = some (tag, s)) (hparam : tag ≠ "param") (hfield : tag ≠ "field")
    (typeText : List Char) : ¬ l.Annotates typeText := by
  rintro ⟨isField, s', _, _, h', -⟩
  rw [h, Option.some.injEq, Prod.mk.injEq] at h'
  cases isField with
  | false => exact hparam h'.1
  | true => exact hfield h'.1

theorem not_annotates_of_variant {l : Line} (h : l.isVariant = true) (typeText : List Char) :
    ¬ l.Annotates typeText := by
  rintro ⟨isField, s, _, _, htag, -⟩
  obtain ⟨rest, hrest⟩ := isVariant_iff.1 h
  simp [Line.tagged?, hrest] at htag

/-- A fault that wraps none, of a line that gives no type to a parameter or to a field. -/
theorem isOf_problem {l : Line} (hl : ∀ typeText, ¬ l.Annotates typeText) {fault : Fault}
    (hf : fault.cause? = none) : (l.problem fault).IsOf l where
  line := rfl
  text := rfl
  cause := by simp [Line.problem, hf, hl]

theorem readType_error {l : Line} {s : List Char} {p : Problem} (h : l.readType s = .error p) :
    ∃ fault, p = l.problem (.type fault) := by
  rw [Line.readType] at h
  split at h
  · exact absurd h (by simp)
  · next fault _ => exact ⟨fault, (Except.error.inj h).symm⟩

/-- A parameter or a field has no name, or its type is none. -/
theorem readMember_error {l : Line} (isField : Bool) {s : List Char} {p : Problem}
    (htag : l.tagged? = some (if isField then "field" else "param", s))
    (h : readMember l isField s = .error p) : p.IsOf l := by
  simp only [readMember] at h
  split at h
  · next hempty =>
    -- Without a name there is no type to speak of.
    rw [← Except.error.inj h]
    refine isOf_problem (fun typeText hl => ?_) rfl
    exact ((annotates_iff htag).1 hl).1 (List.isEmpty_iff.1 hempty)
  · next hempty =>
    have hne : (memberName isField s).1 ≠ [] := fun hnil => hempty (List.isEmpty_iff.2 hnil)
    split at h
    · next fault hparse =>
      rw [← Except.error.inj h]
      refine ⟨rfl, rfl, fun fault' => ?_⟩
      constructor
      · intro hcause
        obtain rfl : fault = fault' := Option.some.inj hcause
        exact ⟨_, (annotates_iff htag).2 ⟨hne, rfl⟩, hparse⟩
      · rintro ⟨typeText, hl, hparse'⟩
        rw [← ((annotates_iff htag).1 hl).2, hparse] at hparse'
        exact congrArg some (Except.error.inj hparse')
    · exact absurd h (by simp)

theorem readReturn_error {l : Line} {s : List Char} {p : Problem} (h : readReturn l s = .error p) :
    ∃ fault, p = l.problem (.type fault) :=
  readType_error (eq_error_of_bind_pure h)

theorem readParent_error {l : Line} {s : List Char} {p : Problem} (h : readParent l s = .error p) :
    ∃ fault, p = l.problem fault ∧ fault.cause? = none := by
  rw [readParent.eq_def] at h
  split at h
  · exact absurd h (by simp)
  · rcases bind_eq_error h with h | ⟨t, -, h⟩
    · obtain ⟨fault, hp⟩ := readType_error h
      exact ⟨_, hp, rfl⟩
    · split at h
      · exact absurd h (by simp)
      · exact ⟨_, (Except.error.inj h).symm, rfl⟩
  · exact absurd h (by simp)

theorem readClass_error {l : Line} {s : List Char} {p : Problem} (h : readClass l s = .error p) :
    ∃ fault, p = l.problem fault ∧ fault.cause? = none := by
  simp only [readClass] at h
  split at h
  · exact ⟨_, (Except.error.inj h).symm, rfl⟩
  · exact readParent_error (eq_error_of_bind_pure h)

/-- The problem of an alias is one of the type behind its name or of the type of a variant. -/
theorem readAlias_error {l : Line} {variants : List Line} {s : List Char} {p : Problem}
    (h : readAlias l variants s = .error p) :
    ∃ m, (m = l ∨ m ∈ variants) ∧ ∃ fault, p = m.problem (.type fault) := by
  simp only [readAlias] at h
  split at h
  · exact ⟨l, .inl rfl, readType_error (eq_error_of_bind_pure h)⟩
  · obtain ⟨v, hv, hvp⟩ := exists_of_mapM_eq_error (eq_error_of_bind_pure h)
    exact ⟨v, .inr (List.mem_filter.1 hv).1, readType_error hvp⟩

/-- The problem of a tag: it is one of the line, or else the line is an alias and the problem is one
of a variant below it. -/
theorem readTag_error {l : Line} {variants : List Line} (hv : ∀ v ∈ variants, v.isVariant = true)
    {tag : String} {s : List Char} (htag : l.tagged? = some (tag, s)) {p : Problem}
    (h : readTag l variants tag s = .error p) :
    p.IsOf l ∨ l.isAlias = true ∧ ∃ v ∈ variants, p.IsOf v := by
  rw [readTag.eq_def] at h
  split at h
  · exact absurd h (by simp)
  · exact absurd h (by simp)
  · obtain ⟨m, hm, fault, rfl⟩ := readAlias_error (eq_error_of_bind_pure h)
    rcases hm with rfl | hm
    · exact .inl (isOf_problem (not_annotates_of_tag htag (by decide) (by decide)) rfl)
    · exact .inr ⟨by simp [Line.isAlias, htag], m, hm,
        isOf_problem (not_annotates_of_variant (hv m hm)) rfl⟩
  · obtain ⟨fault, rfl, hf⟩ := readClass_error (eq_error_of_bind_pure h)
    exact .inl (isOf_problem (not_annotates_of_tag htag (by decide) (by decide)) hf)
  · exact absurd h (by simp)
  · exact .inl (readMember_error false htag (eq_error_of_bind_pure h))
  · exact .inl (readMember_error true htag (eq_error_of_bind_pure h))
  · obtain ⟨fault, rfl⟩ := readReturn_error (eq_error_of_bind_pure h)
    exact .inl (isOf_problem (not_annotates_of_tag htag (by decide) (by decide)) rfl)
  · exact absurd h (by simp)

/-! ### Lines -/

/-- The problem of a line with the variants below it. -/
theorem readLine_error {l : Line} {variants : List Line} (hv : ∀ v ∈ variants, v.isVariant = true)
    {p : Problem} (h : readLine l variants = .error p) :
    p.IsOf l ∨ l.isAlias = true ∧ ∃ v ∈ variants, p.IsOf v := by
  have hbody : readBody l variants = .error p := eq_error_of_bind_pure h
  rw [readBody.eq_def] at hbody
  split at hbody
  · next tag s htag => exact readTag_error hv htag hbody
  · exact absurd hbody (by simp)

/-- A block fails on the first line that cannot be read. -/
theorem exists_of_parseLines_error {ls : List Line} {p : Problem} (h : parseLines ls = .error p) :
    ∃ above l below, ls = above ++ l :: below ∧ (∃ ds, parseLines above = .ok ds) ∧
      readLine l (below.takeWhile Line.isVariant) = .error p := by
  induction ls with
  | nil => exact absurd h (by simp [parseLines])
  | cons l ls ih =>
      rw [parseLines] at h
      rcases bind_eq_error h with h | ⟨d, hd, h⟩
      · exact ⟨[], l, ls, rfl, ⟨[], rfl⟩, h⟩
      · obtain ⟨above, m, below, rfl, ⟨ds, hds⟩, hm⟩ := ih (eq_error_of_bind_pure h)
        refine ⟨l :: above, m, below, rfl, ⟨d.toList ++ ds, ?_⟩, hm⟩
        -- The line that fails is no variant: the lines above it have the same variants without it.
        have hvariant : ∀ k ∈ (m :: below).head?, k.isVariant = false := by
          rintro k hk
          obtain rfl : m = k := by simpa using hk
          by_contra hk'
          rw [readLine_variant (by simpa using hk')] at hm
          exact absurd hm (by simp)
        rw [takeWhile_variants_append hvariant] at hd
        rw [parseLines, hd, hds]
        rfl

/-! ### Blocks -/

/-- Where the problem of a numbered block is.  The lines in front of line `start` can be read.  The
problem is one of line `i`, which is the same one or a variant of the alias there. -/
structure Problem.IsAt (p : Problem) (numbers : List Int) (texts : List String) (start i : Nat) :
    Prop where
  start_le : start ≤ i
  line : numbers[i]? = some p.line
  text : (texts[i]?.map fun text => String.ofList (strip text.toList)) = some p.text
  reads_above : ∃ ds, parseNumbered (numbers.take start) (texts.take start) = .ok ds
  below_alias : start = i ∨
    (∃ l ∈ (numberedLines numbers texts)[start]?, l.isAlias = true) ∧
      ∀ k, start < k → k ≤ i → ∃ l ∈ (numberedLines numbers texts)[k]?, l.isVariant = true
  cause : ∀ fault, p.fault.cause? = some fault ↔
    ∃ l ∈ (numberedLines numbers texts)[i]?, ∃ typeText, l.Annotates typeText ∧
      DocType.parse typeText = .error fault

/-- A problem of line `i` of a numbered block. -/
theorem isAt_of_isOf {numbers : List Int} {texts : List String}
    (hlen : numbers.length = texts.length) {p : Problem} {start i : Nat} {m : Line}
    (hm : (numberedLines numbers texts)[i]? = some m) (hp : p.IsOf m) (hle : start ≤ i)
    (hreads : ∃ ds, parseLines ((numberedLines numbers texts).take start) = .ok ds)
    (hbelow : start = i ∨ (∃ l ∈ (numberedLines numbers texts)[start]?, l.isAlias = true) ∧
      ∀ k, start < k → k ≤ i → ∃ l ∈ (numberedLines numbers texts)[k]?, l.isVariant = true) :
    p.IsAt numbers texts start i := by
  obtain ⟨number, text, hnumber, htext, rfl⟩ := List.getElem?_zipWith_eq_some.1 hm
  refine ⟨hle, ?_, ?_, ?_, hbelow, ?_⟩
  · rw [hnumber, hp.line]
    rfl
  · rw [htext, hp.text]
    rfl
  · obtain ⟨ds, hds⟩ := hreads
    refine ⟨ds, ?_⟩
    rw [parseNumbered_eq (by simp [hlen]), numberedLines, ← List.take_zipWith]
    rw [numberedLines] at hds
    rw [hds]
    rfl
  · simpa [hm] using hp.cause

/-- **The problem of a numbered block is found where it stands.** -/
theorem isAt_of_parseNumbered {numbers : List Int} {texts : List String}
    (hlen : numbers.length = texts.length) {e : NumberingFault}
    (h : parseNumbered numbers texts = .error e) :
    ∃ p, e = .problem p ∧ ∃ start i, p.IsAt numbers texts start i := by
  rw [parseNumbered_eq hlen] at h
  cases hparse : parseLines (numberedLines numbers texts) with
  | ok ds => exact absurd h (by simp [hparse, Except.mapError])
  | error p =>
      rw [hparse] at h
      refine ⟨p, (Except.error.inj h).symm, ?_⟩
      obtain ⟨above, l, below, hlines, habove, hl⟩ := exists_of_parseLines_error hparse
      have hat : (numberedLines numbers texts)[above.length]? = some l := by simp [hlines]
      have hreads : ∃ ds, parseLines ((numberedLines numbers texts).take above.length) = .ok ds := by
        rwa [hlines, List.take_left]
      rcases readLine_error (fun v hv => List.mem_takeWhile_imp hv) hl with hp | ⟨halias, v, hv, hp⟩
      · exact ⟨_, _, isAt_of_isOf hlen hat hp le_rfl hreads (.inl rfl)⟩
      · -- Up to the variant that cannot be read, all lines below the alias are variants.
        have hbelow : ∀ (n : Nat) (hn : n < (below.takeWhile Line.isVariant).length),
            (numberedLines numbers texts)[above.length + 1 + n]? =
              some (below.takeWhile Line.isVariant)[n] := by
          intro n hn
          have hprefix := List.takeWhile_prefix (l := below) Line.isVariant
          have hn' : n < below.length := hn.trans_le hprefix.length_le
          rw [hlines, List.getElem?_append_right (by omega), hprefix.getElem hn,
            show above.length + 1 + n - above.length = n + 1 by omega, List.getElem?_cons_succ,
            List.getElem?_eq_getElem hn']
        obtain ⟨n, hn, rfl⟩ := List.mem_iff_getElem.1 hv
        refine ⟨_, _, isAt_of_isOf hlen (hbelow n hn) hp (by omega) hreads
          (.inr ⟨⟨l, hat, halias⟩, ?_⟩)⟩
        intro k hk hkn
        obtain ⟨k, rfl⟩ := Nat.exists_eq_add_of_le (Nat.succ_le_of_lt hk)
        exact ⟨_, hbelow k (by omega), List.mem_takeWhile_imp (List.getElem_mem _)⟩

/-- An alias below a parameter, with a variant that says nothing, one that can be read, and one whose
brackets do not pair: the problem is at that one. -/
theorem isAt_of_unpairedVariant :
    let numbers := [3, 4, 5, 7, 8]
    let texts := ["---@param x number", "---@alias Mode", "---|", "---| 'r' # read",
      "  ---| Map<string"]
    let p : Problem := ⟨.type (.unterminated "Map<string"), 8, "---| Map<string"⟩
    parseNumbered numbers texts = .error (.problem p) ∧ ∃ start i, p.IsAt numbers texts start i := by
  intro numbers texts p
  have h : parseNumbered numbers texts = .error (.problem p) := by
    rw [parseNumbered_eq rfl]
    decide +kernel
  obtain ⟨q, hq, hat⟩ := isAt_of_parseNumbered rfl h
  obtain rfl : p = q := NumberingFault.problem.inj hq
  exact ⟨h, hat⟩

end LuaAmbient.Directive
