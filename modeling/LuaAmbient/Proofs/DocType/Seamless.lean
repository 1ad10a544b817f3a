/-
**The text of a type is not cut.**

An annotation line gives a type and a description with a space between them.  The text of a type has
spaces of its own, but at depth zero they all stand behind a comma or a colon, and the text ends in
neither.

Main results:

* `LuaAmbient.DocType.Printable.held` — the spaces in the text of a type;
* `LuaAmbient.DocType.Printable.last` — its last character;
* `LuaAmbient.DocType.Printable.seamless` — **the text of a type is not cut**.
-/

import LuaAmbient.Proofs.DocType.RoundTrip
import LuaAmbient.Proofs.Nesting.Description

set_option relaxedAutoImplicit false
set_option autoImplicit false

namespace LuaAmbient.DocType

open LuaAmbient.Text Nesting

/-! ### Spaces in the text of a type -/

theorem IsDotted.held {s : List Char} (h : IsDotted s) : Held s :=
  held_of_not_mem fun hmem => ne_of_isDottedPart (h.2 _ hmem) (by decide) rfl

theorem IsDotted.balanced {s : List Char} (h : IsDotted s) : Nesting.balanced s = true :=
  (@IsDotted.item s h (fun _ => false) fun _ _ => rfl).balanced

theorem balanced_group {s : List Char} (h : Nesting.balanced s = true) (grouped : Bool) :
    Nesting.balanced (group grouped s) = true := by
  rw [group]
  split
  · exact balanced_enclosed rfl h
  · exact h

theorem held_group {s : List Char} (hb : Nesting.balanced s = true) (h : Held s) (grouped : Bool) :
    Held (group grouped s) := by
  rw [group]
  split
  · exact held_enclosed rfl hb
  · exact h

theorem header_eq (inside : List Char) :
    Shape.header inside = ['f', 'u', 'n'] ++ ('(' :: inside ++ [')']) := by
  simp [Shape.header]

theorem balanced_printParams {params : List (Label × DocType)}
    (hparams : ∀ p ∈ params, Printable false p.2) (hlabels : ∀ p ∈ params, Labelled p) :
    Nesting.balanced (commas (params.map printParam)) = true :=
  balanced_intercalate (by decide) (List.forall_mem_map.2 fun p hp =>
    (item_printParam (hlabels p hp)
      ((hparams p hp).item (.inr rfl) (hparams p hp).cutsAt_comma)).balanced)

/-- In the text of a type, spaces at depth zero stand only behind the commas of a tuple and the
colon in front of the result of a function. -/
theorem Printable.held {b : Bool} {t : DocType} (h : Printable b t) : Held t.print := by
  induction h with
  | plain hname =>
      rw [print]
      exact hname.isDotted.held
  | optional ht ih =>
      rw [print]
      exact (held_group ht.balanced ih _).append (balanced_group ht.balanced _)
        (held_of_not_mem (by decide))
  | generic hbase hopen hlen hargs ih =>
      rw [print, printList_eq, List.append_assoc]
      exact hbase.isDotted.held.append hbase.isDotted.balanced
        (held_enclosed rfl (balanced_commas hargs))
  | union hlen hoptions hflat ih =>
      rw [print, printList_eq]
      exact held_intercalate (by decide) (held_of_not_mem (by decide))
        (List.forall_mem_map.2 fun t ht => ⟨(hoptions t ht).balanced, ih t ht⟩)
  | @function _ params result hparams hlabels hresult _ _ _ ihp ihr =>
      have hinside := balanced_printParams hparams hlabels
      have hword : Held ['f', 'u', 'n'] := held_of_not_mem (by decide)
      have hheader : Held (Shape.header (commas (params.map printParam))) := by
        rw [header_eq]
        exact hword.append (by decide) (held_enclosed rfl hinside)
      rw [print_function]
      split
      · rwa [List.append_nil]
      · have hbalanced := (@Shape.item_header (fun _ => false) _ hinside (by simp)).balanced
        exact hheader.append hbalanced ((held_behind (.inr rfl)).append (by decide) ihr)
  | table hkeys hvalues hflat =>
      rw [print, printFields_eq]
      exact held_enclosed rfl (balanced_intercalate (by decide) (List.forall_mem_map.2 fun f hf =>
        balanced_printField (hkeys f hf).balanced (hvalues f hf).balanced))
  | array ht ih =>
      rw [print]
      exact (held_group ht.balanced ih _).append (balanced_group ht.balanced _)
        (held_of_not_mem (by decide))
  | tuple hlen helements hflat hfirst ih =>
      rw [print, printList_eq]
      exact held_intercalate (by decide) (held_behind (.inl rfl))
        (List.forall_mem_map.2 fun t ht => ⟨(helements t ht).balanced, ih t ht⟩)

/-- The last character of texts that are joined is that of one of them. -/
theorem exists_getLast?_intercalate {m : List Char} {items : List (List Char)}
    (h : ∀ i ∈ items, i ≠ []) {c : Char} (hc : (m.intercalate items).getLast? = some c) :
    ∃ i ∈ items, i.getLast? = some c := by
  induction items with
  | nil => simp at hc
  | cons i items ih =>
      cases items with
      | nil => exact ⟨i, List.mem_cons_self, by rwa [List.intercalate_singleton] at hc⟩
      | cons j items =>
          have hne : m.intercalate (j :: items) ≠ [] := by
            have hj := h j (by simp)
            cases items with
            | nil => rwa [List.intercalate_singleton]
            | cons k items => simp [List.intercalate_cons_cons, hj]
          rw [List.intercalate_cons_cons, List.getLast?_append,
            List.getLast?_eq_some_getLast hne, Option.some_or,
            ← List.getLast?_eq_some_getLast hne] at hc
          obtain ⟨x, hx, hlast⟩ := ih (fun x hx => h x (List.mem_cons_of_mem _ hx)) hc
          exact ⟨x, List.mem_cons_of_mem _ hx, hlast⟩

/-- The text of a type does not end in what would keep it going. -/
theorem Printable.last {b : Bool} {t : DocType} (h : Printable b t) {c : Char}
    (hc : t.print.getLast? = some c) : isJoiner c = false ∧ c ≠ ':' := by
  have hjoined : ∀ {m : List Char} {ts : List DocType}, (∀ t ∈ ts, Printable false t) →
      (m.intercalate (ts.map print)).getLast? = some c →
      ∃ t ∈ ts, t.print.getLast? = some c := by
    intro m ts hts hlast
    obtain ⟨i, hi, hlast⟩ := exists_getLast?_intercalate
      (List.forall_mem_map.2 fun t ht => (hts t ht).ne_nil) hlast
    obtain ⟨t, ht, rfl⟩ := List.mem_map.1 hi
    exact ⟨t, ht, hlast⟩
  induction h with
  | plain hname =>
      rw [print] at hc
      have hpart := hname.isDotted.2 c (List.mem_of_getLast? hc)
      refine ⟨?_, ne_of_isDottedPart hpart (by decide)⟩
      simp [isJoiner, ne_of_isDottedPart hpart (d := ',') (by decide),
        ne_of_isDottedPart hpart (d := '|') (by decide)]
  | optional _ _ =>
      rw [print, List.getLast?_concat] at hc
      obtain rfl := Option.some.inj hc
      decide
  | generic _ _ _ _ _ =>
      rw [print, List.getLast?_concat] at hc
      obtain rfl := Option.some.inj hc
      decide
  | union hlen hoptions hflat ih =>
      rw [print, printList_eq] at hc
      obtain ⟨t, ht, hlast⟩ := hjoined hoptions hc
      exact ih t ht hlast
  | @function _ params result hparams hlabels hresult _ _ _ ihp ihr =>
      rw [print_function] at hc
      split at hc
      · rw [List.append_nil, Shape.header, List.getLast?_concat] at hc
        obtain rfl := Option.some.inj hc
        decide
      · rw [List.getLast?_append, List.getLast?_cons_cons, List.getLast?_cons,
          List.getLast?_eq_some_getLast hresult.ne_nil] at hc
        exact ihr ((List.getLast?_eq_some_getLast hresult.ne_nil).trans (by simpa using hc))
  | table _ _ _ _ _ =>
      rw [print, List.getLast?_concat] at hc
      obtain rfl := Option.some.inj hc
      decide
  | array _ _ =>
      rw [print, List.getLast?_append] at hc
      obtain rfl : ']' = c := by simpa using hc
      decide
  | tuple hlen helements hflat hfirst ih =>
      rw [print, printList_eq] at hc
      obtain ⟨t, ht, hlast⟩ := hjoined helements hc
      exact ih t ht hlast

/-- **The text of a type is not cut.** -/
theorem Printable.seamless {b : Bool} {t : DocType} (h : Printable b t) : Seamless t.print where
  balanced := h.balanced
  trimmed := h.trimmed
  held := h.held
  last _ hc := h.last hc

end LuaAmbient.DocType
