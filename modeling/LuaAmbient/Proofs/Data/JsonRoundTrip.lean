/-
**What is written as JSON is read back.**

The printer sorts the fields of records and puts every member on a line of its own; the reader skips
blanks, joins escapes and keeps the later of two fields of one name.  Reading what was written
therefore gives the sorted value, in which of two fields of one name only the later is left.

The reader runs on a bound that it computes from the length of the text, and every piece that the
printer writes is at least as long as the number of steps that reading it takes.

Main definitions:

* `LuaAmbient.Json.Stored.toData` — the value that is read back;
* `LuaAmbient.Json.Stored.depth` — how many lists and records of a value are open at a time.

Main results:

* `LuaAmbient.Json.readString_flatMap_escapeChar` — a quoted string is read back;
* `LuaAmbient.Json.parse_render` — **what is written is read back**.
-/

import Mathlib.Data.List.DropRight
import Mathlib.Tactic.Common
import LuaAmbient.Data.JsonPrinter
import LuaAmbient.Data.JsonReader

set_option relaxedAutoImplicit false
set_option autoImplicit false

namespace LuaAmbient.Json

open LuaAmbient.Text

/-! ### Strings -/

theorem hexValue?_hexDigit : ∀ n < 16, hexValue? (hexDigit n) = some n := by decide +kernel

theorem readUnits_plain {c : Char} (hq : c ≠ '"') (hb : c ≠ '\\') (hc : ¬ c.toNat < 0x20)
    (s : List Char) :
    readUnits (c :: s) = (readUnits s).map fun r => (c.toNat :: r.1, r.2) := by
  rw [readUnits.eq_5 _ _ (by simpa using hq) (by simp [hb]) (by simp [hb]), if_neg hc]
  cases readUnits s <;> rfl

theorem readUnits_letter {e : Char} {n : Nat} (he : escape? e = some n) (s : List Char) :
    readUnits ('\\' :: e :: s) = (readUnits s).map fun r => (n :: r.1, r.2) := by
  have hu : e ≠ 'u' := by
    rintro rfl
    simp [escape?] at he
  rw [readUnits.eq_4 _ _ (by simp [hu]), he]
  cases readUnits s <;> rfl

theorem readUnits_hex {n : Nat} (hn : n < 0x20) (s : List Char) :
    readUnits ('\\' :: 'u' :: '0' :: '0' :: hexDigit (n / 16) :: hexDigit (n % 16) :: s) =
      (readUnits s).map fun r => (n :: r.1, r.2) := by
  have hx : hexNumber? ['0', '0', hexDigit (n / 16), hexDigit (n % 16)] = some n := by
    have h0 : hexValue? '0' = some 0 := by decide
    have h1 := hexValue?_hexDigit (n / 16) (by omega)
    have h2 := hexValue?_hexDigit (n % 16) (by omega)
    simp only [hexNumber?, List.foldl_cons, List.foldl_nil, h0, h1, h2]
    simp only [bind, Option.bind, pure, Option.some.injEq]
    omega
  rw [readUnits, hx]
  cases readUnits s <;> rfl

theorem readUnits_escapeChar (c : Char) (s : List Char) :
    readUnits (escapeChar c ++ s) = (readUnits s).map fun r => (c.toNat :: r.1, r.2) := by
  rw [escapeChar]
  split_ifs with hq hb hn hr ht h8 hf hc
  · obtain rfl := eq_of_beq hq
    exact readUnits_letter rfl s
  · obtain rfl := eq_of_beq hb
    exact readUnits_letter rfl s
  · obtain rfl := eq_of_beq hn
    exact readUnits_letter rfl s
  · obtain rfl := eq_of_beq hr
    exact readUnits_letter rfl s
  · obtain rfl := eq_of_beq ht
    exact readUnits_letter rfl s
  · rw [eq_of_beq h8]
    exact readUnits_letter rfl s
  · rw [eq_of_beq hf]
    exact readUnits_letter rfl s
  · exact readUnits_hex hc s
  · exact readUnits_plain (by simpa using hq) (by simpa using hb) hc s

theorem readUnits_flatMap_escapeChar (s rest : List Char) :
    readUnits (s.flatMap escapeChar ++ '"' :: rest) = some (s.map Char.toNat, rest) := by
  induction s with
  | nil => rfl
  | cons c s ih =>
      rw [List.flatMap_cons, List.append_assoc, readUnits_escapeChar, ih]
      rfl

theorem not_surrogate (c : Char) : ¬ (0xd800 ≤ c.toNat ∧ c.toNat < 0xe000) := by
  have h : c.toNat.isValidChar := c.valid
  simp only [Nat.isValidChar] at h
  omega

theorem joinUnits_map_toNat (s : List Char) : joinUnits (s.map Char.toNat) = some s := by
  induction s with
  | nil => rfl
  | cons c s ih =>
      have hc := not_surrogate c
      cases s with
      | nil =>
          rw [List.map_cons, List.map_nil, joinUnits, if_neg (by simpa using hc), Char.ofNat_toNat]
      | cons d s =>
          rw [List.map_cons] at ih
          rw [List.map_cons, List.map_cons, joinUnits, if_neg (by simp; omega),
            if_neg (by simp; omega), ih, Char.ofNat_toNat]
          rfl

/-- A quoted string is read back. -/
theorem readString_flatMap_escapeChar (s : String) (rest : List Char) :
    readString (s.toList.flatMap escapeChar ++ '"' :: rest) = some (s, rest) := by
  rw [readString, readUnits_flatMap_escapeChar]
  simp [joinUnits_map_toNat]

theorem toList_quote (s : String) :
    (quote s).toList = '"' :: (s.toList.flatMap escapeChar ++ ['"']) := by
  simp [quote]

/-! ### Blanks -/

theorem skipBlanks_newline (level : Nat) (s : List Char) :
    skipBlanks ((newline level).toList ++ s) = skipBlanks s := by
  simp only [newline, String.toList_append, String.toList_ofList, List.append_assoc]
  induction 2 * level with
  | zero => rfl
  | succ n ih =>
      rw [← ih, List.replicate_succ]
      rfl

theorem skipBlanks_space (s : List Char) : skipBlanks (' ' :: s) = skipBlanks s :=
  rfl

theorem skipBlanks_of_head {c : Char} (h : ¬ (c = ' ' ∨ c = '\t' ∨ c = '\n' ∨ c = '\r'))
    (s : List Char) : skipBlanks (c :: s) = c :: s := by
  rw [skipBlanks, List.dropWhile_cons_of_neg]
  simpa [or_assoc] using h

theorem skipBlanks_skipBlanks (s : List Char) : skipBlanks (skipBlanks s) = skipBlanks s := by
  rw [skipBlanks, skipBlanks, List.dropWhile_idempotent]

theorem readValue_congr {s t : List Char} (h : skipBlanks s = skipBlanks t) (levels bound : Nat) :
    readValue levels bound s = readValue levels bound t := by
  cases bound with
  | zero => rw [readValue, readValue]
  | succ bound => rw [readValue, readValue, h]

theorem readItems_congr {s t : List Char} (h : skipBlanks s = skipBlanks t) (levels bound : Nat) :
    readItems levels bound s = readItems levels bound t := by
  cases bound with
  | zero => rw [readItems, readItems]
  | succ bound => rw [readItems, readItems, readValue_congr h]

theorem readFields_congr {s t : List Char} (h : skipBlanks s = skipBlanks t) (levels bound : Nat) :
    readFields levels bound s = readFields levels bound t := by
  cases bound with
  | zero => rw [readFields, readFields]
  | succ bound => rw [readFields, readFields, h]

/-! ### Values -/

mutual

/-- How many lists and records of a value are open at a time. -/
def Stored.depth : Stored → Nat
  | .string _ => 0
  | .list items => itemsDepth items + 1
  | .record fields => fieldsDepth fields + 1

/-- How many lists and records of the items of a list are open at a time. -/
def itemsDepth : List Stored → Nat
  | [] => 0
  | v :: vs => max v.depth (itemsDepth vs)

/-- How many lists and records of the fields of a record are open at a time. -/
def fieldsDepth : List (String × Stored) → Nat
  | [] => 0
  | (_, v) :: fs => max v.depth (fieldsDepth fs)

end

mutual

/-- The value that is read back. -/
def Stored.toData : Stored → Data
  | .string s => .string s
  | .list items => .list (itemsData items)
  | .record fields => .record (Keyed.ofList (fieldsData fields))

/-- The items that are read back. -/
def itemsData : List Stored → List Data
  | [] => []
  | v :: vs => v.toData :: itemsData vs

/-- The fields that are read back. -/
def fieldsData : List (String × Stored) → List (String × Data)
  | [] => []
  | (k, v) :: fs => (k, v.toData) :: fieldsData fs

end

theorem readValue_quote (levels bound : Nat) (s : String) (rest : List Char) :
    readValue levels (bound + 1) ((quote s).toList ++ rest) = some (.string s, rest) := by
  rw [readValue, toList_quote, List.cons_append, skipBlanks_of_head (by decide)]
  simp [readString_flatMap_escapeChar]

/-! ### Lists -/

theorem readItems_last {levels bound : Nat} {s t rest : List Char} {d : Data}
    (hv : readValue levels bound s = some (d, t)) (ht : skipBlanks t = ']' :: rest) :
    readItems levels (bound + 1) s = some ([d], rest) := by
  rw [readItems, hv]
  simp only [bind, Option.bind, ht]
  rfl

theorem readItems_cons {levels bound : Nat} {s t u rest : List Char} {d : Data} {ds : List Data}
    (hv : readValue levels bound s = some (d, t)) (ht : skipBlanks t = ',' :: u)
    (hu : readItems levels bound u = some (ds, rest)) :
    readItems levels (bound + 1) s = some (d :: ds, rest) := by
  rw [readItems, hv]
  simp only [bind, Option.bind, ht, hu]
  rfl

theorem readItems_close (levels bound : Nat) (s : List Char) :
    readItems levels bound (']' :: s) = none := by
  cases bound with
  | zero => rw [readItems]
  | succ bound =>
      rw [readItems]
      cases bound with
      | zero => rw [readValue]; rfl
      | succ bound => rw [readValue]; rfl

theorem readValue_list {levels bound : Nat} {s rest : List Char} {ds : List Data}
    (h : readItems levels bound s = some (ds, rest)) :
    readValue (levels + 1) (bound + 1) ('[' :: s) = some (.list ds, rest) := by
  have hs : readItems levels bound (skipBlanks s) = some (ds, rest) := by
    rw [← h]
    exact readItems_congr (skipBlanks_skipBlanks s) levels bound
  rw [readValue, skipBlanks_of_head (by decide)]
  simp only [Nat.add_eq_zero_iff, Nat.one_ne_zero, and_false, beq_iff_eq, if_false,
    Nat.add_sub_cancel]
  split
  · next he => rw [he, readItems_close] at hs; exact absurd hs (by simp)
  · rw [hs]; rfl

/-! ### Records -/

theorem readFields_last {levels bound : Nat} {k : String} {s t rest : List Char} {d : Data}
    (hv : readValue levels bound s = some (d, t)) (ht : skipBlanks t = '}' :: rest) :
    readFields levels (bound + 1) ((quote k).toList ++ ':' :: s) = some ([(k, d)], rest) := by
  rw [readFields, toList_quote, List.cons_append, skipBlanks_of_head (by decide)]
  simp only [List.append_assoc, List.cons_append, List.nil_append, readString_flatMap_escapeChar,
    bind, Option.bind, skipBlanks_of_head (c := ':') (by decide), hv, ht]
  rfl

theorem readFields_cons {levels bound : Nat} {k : String} {s t u rest : List Char} {d : Data}
    {ds : List (String × Data)} (hv : readValue levels bound s = some (d, t))
    (ht : skipBlanks t = ',' :: u) (hu : readFields levels bound u = some (ds, rest)) :
    readFields levels (bound + 1) ((quote k).toList ++ ':' :: s) = some ((k, d) :: ds, rest) := by
  rw [readFields, toList_quote, List.cons_append, skipBlanks_of_head (by decide)]
  simp only [List.append_assoc, List.cons_append, List.nil_append, readString_flatMap_escapeChar,
    bind, Option.bind, skipBlanks_of_head (c := ':') (by decide), hv, ht, hu]
  rfl

theorem readFields_close (levels bound : Nat) (s : List Char) :
    readFields levels bound ('}' :: s) = none := by
  cases bound with
  | zero => rw [readFields]
  | succ bound =>
      rw [readFields, skipBlanks_of_head (by decide)]
      rfl

theorem readValue_record {levels bound : Nat} {s rest : List Char} {ds : List (String × Data)}
    (h : readFields levels bound s = some (ds, rest)) :
    readValue (levels + 1) (bound + 1) ('{' :: s) = some (.record (Keyed.ofList ds), rest) := by
  have hs : readFields levels bound (skipBlanks s) = some (ds, rest) := by
    rw [← h]
    exact readFields_congr (skipBlanks_skipBlanks s) levels bound
  rw [readValue, skipBlanks_of_head (by decide)]
  simp only [Nat.add_eq_zero_iff, Nat.one_ne_zero, and_false, beq_iff_eq, if_false,
    Nat.add_sub_cancel]
  split
  · next he => rw [he, readFields_close] at hs; exact absurd hs (by simp)
  · rw [hs]; rfl

/-! ### The round trip -/

theorem toList_bracketed_nil (opening closing : String) (level : Nat) (rest : List Char) :
    (bracketed opening closing level []).toList ++ rest =
      opening.toList ++ (closing.toList ++ rest) := by
  simp [bracketed]

theorem toList_bracketed (opening closing : String) (level : Nat) (m : String)
    (members : List String) (rest : List Char) :
    (bracketed opening closing level (m :: members)).toList ++ rest =
      opening.toList ++ ((newline (level + 1)).toList ++
        ((joinWith ("," ++ newline (level + 1)) (m :: members)).toList ++
          ((newline level).toList ++ (closing.toList ++ rest)))) := by
  simp [bracketed]

theorem length_newline_pos (level : Nat) : 0 < (newline level).length := by
  rw [newline, String.length_append]
  exact Nat.add_pos_left (by decide) _

theorem length_bracketed (opening closing : String) (level : Nat) (m : String)
    (members : List String) :
    (joinWith ("," ++ newline (level + 1)) (m :: members)).length + 2 ≤
      (bracketed opening closing level (m :: members)).length := by
  have h := length_newline_pos level
  have h' := length_newline_pos (level + 1)
  simp only [bracketed, List.isEmpty_cons, Bool.false_eq_true, if_false, String.length_append]
  omega

theorem toList_joinWith (level : Nat) (a b : String) (l : List String) (rest : List Char) :
    (joinWith ("," ++ newline level) (a :: b :: l)).toList ++ rest =
      a.toList ++ (',' :: ((newline level).toList ++
        ((joinWith ("," ++ newline level) (b :: l)).toList ++ rest))) := by
  simp [joinWith]

theorem length_joinWith (level : Nat) (a b : String) (l : List String) :
    a.length + (joinWith ("," ++ newline level) (b :: l)).length + 2 ≤
      (joinWith ("," ++ newline level) (a :: b :: l)).length := by
  have h := length_newline_pos level
  have hc : ",".length = 1 := rfl
  simp only [joinWith, String.length_append]
  omega

theorem toList_field (k text : String) (s : List Char) :
    (quote k ++ ": " ++ text).toList ++ s = (quote k).toList ++ ':' :: ' ' :: (text.toList ++ s) := by
  simp

theorem length_field (k text : String) : text.length < (quote k ++ ": " ++ text).length := by
  have hc : ": ".length = 2 := rfl
  simp only [String.length_append]
  omega

-- the induction is on the value; the bound is compared with the length of the written text
mutual

theorem readValue_renderAt (level levels bound : Nat) (rest : List Char) : (v : Stored) →
    v.depth ≤ levels → (renderAt level v).length < bound →
    readValue levels bound ((renderAt level v).toList ++ rest) = some (v.toData, rest)
  | .string s, _, hb => by
      obtain ⟨bound, rfl⟩ : ∃ b, bound = b + 1 := ⟨bound - 1, by omega⟩
      rw [renderAt, Stored.toData]
      exact readValue_quote levels bound s rest
  | .list items, hd, hb => by
      obtain ⟨bound, rfl⟩ : ∃ b, bound = b + 1 := ⟨bound - 1, by omega⟩
      rw [Stored.depth] at hd
      obtain ⟨levels, rfl⟩ : ∃ l, levels = l + 1 := ⟨levels - 1, by omega⟩
      rw [renderAt] at hb ⊢
      rw [Stored.toData]
      cases items with
      | nil =>
          rw [renderItems, toList_bracketed_nil, readValue]
          rfl
      | cons v items =>
          have hr := readItems_renderItems level levels bound rest (v :: items) (by simp) (by omega)
          rw [renderItems] at hb hr ⊢
          have hl := length_bracketed "[" "]" level (renderAt (level + 1) v)
            (renderItems (level + 1) items)
          rw [toList_bracketed]
          exact readValue_list
            ((readItems_congr (skipBlanks_newline (level + 1) _) levels bound).trans (hr (by omega)))
  | .record fields, hd, hb => by
      obtain ⟨bound, rfl⟩ : ∃ b, bound = b + 1 := ⟨bound - 1, by omega⟩
      rw [Stored.depth] at hd
      obtain ⟨levels, rfl⟩ : ∃ l, levels = l + 1 := ⟨levels - 1, by omega⟩
      rw [renderAt] at hb ⊢
      rw [Stored.toData]
      cases fields with
      | nil =>
          rw [renderFields, toList_bracketed_nil, readValue]
          rfl
      | cons f fields =>
          have hr := readFields_renderFields level levels bound rest (f :: fields) (by simp) (by omega)
          rw [renderFields] at hb hr ⊢
          have hl := length_bracketed "\x7b" "\x7d" level
            (quote f.1 ++ ": " ++ renderAt (level + 1) f.2) (renderFields (level + 1) fields)
          rw [toList_bracketed]
          exact readValue_record
            ((readFields_congr (skipBlanks_newline (level + 1) _) levels bound).trans (hr (by omega)))

theorem readItems_renderItems (level levels bound : Nat) (rest : List Char) :
    (items : List Stored) → items ≠ [] → itemsDepth items ≤ levels →
    (joinWith ("," ++ newline (level + 1)) (renderItems (level + 1) items)).length + 1 < bound →
    readItems levels bound
        ((joinWith ("," ++ newline (level + 1)) (renderItems (level + 1) items)).toList ++
          ((newline level).toList ++ ']' :: rest)) =
      some (itemsData items, rest)
  | [], hn, _, _ => absurd rfl hn
  | [v], _, hd, hb => by
      obtain ⟨bound, rfl⟩ : ∃ b, bound = b + 1 := ⟨bound - 1, by omega⟩
      simp only [renderItems, joinWith, itemsDepth, itemsData] at hd hb ⊢
      refine readItems_last (readValue_renderAt (level + 1) levels bound _ v (by omega) (by omega)) ?_
      rw [skipBlanks_newline, skipBlanks_of_head (by decide)]
  | v :: w :: items, _, hd, hb => by
      obtain ⟨bound, rfl⟩ : ∃ b, bound = b + 1 := ⟨bound - 1, by omega⟩
      have ih := readItems_renderItems level levels bound rest (w :: items) (by simp)
      rw [itemsDepth] at hd
      rw [renderItems] at ih
      rw [renderItems, renderItems] at hb ⊢
      have hl := length_joinWith (level + 1) (renderAt (level + 1) v) (renderAt (level + 1) w)
        (renderItems (level + 1) items)
      rw [toList_joinWith, itemsData]
      refine readItems_cons (readValue_renderAt (level + 1) levels bound _ v (by omega) (by omega))
        (skipBlanks_of_head (by decide) _) ?_
      rw [readItems_congr (skipBlanks_newline (level + 1) _)]
      exact ih (by omega) (by omega)

theorem readFields_renderFields (level levels bound : Nat) (rest : List Char)
    (fields : List (String × Stored)) (hn : fields ≠ []) (hd : fieldsDepth fields ≤ levels)
    (hb : (joinWith ("," ++ newline (level + 1)) (renderFields (level + 1) fields)).length + 1 <
      bound) :
    readFields levels bound
        ((joinWith ("," ++ newline (level + 1)) (renderFields (level + 1) fields)).toList ++
          ((newline level).toList ++ '}' :: rest)) =
      some (fieldsData fields, rest) := by
  obtain ⟨bound, rfl⟩ : ∃ b, bound = b + 1 := ⟨bound - 1, by omega⟩
  cases fields with
  | nil => exact absurd rfl hn
  | cons f fields =>
      obtain ⟨k, v⟩ := f
      have hf := length_field k (renderAt (level + 1) v)
      have hv := fun r => readValue_renderAt (level + 1) levels bound r v
      rw [fieldsDepth] at hd
      cases fields with
      | nil =>
          simp only [renderFields, joinWith, fieldsData] at hb ⊢
          rw [toList_field]
          refine readFields_last (t := (newline level).toList ++ '}' :: rest) ?_ ?_
          · exact (readValue_congr (skipBlanks_space _) levels bound).trans
              (hv _ (by omega) (by omega))
          · rw [skipBlanks_newline, skipBlanks_of_head (by decide)]
      | cons g fields =>
          have ih := readFields_renderFields level levels bound rest (g :: fields) (by simp)
          rw [renderFields] at ih
          rw [renderFields, renderFields] at hb ⊢
          have hl := length_joinWith (level + 1) (quote k ++ ": " ++ renderAt (level + 1) v)
            (quote g.1 ++ ": " ++ renderAt (level + 1) g.2) (renderFields (level + 1) fields)
          rw [toList_joinWith, fieldsData, toList_field]
          exact readFields_cons
            ((readValue_congr (skipBlanks_space _) levels bound).trans (hv _ (by omega) (by omega)))
            (skipBlanks_of_head (by decide) _)
            ((readFields_congr (skipBlanks_newline (level + 1) _) levels bound).trans
              (ih (by omega) (by omega)))

end

/-- **What is written is read back.** -/
theorem parse_render {v : Stored} {levels : Nat} (hd : v.sorted.depth ≤ levels) :
    parse levels (render v).toList = some v.sorted.toData := by
  have hb : (renderAt 0 v.sorted).length < 2 * (render v).toList.length + 2 := by
    rw [render, String.length_toList]
    omega
  have h := readValue_renderAt 0 levels _ [] v.sorted hd hb
  rw [List.append_nil, ← render] at h
  rw [parse, h]
  rfl

end LuaAmbient.Json
