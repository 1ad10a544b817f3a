/-
**Table fields whose value is a type of its own.**

The key of a table field is in square brackets, and of several closing brackets in front of a colon
the last one ends the key.  So a value is found behind its own key exactly if no closing bracket in it
stands in front of a colon; otherwise the field is cut inside the value.  That it can then never be
read as key and value follows from the number of closing square brackets, which is the same in a text
and in the type that is read from it.

Main definitions:

* `LuaAmbient.DocType.brackets` — the number of closing square brackets of a type;
* `LuaAmbient.DocType.Shape.holdsKeyEnd` — whether a text has something that could end a key.

Main results:

* `LuaAmbient.DocType.count_of_parse` — **a type has the square brackets of its text**;
* `LuaAmbient.DocType.Shape.readField?_eq` — where a field is cut;
* `LuaAmbient.DocType.parse_field_iff` — **a field is read as its key and its value exactly if the
  value has nothing that could end a key**.
-/

import LuaAmbient.Proofs.DocType.Forms

set_option relaxedAutoImplicit false
set_option autoImplicit false

namespace LuaAmbient.DocType

open LuaAmbient.Text

/-! ### Square brackets -/

mutual

/-- The number of closing square brackets of a type. -/
def brackets : DocType → Nat
  | .plain text => text.toList.count ']'
  | .optional inner => brackets inner
  | .generic _ args => bracketsList args
  | .union options => bracketsList options
  | .function params result => bracketsParams params + brackets result
  | .table fields => bracketsFields fields
  | .array element => brackets element + 1
  | .tuple elements => bracketsList elements

/-- The number of closing square brackets of several types. -/
def bracketsList : List DocType → Nat
  | [] => 0
  | t :: ts => brackets t + bracketsList ts

/-- The number of closing square brackets of parameters. -/
def bracketsParams : List (Label × DocType) → Nat
  | [] => 0
  | (_, t) :: ps => brackets t + bracketsParams ps

/-- The number of closing square brackets of table fields, each of which has one of its own. -/
def bracketsFields : List (DocType × DocType) → Nat
  | [] => 0
  | (key, value) :: fs => brackets key + brackets value + 1 + bracketsFields fs

end

theorem count_eq_zero_of_isDottedPart {s : List Char} (h : ∀ c ∈ s, isDottedPart c = true) :
    s.count ']' = 0 :=
  List.count_eq_zero.2 fun hm => ne_of_isDottedPart (h _ hm) (by decide) rfl

theorem count_eq_zero_of_allBlank {s : List Char} (h : AllBlank s) : s.count ']' = 0 :=
  List.count_eq_zero.2 fun hm => absurd (h _ hm) (by decide)

theorem count_dropSuffix (s : List Char) :
    (dropSuffix s "::Type".toList).count ']' = s.count ']' := by
  rw [dropSuffix]
  split
  · next hend =>
    obtain ⟨t, rfl, ht⟩ := exists_of_endsWith hend
    rw [ht, List.count_append]
    rfl
  · rfl

/-- A plain name has the square brackets of its text. -/
theorem brackets_canonical (s : List Char) : brackets (canonical s) = s.count ']' := by
  have hname : ∀ name : String, String.ofList (dropSuffix s "::Type".toList) = name →
      name.toList.count ']' = s.count ']' := by
    rintro name rfl
    rw [String.toList_ofList, count_dropSuffix]
  rw [canonical]
  split
  · next hopen =>
    simp only [isOpenTable, Bool.or_eq_true, beq_iff_eq] at hopen
    rcases hopen with (h | h) | h
    · exact hname "table" h
    · exact hname "lightuserdata" h
    · exact hname "userdata" h
  · rw [brackets, primitive]
    split
    · next hnumber =>
      simp only [Bool.or_eq_true, beq_iff_eq] at hnumber
      rcases hnumber with (h | h) | h
      · exact hname "integer" h
      · exact hname "int" h
      · exact hname "float" h
    · split
      · next hnil => exact hname "nil" (beq_iff_eq.1 hnil)
      · exact hname _ rfl

/-! ### Square brackets of components -/

namespace Shape

theorem count_afterColon? {s v : List Char} (h : afterColon? s = some v) :
    s.count ']' = v.count ']' := by
  obtain ⟨b, b', hb, hb', rfl, -⟩ := afterColon?_eq_some_iff.1 h
  simp [List.count_append, count_eq_zero_of_allBlank hb, count_eq_zero_of_allBlank hb']

/-- The square brackets of a parameter are those of its type. -/
theorem count_readParam (s : List Char) :
    s.count ']' = ((readParam s).2.getD []).count ']' := by
  have hname : ∀ {name : List Char}, IsParamName name → name.count ']' = 0 :=
    fun h => List.count_eq_zero.2 (h.not_mem (by decide) (by decide))
  rcases readParam_cases s with ⟨rfl, hs⟩ | ⟨rest, u, rfl, hu, hs⟩ | ⟨hparam, hs⟩ |
    ⟨name, rest, u, hparam, rfl, hu, hs⟩ | hs
  · rw [hs]
    rfl
  · rw [hs, Option.getD_some, ← count_afterColon? hu]
    simp
  · rw [hs, hname hparam]
    rfl
  · rw [hs, Option.getD_some, List.count_append, hname hparam, count_afterColon? hu, Nat.zero_add]
  · rw [hs]
    rfl

theorem count_readField? {s k v : List Char} (h : readField? s = some (k, v)) :
    s.count ']' = k.count ']' + v.count ']' + 1 := by
  obtain ⟨rest, rfl, -, hv⟩ := readField?_cases h
  simp only [List.count_cons, List.count_append, count_afterColon? hv]
  simp
  omega

end Shape

/-! ### Square brackets of types -/

/-- The reader keeps the square brackets of a text. -/
def Counts (text : List Char) : Prop :=
  ∀ t, parse text = .ok t → text.count ']' = brackets t

theorem count_mapM {l : List (List Char)} {ts : List DocType} (hc : ∀ t ∈ l, Counts t)
    (h : l.mapM parse = .ok ts) : l.flatten.count ']' = bracketsList ts := by
  induction mapM_eq_ok_iff.1 h with
  | nil => rfl
  | @cons text t l ts ht hts ih =>
      rw [List.flatten_cons, List.count_append, hc text List.mem_cons_self t ht, bracketsList,
        ih (fun u hu => hc u (List.mem_cons_of_mem _ hu)) (mapM_eq_ok_iff.2 hts)]

theorem count_readOr {text : Option (List Char)} {default t : DocType}
    (hc : ∀ u ∈ text, Counts u) (hdefault : brackets default = 0)
    (h : Shape.readOr parse default text = .ok t) : (text.getD []).count ']' = brackets t := by
  cases text with
  | none =>
      obtain rfl := Except.ok.inj h
      exact hdefault.symm
  | some u => exact hc u rfl t h

theorem count_params {parts : List (List Char)} {ps : List (Label × DocType)}
    (hc : ∀ part ∈ parts, ∀ u ∈ (Shape.readParam part).2, Counts u)
    (h : (parts.map Shape.readParam).mapM (fun p =>
      Shape.readOr parse any p.2 >>= fun t => .ok (p.1, t)) = .ok ps) :
    parts.flatten.count ']' = bracketsParams ps := by
  rw [mapM_eq_ok_iff, List.forall₂_map_left_iff] at h
  induction h with
  | nil => rfl
  | @cons part p parts ps hp _ ih =>
      obtain ⟨t, ht, heq⟩ := bind_eq_ok hp
      obtain rfl := Except.ok.inj heq
      rw [List.flatten_cons, List.count_append, Shape.count_readParam part,
        count_readOr (hc part List.mem_cons_self) (by decide) ht, bracketsParams,
        ih fun q hq => hc q (List.mem_cons_of_mem _ hq)]

theorem count_fields {parts : List (List Char)} {fields : List (DocType × DocType)}
    (hc : ∀ part ∈ parts, ∀ kv ∈ Shape.readField? part, Counts kv.1 ∧ Counts kv.2)
    (h : (parts.map fun part => (part, Shape.readField? part)).mapM (Shape.readEntry parse) =
      .ok fields) : parts.flatten.count ']' = bracketsFields fields := by
  rw [mapM_eq_ok_iff, List.forall₂_map_left_iff] at h
  induction h with
  | nil => rfl
  | @cons part f parts fields hf _ ih =>
      rw [Shape.readEntry] at hf
      split at hf
      · next k v hkv =>
        obtain ⟨hk, hv⟩ := hc part List.mem_cons_self (k, v) hkv
        obtain ⟨key, hkey, hf⟩ := bind_eq_ok hf
        obtain ⟨value, hvalue, hf⟩ := bind_eq_ok hf
        obtain rfl := Except.ok.inj hf
        rw [List.flatten_cons, List.count_append, Shape.count_readField? hkv, hk key hkey,
          hv value hvalue, bracketsFields, ih fun q hq => hc q (List.mem_cons_of_mem _ hq)]
      · simp at hf

theorem count_eq_zero_of_isCloser {k : Char} (h : Nesting.isCloser k = true) : [k].count ']' = 0 := by
  simp only [Nesting.isCloser, Bool.or_eq_true, beq_iff_eq] at h
  rcases h with (rfl | rfl) | rfl <;> rfl

/-- A form keeps the square brackets if the components do. -/
theorem count_of_forms {s : List Char} {shape : Shape} (h : Shape.Forms s shape)
    (hc : ∀ t ∈ shape.components, Counts t) {t : DocType} (ht : Shape.build parse shape = .ok t) :
    s.count ']' = brackets t := by
  have hsplit : ∀ u : List Char, (Nesting.split (· == ',') u).flatten.count ']' = u.count ']' :=
    Nesting.count_flatten_split (by decide) (by decide)
  cases h with
  | plain =>
      obtain rfl := Except.ok.inj ht
      exact (brackets_canonical s).symm
  | optional u =>
      obtain ⟨v, hv, heq⟩ := bind_eq_ok ht
      obtain rfl := Except.ok.inj heq
      rw [List.count_append, hc u (by simp [Shape.components]) v hv]
      rfl
  | tuple hcut =>
      obtain ⟨vs, hvs, heq⟩ := bind_eq_ok ht
      obtain rfl := Except.ok.inj heq
      rw [brackets, ← count_mapM (l := Nesting.split (· == ',') s) hc hvs, hsplit]
  | array u =>
      obtain ⟨v, hv, heq⟩ := bind_eq_ok ht
      obtain rfl := Except.ok.inj heq
      rw [List.count_append, hc u (by simp [Shape.components]) v hv]
      rfl
  | group u hk =>
      rw [List.cons_append, List.count_cons_of_ne (by decide), List.count_append,
        count_eq_zero_of_isCloser hk, hc u (by simp [Shape.components]) t ht]
      rfl
  | table u hk =>
      rw [Shape.build_table] at ht
      obtain ⟨fields, hfields, heq⟩ := bind_eq_ok ht
      obtain rfl := Except.ok.inj heq
      rw [List.cons_append, List.count_cons_of_ne (by decide), List.count_append,
        count_eq_zero_of_isCloser hk, brackets, ← count_fields ?_ hfields, hsplit]
      · rfl
      · intro part hpart kv hkv
        have hmem : ∀ w ∈ [kv.1, kv.2], w ∈ (Shape.table ((Nesting.split (· == ',') u).map fun part =>
            (part, Shape.readField? part))).components := by
          intro w hw
          refine List.mem_flatMap.2 ⟨(part, Shape.readField? part), List.mem_map_of_mem hpart, ?_⟩
          rw [show Shape.readField? part = some (kv.1, kv.2) from hkv]
          exact hw
        exact ⟨hc _ (hmem _ (by simp)), hc _ (hmem _ (by simp))⟩
  | bare =>
      obtain rfl : DocType.function [] void = t := Except.ok.inj ht
      decide
  | @function b inside behind k result hb hk hresult =>
      rw [Shape.build_function] at ht
      obtain ⟨r, hr, ht⟩ := bind_eq_ok ht
      obtain ⟨ps, hps, heq⟩ := bind_eq_ok ht
      obtain rfl := Except.ok.inj heq
      have hcount : behind.count ']' = (result.getD []).count ']' := by
        rw [← count_strip (by decide)]
        rcases hresult with ⟨hnil, rfl⟩ | ⟨u, hu, rfl⟩
        · rw [hnil]
          rfl
        · rw [hu, List.count_cons_of_ne (by decide)]
          rfl
      have hr' := count_readOr (fun u hu => hc u (List.mem_append_left _ (Option.mem_toList.2 hu)))
        (by decide) hr
      have hps' := count_params (fun part hpart u hu => hc u (List.mem_append_right _
        (List.mem_filterMap.2 ⟨_, List.mem_map_of_mem hpart, hu⟩))) hps
      have hk' := count_eq_zero_of_isCloser hk
      rw [hsplit] at hps'
      rw [brackets, ← hps', ← hr', ← hcount]
      simp only [List.count_cons, List.count_append, count_eq_zero_of_allBlank hb] at hk' ⊢
      simp at hk' ⊢
      omega
  | @generic base b args hbase hb =>
      obtain ⟨vs, hvs, heq⟩ := bind_eq_ok ht
      obtain rfl := Except.ok.inj heq
      rw [brackets, ← count_mapM (l := Nesting.split (· == ',') args) hc hvs, hsplit]
      simp [List.count_append, count_eq_zero_of_isDottedPart hbase, count_eq_zero_of_allBlank hb]

/-- **A type has the square brackets of its text.** -/
theorem count_of_parse {text : List Char} {t : DocType} (h : parse text = .ok t) :
    text.count ']' = brackets t := by
  suffices hall : ∀ n, ∀ text : List Char, text.length = n → Counts text from hall _ text rfl t h
  intro n
  induction n using Nat.strongRecOn with
  | _ n ih =>
      intro text hn t ht
      rw [parse_eq] at ht
      obtain ⟨shape, hread, hbuild⟩ := bind_eq_ok ht
      have hc : ∀ u ∈ shape.components, Counts u := fun u hu =>
        ih u.length (hn ▸ Shape.length_lt_of_mem_components hread u hu) u rfl
      have hsplit : ∀ u : List Char, (Nesting.split (· == '|') u).flatten.count ']' = u.count ']' :=
        Nesting.count_flatten_split (by decide) (by decide)
      rw [← count_strip (by decide), ← hsplit]
      obtain ⟨-, ⟨rfl, -⟩ | ⟨s, hs, hforms⟩⟩ := Shape.read_cases hread
      · obtain ⟨vs, hvs, heq⟩ := bind_eq_ok hbuild
        obtain rfl := Except.ok.inj heq
        exact count_mapM hc hvs
      · rw [hs, List.flatten_singleton]
        exact count_of_forms hforms hc hbuild

/-! ### Ends of keys -/

namespace Shape

/-- Whether a closing square bracket stands in front of a colon with something behind it. -/
def holdsKeyEnd : List Char → Bool
  | [] => false
  | c :: cs => (c == ']' && (afterColon? cs).isSome) || holdsKeyEnd cs

theorem holdsKeyEnd_cons_of_ne {c : Char} (hc : c ≠ ']') (s : List Char) :
    holdsKeyEnd (c :: s) = holdsKeyEnd s := by
  simp [holdsKeyEnd, hc]

theorem holdsKeyEnd_append_left {b : List Char} (hb : AllBlank b) (s : List Char) :
    holdsKeyEnd (b ++ s) = holdsKeyEnd s := by
  induction b with
  | nil => rfl
  | cons c b ih =>
      have hc : c ≠ ']' := by
        rintro rfl
        exact absurd (hb ']' List.mem_cons_self) (by decide)
      rw [List.cons_append, holdsKeyEnd_cons_of_ne hc]
      exact ih fun d hd => hb d (List.mem_cons_of_mem _ hd)

theorem afterColon?_eq_none {s : List Char} (h : (stripLeft s).head? ≠ some ':') :
    afterColon? s = none := by
  rw [afterColon?]
  split
  · next rest hs => exact absurd (by rw [hs]; rfl) h
  · rfl

/-- Whether something is behind a colon does not depend on blanks at the end. -/
theorem isSome_afterColon?_append {b : List Char} (hb : AllBlank b) (hline : '\n' ∉ b)
    (s : List Char) : (afterColon? (s ++ b)).isSome = (afterColon? s).isSome := by
  by_cases hs : AllBlank s
  · rw [afterColon?_eq_none (by simp [stripLeft_eq_nil_iff.2 (hs.append hb)]),
      afterColon?_eq_none (by simp [stripLeft_eq_nil_iff.2 hs])]
  · have happend := stripLeft_append_right hs b
    obtain ⟨c, r, hr⟩ := List.exists_cons_of_ne_nil fun he => hs (stripLeft_eq_nil_iff.1 he)
    by_cases hc : c = ':'
    · subst hc
      rw [afterColon?, afterColon?, happend, hr, List.cons_append]
      by_cases hr' : AllBlank r
      · simp [stripLeft_eq_nil_iff.2 hr', stripLeft_eq_nil_iff.2 (hr'.append hb)]
      · have hne : stripLeft r ≠ [] := fun he => hr' (stripLeft_eq_nil_iff.1 he)
        simp only [stripLeft_append_right hr']
        by_cases hbreak : '\n' ∈ stripLeft r
        · simp [hbreak]
        · simp [hbreak, hline, hne]
    · rw [afterColon?_eq_none (by simp [happend, hr, hc]), afterColon?_eq_none (by simp [hr, hc])]

theorem holdsKeyEnd_append_right {b : List Char} (hb : AllBlank b) (hline : '\n' ∉ b)
    (s : List Char) : holdsKeyEnd (s ++ b) = holdsKeyEnd s := by
  induction s with
  | nil => simpa [holdsKeyEnd] using holdsKeyEnd_append_left hb []
  | cons c s ih => rw [List.cons_append, holdsKeyEnd, holdsKeyEnd, ih, isSome_afterColon?_append hb hline]

theorem holdsKeyEnd_strip {s : List Char} (hline : '\n' ∉ s) :
    holdsKeyEnd (strip s) = holdsKeyEnd s := by
  obtain ⟨a, b, ha, hb, hs, -⟩ := exists_strip s
  have hb' : '\n' ∉ b := fun hm => hline (by rw [hs]; exact List.mem_append_right _ hm)
  conv_rhs => rw [hs]
  rw [holdsKeyEnd_append_right hb hb', holdsKeyEnd_append_left ha]

/-- Without an end of a key, no field is found. -/
theorem splitField?_eq_none {seen s : List Char} (h : holdsKeyEnd s = false) :
    splitField? seen s = none := by
  induction s generalizing seen with
  | nil => rfl
  | cons c s ih =>
      rw [holdsKeyEnd, Bool.or_eq_false_iff] at h
      rw [splitField?, ih h.2]
      by_cases hc : (c == ']' && !seen.isEmpty) = true
      · have hc' := (Bool.and_eq_true _ _ ▸ hc).1
        rw [hc', Bool.true_and, Option.isSome_eq_false_iff, Option.isNone_iff_eq_none] at h
        simp [h.1]
      · simp [hc]

/-- With an end of a key, some field is found. -/
theorem isSome_splitField? {seen s : List Char} (hseen : seen ≠ []) (hline : '\n' ∉ s)
    (h : holdsKeyEnd s = true) : (splitField? seen s).isSome = true := by
  induction s generalizing seen with
  | nil => simp [holdsKeyEnd] at h
  | cons c s ih =>
      have hc : (c == '\n') = false := by
        rw [beq_eq_false_iff_ne]
        rintro rfl
        exact hline List.mem_cons_self
      rw [splitField?, hc, if_neg (by decide)]
      cases hrest : splitField? (c :: seen) s with
      | some r => rfl
      | none =>
          have hno : holdsKeyEnd s = false := by
            by_contra hno
            have hsome := ih (List.cons_ne_nil c seen) (fun hm => hline (List.mem_cons_of_mem _ hm))
              (by simpa using hno)
            simp [hrest] at hsome
          rw [holdsKeyEnd, hno, Bool.or_false, Bool.and_eq_true] at h
          simp [h.1, hseen, h.2]

/-- The part of the key in front of a field that is found. -/
theorem splitField?_append {seen x s : List Char} (hline : '\n' ∉ x) {r : List Char × List Char}
    (h : splitField? (x.reverse ++ seen) s = some r) : splitField? seen (x ++ s) = some r := by
  induction x generalizing seen with
  | nil => exact h
  | cons c x ih =>
      have hc : (c == '\n') = false := by
        rw [beq_eq_false_iff_ne]
        rintro rfl
        exact hline List.mem_cons_self
      have hrest : splitField? (c :: seen) (x ++ s) = some r :=
        ih (fun hm => hline (List.mem_cons_of_mem _ hm)) (by simpa using h)
      rw [List.cons_append, splitField?, hc, if_neg (by decide), hrest]

/-- A field is cut behind its key, unless its value has something that could end a key. -/
theorem readField?_eq {k rest v : List Char} (hk : k ≠ []) (hline : '\n' ∉ k)
    (hv : afterColon? rest = some v) (h : holdsKeyEnd rest = false) :
    readField? ('[' :: (k ++ ']' :: rest)) = some (k, v) := by
  refine splitField?_append hline ?_
  rw [splitField?, splitField?_eq_none h, hv, List.append_nil]
  simp [hk]

/-- A value that has something that could end a key is cut. -/
theorem readField?_of_holdsKeyEnd {k rest : List Char} (hline : '\n' ∉ k) (hline' : '\n' ∉ rest)
    (h : holdsKeyEnd rest = true) : ∃ k' x rest' v,
      readField? ('[' :: (k ++ ']' :: rest)) = some (k', v) ∧ rest = x ++ ']' :: rest' ∧
        afterColon? rest' = some v := by
  obtain ⟨⟨k', v⟩, hkv⟩ := Option.isSome_iff_exists.1
    (isSome_splitField? (List.cons_ne_nil ']' k.reverse) hline' h)
  obtain ⟨x, rest', hrest, -, -, hv⟩ := splitField?_cases hkv
  refine ⟨k', x, rest', v, splitField?_append hline ?_, hrest, hv⟩
  rw [splitField?, List.append_nil, hkv]
  rfl

end Shape

/-! ### Tables of one field -/

theorem split_of_uncut {sep : Char → Bool} {s : List Char} (h : Nesting.Uncut sep s)
    (hne : strip s ≠ []) : Nesting.split sep s = [strip s] := by
  rw [Nesting.split, Nesting.pieces, Nesting.piecesFrom_of_uncut h]
  simp [hne]

/-- A table of one field, with the text of its field stripped. -/
theorem read_field {k v : List Char} {key value : DocType} (hk : Line k key) (hv : Line v value)
    (hk' : Nesting.Uncut (· == ',') k) (hv' : Nesting.Uncut (· == ',') v) :
    ∃ a, AllBlank a ∧ '\n' ∉ a ∧
      Shape.read (['{', '['] ++ k ++ "]: ".toList ++ v ++ ['}']) =
        .ok (.table [('[' :: (k ++ ']' :: ':' :: ' ' :: (a ++ strip v)),
          Shape.readField? ('[' :: (k ++ ']' :: ':' :: ' ' :: (a ++ strip v))))]) := by
  obtain ⟨a, b, ha, hb, hs, htrim⟩ := exists_strip v
  have hline : '\n' ∉ a := fun hm => hv.unbroken (by rw [hs]; simp [hm])
  have hbk := balanced_of_parse hk.parse_eq
  have hbv := balanced_of_parse hv.parse_eq
  have hopen : Nesting.balanced ['['] = true := by decide
  have hkey : Nesting.balanced (['['] ++ k ++ [']', ':', ' ']) = true :=
    Nesting.balanced_append (Nesting.balanced_append hopen hbk) (by decide)
  have hbal : Nesting.balanced (['['] ++ k ++ [']', ':', ' '] ++ v) = true :=
    Nesting.balanced_append hkey hbv
  have huncut : Nesting.Uncut (· == ',') (['['] ++ k ++ [']', ':', ' '] ++ v) := by
    rw [Nesting.uncut_append hkey, Nesting.uncut_append (Nesting.balanced_append hopen hbk),
      Nesting.uncut_append hopen]
    exact ⟨⟨⟨Nesting.uncutFrom_of_forall (by decide) 0, hk'⟩,
      Nesting.uncutFrom_of_forall (by decide) 0⟩, hv'⟩
  have hfield : strip (['['] ++ k ++ [']', ':', ' '] ++ v) =
      '[' :: (k ++ ']' :: ':' :: ' ' :: (a ++ strip v)) := by
    have hends : Trimmed (['['] ++ (k ++ ']' :: ':' :: ' ' :: a) ++ strip v) :=
      (trimmed_of_forall (by decide)).around htrim (by simp) (strip_ne_nil_of_parse hv.parse_eq)
    have htext : ['['] ++ k ++ [']', ':', ' '] ++ v =
        ['['] ++ (k ++ ']' :: ':' :: ' ' :: a) ++ strip v ++ b := by
      conv_lhs => rw [hs]
      simp
    rw [htext, strip_append_right _ hb, strip_eq_self hends]
    simp
  have hitem : Nesting.Item (· == '|') ('{' :: (['['] ++ k ++ [']', ':', ' '] ++ v) ++ ['}']) :=
    Nesting.item_enclosed rfl rfl rfl hbal
  have htext : ['{', '['] ++ k ++ "]: ".toList ++ v ++ ['}'] =
      '{' :: (['['] ++ k ++ [']', ':', ' '] ++ v) ++ ['}'] := by
    simp
  refine ⟨a, ha, hline, ?_⟩
  rw [htext, Shape.read_of_item hitem, Shape.readOption_table hbal,
    split_of_uncut huncut (by rw [hfield]; simp), hfield]
  rfl

/-- **A field is read as its key and its value exactly if the value has nothing that could end a
key.** -/
theorem parse_field_iff {k v : List Char} {key value : DocType} (hk : Line k key)
    (hv : Line v value) (hk' : Nesting.Uncut (· == ',') k) (hv' : Nesting.Uncut (· == ',') v) :
    parse (['{', '['] ++ k ++ "]: ".toList ++ v ++ ['}']) = .ok (.table [(key, value)]) ↔
      Shape.holdsKeyEnd v = false := by
  obtain ⟨a, ha, hline, hread⟩ := read_field hk hv hk' hv'
  have hends : Shape.holdsKeyEnd (':' :: ' ' :: (a ++ strip v)) = Shape.holdsKeyEnd v := by
    rw [Shape.holdsKeyEnd_cons_of_ne (by decide), Shape.holdsKeyEnd_cons_of_ne (by decide),
      Shape.holdsKeyEnd_append_left ha, Shape.holdsKeyEnd_strip hv.unbroken]
  have hcolon : Shape.afterColon? (':' :: ' ' :: (a ++ strip v)) = some (strip v) :=
    Shape.afterColon?_eq_some_iff.2 ⟨[], ' ' :: a, allBlank_nil, allBlank_space.append ha, rfl,
      strip_ne_nil_of_parse hv.parse_eq, fun hm => hv.unbroken (mem_of_mem_strip hm),
      (trimmed_strip v).head⟩
  rw [parse_of_read hread, Shape.build_table]
  constructor
  · intro h
    by_contra hno
    rw [Bool.not_eq_false, ← hends] at hno
    -- the value that is read has fewer square brackets than the one that stands there
    have hbreak : '\n' ∉ ':' :: ' ' :: (a ++ strip v) := by
      have hstrip : '\n' ∉ strip v := fun hm => hv.unbroken (mem_of_mem_strip hm)
      simp [hline, hstrip]
    obtain ⟨k', x, rest, w, hfield, hrest, hw⟩ :=
      Shape.readField?_of_holdsKeyEnd hk.unbroken hbreak hno
    have hvalue : parse w = .ok value := by
      rw [hfield] at h
      obtain ⟨fields, hfields, heq⟩ := bind_eq_ok h
      obtain rfl := DocType.table.inj (Except.ok.inj heq)
      obtain ⟨hentry, -⟩ := List.forall₂_cons.1 (mapM_eq_ok_iff.1 hfields)
      obtain ⟨key', -, hentry⟩ := bind_eq_ok hentry
      obtain ⟨value', hvalue, hentry⟩ := bind_eq_ok hentry
      rw [hvalue, (Prod.mk.inj (Except.ok.inj hentry)).2]
    have hcount := congrArg (List.count ']') hrest
    rw [Shape.count_afterColon? hcolon, count_strip (by decide), List.count_append,
      List.count_cons_self, Shape.count_afterColon? hw, count_of_parse hvalue,
      count_of_parse hv.parse_eq] at hcount
    omega
  · intro h
    have hne : k ≠ [] := by
      rintro rfl
      exact strip_ne_nil_of_parse hk.parse_eq rfl
    rw [Shape.readField?_eq hne hk.unbroken hcolon (hends.trans h)]
    simp only [List.mapM_cons, List.mapM_nil, Shape.readEntry, hk.parse_eq, parse_strip, hv.parse_eq]
    rfl

/-- A list as the value of a field. -/
theorem parse_field_of_array :
    parse "\x7b[string]: number[]\x7d".toList =
      .ok (.table [(.plain "string", .array (.plain "number"))]) := by
  have hkey : Line "string".toList (.plain "string") := ⟨by decide +kernel, by decide⟩
  have hvalue : Line "number[]".toList (.array (.plain "number")) := ⟨by decide +kernel, by decide⟩
  have huncut : ∀ s : List Char, (∀ c ∈ s, (c == ',') = false) → Nesting.Uncut (· == ',') s :=
    fun s hs => Nesting.uncutFrom_of_forall hs 0
  have htext : "\x7b[string]: number[]\x7d".toList =
      ['{', '['] ++ "string".toList ++ "]: ".toList ++ "number[]".toList ++ ['}'] := by decide
  rw [htext]
  exact (parse_field_iff hkey hvalue (huncut _ (by decide)) (huncut _ (by decide))).2 (by decide)

/-- A table as the value of a field is cut. -/
example : parse "\x7b[string]: \x7b[string]: number\x7d\x7d".toList =
    .error (.unterminated "string]: \x7b[string") := by decide +kernel

end LuaAmbient.DocType
