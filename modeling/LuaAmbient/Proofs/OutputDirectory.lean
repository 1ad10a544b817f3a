/-
**Output directories are lawful.**

The files of an output directory are those that stand below the place that it is reached at.  As long
as nothing but runs changes it, there are no links in it, and a run changes nothing else in the file
tree.

Main definitions:

* `LuaAmbient.OutputDirectory.IsProper` — the name of a file in the directory, not above it;
* `LuaAmbient.OutputDirectory.IsVacant` — nothing is in the directory, which may have to be made;
* `LuaAmbient.OutputDirectory.IsGrown` — nothing is in the directory but files of given names and the
  directories that they need.

Main results:

* `LuaAmbient.OutputDirectory.read?_eq` — what is read;
* `LuaAmbient.OutputDirectory.write_eq`, `LuaAmbient.OutputDirectory.replace_eq`,
  `LuaAmbient.OutputDirectory.remove_eq` — **what a step changes in the tree**;
* the instance of `LuaAmbient.LawfulOutputStore`.
-/

import LuaAmbient.Project
import LuaAmbient.Proofs.FileTree.Directory
import LuaAmbient.Proofs.Generation.Store
import LuaAmbient.Proofs.SourcePath

set_option relaxedAutoImplicit false
set_option autoImplicit false

namespace LuaAmbient.OutputDirectory

open FileTree

/-- The names on the way to an output file. -/
abbrev names (name : String) : List String :=
  Text.splitString '/' name

/-- The name of a file in the directory, not above it. -/
def IsProper (name : String) : Prop :=
  ∀ s ∈ names name, IsMemberName s

theorem names_ne_nil (name : String) : names name ≠ [] :=
  Text.splitString_ne_nil '/' name

theorem isProper_of_not_mem {name : String} (h : '/' ∉ name.toList) (hn : IsMemberName name) :
    IsProper name := by
  intro s hs
  rw [names, Text.splitString_of_not_mem h, List.mem_singleton] at hs
  exact hs ▸ hn

theorem isProper_index : IsProper Generation.indexName :=
  isProper_of_not_mem (by decide) (by decide)

theorem isProper_symbols : IsProper Generation.symbolsName :=
  isProper_of_not_mem (by decide) (by decide)

theorem isProper_cache : IsProper Generation.cacheName :=
  isProper_of_not_mem (by decide) (by decide)

section Steps

variable {out : OutputDirectory} {goal : Place} (h : PlainAt out.tree out.place goal)
  {name : String} (hn : IsProper name)

include h hn

theorem read?_eq :
    OutputStore.read? out name = (out.tree.get? (goal ++ names name)).bind content? :=
  h.read?_append hn

theorem get?_of_read? {content : Content} (hr : OutputStore.read? out name = some content) :
    out.tree.get? (goal ++ names name) = some (.file content) := by
  rw [read?_eq h hn] at hr
  obtain ⟨member, hm, hc⟩ := Option.bind_eq_some_iff.1 hr
  cases member with
  | file content' => rwa [← Option.some.inj hc]
  | link target => simp [content?] at hc
  | directory ms => simp [content?] at hc

theorem canWrite_iff : OutputStore.canWrite out name = true ↔ Room out.tree goal (names name) :=
  h.canWrite_iff hn

theorem canReplace_iff :
    OutputStore.canReplace out name = true ↔ Room out.tree goal (names name) :=
  h.canReplace_iff hn (names_ne_nil name)

theorem write_eq (hr : Room out.tree goal (names name)) (text : String) :
    OutputStore.write out name text =
      ⟨put (.file (.text text)) (goal ++ names name) out.tree, out.place⟩ :=
  congrArg (OutputDirectory.mk · out.place) (h.write_eq hn (names_ne_nil name) hr (.text text))

theorem replace_eq (hr : Room out.tree goal (names name)) (text : String) :
    OutputStore.replace out name text =
      ⟨put (.file (.text text)) (goal ++ names name) out.tree, out.place⟩ :=
  congrArg (OutputDirectory.mk · out.place) (h.replace_eq hn (names_ne_nil name) hr (.text text))

/-- There is room for a file that is there. -/
theorem room_of_read? {content : Content} (hr : OutputStore.read? out name = some content) :
    Room out.tree goal (names name) := by
  have hf := get?_of_read? h hn hr
  constructor
  · intro above later he hne
    rw [he, ← List.append_assoc] at hf
    exact .inr (isDirectoryAt_of_isSome hne (Option.isSome_iff_exists.2 ⟨_, hf⟩))
  · rw [isDirectoryAt, hf]

/-- The directory that a file stands in, and what is left when it is removed. -/
theorem remove_eq {content : Content} (hr : OutputStore.read? out name = some content) :
    ∃ init last ms, names name = init ++ [last] ∧
      out.tree.get? (goal ++ init) = some (.directory ms) ∧
      Keyed.get? ms last = some (.file content) ∧
      OutputStore.remove out name =
        ⟨put (.directory (Keyed.erase ms last)) (goal ++ init) out.tree, out.place⟩ := by
  obtain ⟨init, last, he⟩ := List.eq_nil_or_concat (names name) |>.resolve_left (names_ne_nil name)
  rw [List.concat_eq_append] at he
  have hf := get?_of_read? h hn hr
  rw [he, ← List.append_assoc] at hf
  obtain ⟨ms, hms, hlast⟩ := PlainAt.exists_members hf
  have hinit : ∀ n ∈ init, IsMemberName n := fun n hm => hn n (by rw [he]; simp [hm])
  refine ⟨init, last, ms, he, hms, hlast, ?_⟩
  have hu := h.unlink_eq hms hinit last
  rw [List.append_assoc, ← he] at hu
  exact congrArg (OutputDirectory.mk · out.place) hu

end Steps

/-! ### Vacant directories -/

/-- Nothing is in the directory, which may have to be made. -/
def IsVacant (out : OutputDirectory) : Prop :=
  ∃ goal, Leads out.tree true [] [] out.place goal ∧
    (∀ above, above <+: goal → out.tree.IsFree above) ∧
    ∀ name, out.tree.get? (goal ++ [name]) = none

theorem plainAt_of_vacant {out : OutputDirectory} {goal : Place}
    (hl : Leads out.tree true [] [] out.place goal)
    (hc : ∀ above, above <+: goal → out.tree.IsFree above)
    (hv : ∀ name, out.tree.get? (goal ++ [name]) = none) : PlainAt out.tree out.place goal := by
  refine ⟨hl, hc, ?_⟩
  rcases hc goal (List.prefix_refl _) with hnone | hdir
  · rw [subtree, hnone]
    exact .empty
  · obtain ⟨ms, hms⟩ := isDirectoryAt_iff.1 hdir
    rw [subtree_eq_of_get? hms]
    cases ms with
    | nil => exact .empty
    | cons m ms =>
        have hm := hv m.1
        rw [get?_append_of_eq_some hms, get?_cons] at hm
        simp [members, Keyed.get?_cons] at hm

/-! ### Grown directories -/

/-- Whatever stands below a place is a file of the given names or a directory on the way to one. -/
def OnlyWanted (wanted : String → Prop) (tree : FileTree) (goal : Place) : Prop :=
  ∀ rest, rest ≠ [] → (tree.get? (goal ++ rest)).isSome →
    ∃ name later, wanted name ∧ names name = rest ++ later ∧
      (tree.isDirectoryAt (goal ++ rest) = true ↔ later ≠ [])

/-- Nothing is in the directory but files of given names and the directories that they need. -/
def IsGrown (wanted : String → Prop) (out : OutputDirectory) : Prop :=
  ∃ goal, PlainAt out.tree out.place goal ∧ OnlyWanted wanted out.tree goal

/-- A file of the given names is put. -/
theorem isGrown_put {wanted : String → Prop} {out : OutputDirectory} {goal : Place}
    (h : PlainAt out.tree out.place goal) (hg : OnlyWanted wanted out.tree goal)
    {name : String} (hw : wanted name) (hn : IsProper name)
    (hr : Room out.tree goal (names name)) (content : Content) :
    IsGrown wanted ⟨put (.file content) (goal ++ names name) out.tree, out.place⟩ := by
  refine ⟨goal, h.put_file hr content hn (names_ne_nil name), fun rest hne hsome => ?_⟩
  dsimp only at hsome ⊢
  rcases get?_put_cases (.file content) out.tree (goal ++ names name) (goal ++ rest) with
    ⟨later, hl, hget⟩ | ⟨later, hl, hlater, hdir⟩ | ⟨hget, -⟩
  · have hnil : later = [] := by
      by_contra hlater
      rw [hget, get?_eq_none_of_members rfl hlater] at hsome
      simp at hsome
    subst hnil
    refine ⟨name, [], hw, by simpa using hl.symm, ?_⟩
    rw [isDirectoryAt, hget]
    simp
  · refine ⟨name, later, hw, ?_, by simp [hdir, hlater]⟩
    simpa [List.append_assoc] using hl
  · rw [hget] at hsome
    rw [isDirectoryAt, hget]
    exact hg rest hne hsome

/-- Files that stand side by side somewhere do not stand in each other's way. -/
theorem room_of_grown {wanted : String → Prop} {out model : OutputDirectory} {goal : Place}
    (h : PlainAt out.tree out.place goal) (hg : OnlyWanted wanted out.tree goal)
    {goal' : Place} (hm : PlainAt model.tree model.place goal')
    (hall : ∀ n, wanted n → IsProper n ∧ (OutputStore.read? model n).isSome) {name : String}
    (hw : wanted name) : Room out.tree goal (names name) := by
  have hmodel : ∀ n, wanted n → ∃ content,
      model.tree.get? (goal' ++ names n) = some (.file content) := by
    intro n hn
    obtain ⟨content, hc⟩ := Option.isSome_iff_exists.1 (hall n hn).2
    exact ⟨content, get?_of_read? hm (hall n hn).1 hc⟩
  -- none of the names goes on where another one ends, since both are files of the other directory
  have hside : ∀ {m n : String} {later : List String}, wanted m → wanted n → later ≠ [] →
      names n ≠ names m ++ later := by
    intro m n later hm' hn' hlater he
    obtain ⟨content, hfile⟩ := hmodel m hm'
    obtain ⟨content', hbelow⟩ := hmodel n hn'
    rw [he, ← List.append_assoc, get?_append_of_eq_some hfile,
      get?_eq_none_of_members rfl hlater] at hbelow
    simp at hbelow
  constructor
  · intro above later he hlater
    by_cases habove : above = []
    · rw [habove, List.append_nil]
      exact h.clear goal (List.prefix_refl _)
    · by_cases hsome : (out.tree.get? (goal ++ above)).isSome
      · obtain ⟨n, more, hn, hnames, hdir⟩ := hg above habove hsome
        refine .inr (hdir.2 ?_)
        rintro rfl
        rw [List.append_nil] at hnames
        exact hside hn hw hlater (hnames ▸ he)
      · exact .inl (by simpa using hsome)
  · by_contra hdir
    rw [Bool.not_eq_false] at hdir
    obtain ⟨ms, hms⟩ := isDirectoryAt_iff.1 hdir
    obtain ⟨n, more, hn, hnames, hiff⟩ :=
      hg (names name) (names_ne_nil name) (Option.isSome_iff_exists.2 ⟨_, hms⟩)
    exact hside hw hn (hiff.1 hdir) hnames

/-! ### The laws -/

section Laws

variable {out : OutputDirectory} {goal : Place} (h : PlainAt out.tree out.place goal)
  {name other : String} (hn : IsProper name) (ho : IsProper other)

include h hn ho

theorem read?_put (hr : Room out.tree goal (names name)) (content : Content) :
    OutputStore.read? (OutputDirectory.mk (put (.file content) (goal ++ names name) out.tree)
        out.place) other =
      if other = name then some content else OutputStore.read? out other := by
  rw [@read?_eq ⟨_, _⟩ _ (h.put_file hr content hn (names_ne_nil name)) _ ho, read?_eq h ho,
    PlainAt.content?_put hr]
  exact if_congr (Text.splitString_injective '/').eq_iff rfl rfl

omit hn in
theorem read?_erase {init : List String} {last : String} {content : Content}
    {ms : List (String × FileTree)} (he : names name = init ++ [last])
    (hms : out.tree.get? (goal ++ init) = some (.directory ms))
    (hf : Keyed.get? ms last = some (.file content)) :
    OutputStore.read? (OutputDirectory.mk (put (.directory (Keyed.erase ms last)) (goal ++ init)
        out.tree) out.place) other =
      if other = name then none else OutputStore.read? out other := by
  rw [@read?_eq ⟨_, _⟩ _ (h.erase hms hf) _ ho, read?_eq h ho, PlainAt.content?_erase hms hf,
    ← he]
  exact if_congr (Text.splitString_injective '/').eq_iff rfl rfl

end Laws

instance : LawfulOutputStore OutputDirectory where
  Sound out := ∃ goal, PlainAt out.tree out.place goal
  Proper := IsProper
  proper_index := isProper_index
  proper_symbols := isProper_symbols
  proper_cache := isProper_cache
  sound_write := by
    rintro out name text ⟨goal, h⟩ hn hc
    have hr := (canWrite_iff h hn).1 hc
    rw [write_eq h hn hr]
    exact ⟨goal, h.put_file hr _ hn (names_ne_nil name)⟩
  read?_write := by
    rintro out name text other ⟨goal, h⟩ hn hc ho
    have hr := (canWrite_iff h hn).1 hc
    rw [write_eq h hn hr]
    exact read?_put h hn ho hr _
  sound_replace := by
    rintro out name text ⟨goal, h⟩ hn hc
    have hr := (canReplace_iff h hn).1 hc
    rw [replace_eq h hn hr]
    exact ⟨goal, h.put_file hr _ hn (names_ne_nil name)⟩
  read?_replace := by
    rintro out name text other ⟨goal, h⟩ hn hc ho
    have hr := (canReplace_iff h hn).1 hc
    rw [replace_eq h hn hr]
    exact read?_put h hn ho hr _
  sound_remove := by
    rintro out name ⟨goal, h⟩ hn hc
    obtain ⟨content, hc⟩ := Option.isSome_iff_exists.1 hc
    obtain ⟨init, last, ms, -, hms, hf, he⟩ := remove_eq h hn hc
    rw [he]
    exact ⟨goal, h.erase hms hf⟩
  read?_remove := by
    rintro out name other ⟨goal, h⟩ hn hc ho
    obtain ⟨content, hc⟩ := Option.isSome_iff_exists.1 hc
    obtain ⟨init, last, ms, hnames, hms, hf, he⟩ := remove_eq h hn hc
    rw [he]
    exact read?_erase h ho hnames hms hf
  write_self := by
    rintro out name text ⟨goal, h⟩ hn hread
    rw [write_eq h hn (room_of_read? h hn hread), put_of_get?_eq_some (get?_of_read? h hn hread)]
  replace_self := by
    rintro out name text ⟨goal, h⟩ hn hread
    rw [replace_eq h hn (room_of_read? h hn hread), put_of_get?_eq_some (get?_of_read? h hn hread)]
  Vacant := IsVacant
  sound_of_vacant := by
    rintro out ⟨goal, hl, hc, hv⟩
    exact ⟨goal, plainAt_of_vacant hl hc hv⟩
  read?_of_vacant := by
    rintro out name ⟨goal, hl, hc, hv⟩ hn
    obtain ⟨first, rest, he⟩ := List.exists_cons_of_ne_nil (names_ne_nil name)
    rw [read?_eq (plainAt_of_vacant hl hc hv) hn, he, List.append_cons,
      get?_append_of_eq_none (hv first)]
    rfl
  Grown := IsGrown
  grown_of_vacant := by
    rintro wanted out ⟨goal, hl, hc, hv⟩
    refine ⟨goal, plainAt_of_vacant hl hc hv, fun rest hne hsome => ?_⟩
    obtain ⟨first, rest, rfl⟩ := List.exists_cons_of_ne_nil hne
    rw [List.append_cons, get?_append_of_eq_none (hv first)] at hsome
    simp at hsome
  grown_write := by
    rintro wanted out name text ⟨goal, h, hg⟩ hw hn hc
    have hr := (canWrite_iff h hn).1 hc
    rw [write_eq h hn hr]
    exact isGrown_put h hg hw hn hr _
  grown_replace := by
    rintro wanted out name text ⟨goal, h, hg⟩ hw hn hc
    have hr := (canReplace_iff h hn).1 hc
    rw [replace_eq h hn hr]
    exact isGrown_put h hg hw hn hr _
  canWrite_of_grown := by
    rintro wanted out model name ⟨goal, h, hg⟩ ⟨goal', hm⟩ hall hw
    exact (canWrite_iff h (hall name hw).1).2 (room_of_grown h hg hm hall hw)
  canReplace_of_grown := by
    rintro wanted out model name ⟨goal, h, hg⟩ ⟨goal', hm⟩ hall hw
    exact (canReplace_iff h (hall name hw).1).2 (room_of_grown h hg hm hall hw)

end LuaAmbient.OutputDirectory
