/-
Files in a directory.

A directory is named by a place, and the way to it may go through links.  As long as there are none
in the directory itself, its files are those that stand below the place that the way leads to, and
they are written, replaced and removed there.

Main definitions:

* `LuaAmbient.FileTree.PlainAt` — a directory without links, or the place where one can be made;
* `LuaAmbient.FileTree.Room` — nothing stands in the way of a file.

Main results:

* `LuaAmbient.FileTree.PlainAt.read?_append` — what is read;
* `LuaAmbient.FileTree.PlainAt.canWrite_iff`, `LuaAmbient.FileTree.PlainAt.canReplace_iff` — **a file
  can be written or replaced if there is room for it**;
* `LuaAmbient.FileTree.PlainAt.write_eq`, `LuaAmbient.FileTree.PlainAt.replace_eq`,
  `LuaAmbient.FileTree.PlainAt.unlink_eq` — **what changes**.
-/

import LuaAmbient.Proofs.FileTree.Walk

set_option relaxedAutoImplicit false
set_option autoImplicit false

namespace LuaAmbient.FileTree

/-- Nothing or a directory stands at a place. -/
def IsFree (tree : FileTree) (place : Place) : Prop :=
  tree.get? place = none ∨ tree.isDirectoryAt place = true

/-- Nothing but directories stands on the way to a place. -/
def Clear (tree : FileTree) (place : Place) : Prop :=
  ∀ above rest, place = above ++ rest → rest ≠ [] → tree.IsFree above

theorem IsFree.ne_link {tree : FileTree} {place : Place} (h : tree.IsFree place) (target : String) :
    tree.get? place ≠ some (.link target) := by
  intro hl
  rcases h with h | h
  · simp [h] at hl
  · obtain ⟨ms, hms⟩ := isDirectoryAt_iff.1 h
    simp [hms] at hl

theorem Clear.append {tree : FileTree} {place rest : Place}
    (hp : ∀ above, above <+: place → tree.IsFree above)
    (hr : ∀ above later, rest = above ++ later → later ≠ [] → tree.IsFree (place ++ above)) :
    tree.Clear (place ++ rest) := by
  intro above later he hne
  rcases List.append_eq_append_iff.1 he with ⟨more, rfl, rfl⟩ | ⟨more, rfl, rfl⟩
  · exact hr more later rfl hne
  · exact hp above (List.prefix_append _ _)

theorem Clear.subtree {tree : FileTree} {place rest : Place} (h : tree.Clear (place ++ rest)) :
    (tree.subtree place).Clear rest := by
  rintro above later rfl hne
  have hfree := h (place ++ above) later (by rw [List.append_assoc]) hne
  by_cases ha : above = []
  · subst ha
    rw [List.append_nil] at hfree
    refine .inr (isDirectoryAt_iff.2 ?_)
    rcases hfree with hnone | hdir
    · exact ⟨[], by rw [get?_nil, FileTree.subtree, hnone]; rfl⟩
    · obtain ⟨ms, hms⟩ := isDirectoryAt_iff.1 hdir
      exact ⟨ms, by rw [get?_nil, subtree_eq_of_get? hms]⟩
  · rw [IsFree, isDirectoryAt, get?_subtree tree place ha]
    exact hfree

/-! ### Changes on a clear way -/

section Put

variable {tree new : FileTree} {place : Place}

/-- What stands where after a change, by how the places lie to each other. -/
theorem get?_put_cases (new tree : FileTree) (place other : Place) :
    (∃ rest, other = place ++ rest ∧ (put new place tree).get? other = new.get? rest) ∨
      (∃ rest, place = other ++ rest ∧ rest ≠ [] ∧ (put new place tree).isDirectoryAt other = true) ∨
      ((put new place tree).get? other = tree.get? other ∧ ¬ place <+: other ∧ ¬ other <+: place) := by
  by_cases h : place <+: other
  · obtain ⟨rest, rfl⟩ := h
    exact .inl ⟨rest, rfl, get?_put_append new tree place rest⟩
  · by_cases h' : other <+: place
    · obtain ⟨rest, rfl⟩ := h'
      have hne : rest ≠ [] := by
        rintro rfl
        exact h (by simp)
      refine .inr (.inl ⟨rest, rfl, hne, ?_⟩)
      obtain ⟨name, rest, rfl⟩ := List.exists_cons_of_ne_nil hne
      exact isDirectoryAt_iff.2 ⟨_, get?_put_above new tree other (name :: rest)⟩
    · exact .inr (.inr ⟨get?_put_apart new tree h h', h, h'⟩)

/-- A change keeps links and directories if it does so below its place and the way is clear. -/
theorem Keeps.put (hc : tree.Clear place)
    (hl : ∀ rest target, new.get? rest = some (.link target) ↔
      tree.get? (place ++ rest) = some (.link target))
    (hd : ∀ rest, tree.isDirectoryAt (place ++ rest) = true → new.isDirectoryAt rest = true) :
    Keeps tree (put new place tree) := by
  constructor
  · intro other target
    rcases get?_put_cases new tree place other with ⟨rest, rfl, h⟩ | ⟨rest, rfl, hne, h⟩ | ⟨h, -⟩
    · rw [h]
      exact hl rest target
    · obtain ⟨ms, hms⟩ := isDirectoryAt_iff.1 h
      simp [hms, (hc other rest rfl hne).ne_link target]
    · rw [h]
  · intro other ho
    rcases get?_put_cases new tree place other with ⟨rest, rfl, h⟩ | ⟨rest, rfl, hne, h⟩ | ⟨h, -⟩
    · rw [isDirectoryAt, h]
      exact hd rest ho
    · exact h
    · rw [isDirectoryAt, h]
      exact ho

/-- A file is put where no directory and no link stands. -/
theorem Keeps.put_file (hc : tree.Clear place) (hd : tree.isDirectoryAt place = false)
    (hl : ∀ target, tree.get? place ≠ some (.link target)) (content : Content) :
    Keeps tree (FileTree.put (.file content) place tree) := by
  refine .put hc (fun rest target => ?_) fun rest h => ?_
  · by_cases hne : rest = []
    · subst hne
      simpa using hl target
    · have hnone : (FileTree.file content).get? rest = none := get?_eq_none_of_members rfl hne
      rw [hnone]
      refine ⟨fun h => by simp at h, fun h => ?_⟩
      rw [isDirectoryAt_of_isSome hne (h ▸ rfl)] at hd
      exact absurd hd (by simp)
  · rw [isDirectoryAt_of_append h] at hd
    exact absurd hd (by simp)

/-- A directory is made where nothing stands. -/
theorem Keeps.put_directory (hc : tree.Clear place) (hn : tree.get? place = none) :
    Keeps tree (FileTree.put (.directory []) place tree) := by
  refine .put hc (fun rest target => ?_) fun rest h => ?_
  · rw [get?_append_of_eq_none hn]
    cases rest with
    | nil => simp
    | cons name rest =>
        rw [get?_eq_none_of_members rfl (List.cons_ne_nil name rest)]
  · obtain ⟨ms, hms⟩ := isDirectoryAt_iff.1 h
    simp [get?_append_of_eq_none hn] at hms

end Put

/-! ### Directories without links -/

/-- The way to a place leads to a directory without links, or to where one can be made. -/
structure PlainAt (tree : FileTree) (place goal : Place) : Prop where
  leads : Leads tree true [] [] place goal
  clear : ∀ above, above <+: goal → tree.IsFree above
  plain : Plain (tree.subtree goal)

/-- The content of a file. -/
def content? : FileTree → Option Content
  | .file content => some content
  | _ => none

theorem read?_eq_bind (tree : FileTree) (place : Place) :
    tree.read? place = (tree.find? place).bind content? := by
  rw [read?]
  rcases tree.find? place with _ | _ | _ | _ <;> rfl

theorem isDirectory_eq {tree : FileTree} {place goal : Place}
    (h : Leads tree true [] [] place goal) : tree.isDirectory place = tree.isDirectoryAt goal := by
  rw [isDirectory, find?, reach?_eq_some_iff.2 h, isDirectoryAt]
  rfl

theorem entryPlace?_concat {tree : FileTree} {place goal : Place}
    (h : Leads tree true [] [] place goal) (name : String) :
    tree.entryPlace? (place ++ [name]) = some (goal ++ [name]) := by
  rw [entryPlace?, List.dropLast_concat, List.getLast?_concat, reach?_eq_some_iff.2 h]

/-- Nothing stands in the way of a file in a directory. -/
structure Room (tree : FileTree) (goal : Place) (names : List String) : Prop where
  way : ∀ above later, names = above ++ later → later ≠ [] → tree.IsFree (goal ++ above)
  here : tree.isDirectoryAt (goal ++ names) = false

/-! ### The directories on the way -/

/-- The tree, or the tree with one more directory on the way to a place. -/
def Along (tree : FileTree) (place : Place) (made : FileTree) : Prop :=
  made = tree ∨ ∃ above rest, place = above ++ rest ∧ rest ≠ [] ∧ tree.get? above = none ∧
    made = put (.directory []) above tree

section Along

variable {tree made : FileTree} {place : Place}

theorem Along.keeps (h : Along tree place made) (hc : tree.Clear place) : Keeps tree made := by
  rcases h with rfl | ⟨above, rest, rfl, hne, hnone, rfl⟩
  · exact .refl made
  · refine .put_directory (fun above' rest' he hne' => ?_) hnone
    exact hc above' (rest' ++ rest) (by rw [he, List.append_assoc]) (by simp [hne'])

/-- The directory on the way is not needed for what is put at the place. -/
theorem Along.put_eq (h : Along tree place made) (new : FileTree) :
    put new place made = put new place tree := by
  rcases h with rfl | ⟨above, rest, rfl, -, hnone, rfl⟩
  · rfl
  · exact put_append_put_directory new hnone rest

/-- To make one directory on the way leaves a tree with one more directory on the way. -/
theorem Along.makeDirectory (h : Along tree place made) (hc : tree.Clear place)
    {names later : List String} {middle : Place} (hw : Leads tree true [] [] names middle)
    (hl : Leads tree true [] middle later place) (hne : later.filter (fun n => !isIdle n) ≠ []) :
    Along tree place (made.makeDirectory names) := by
  have hk := h.keeps hc
  rw [FileTree.makeDirectory, isDirectory_eq (hw.of_keeps hk)]
  split
  · exact h
  · next hdir =>
    have hfree : tree.isDirectoryAt middle ≠ true := fun hd => hdir (hk.directory _ hd)
    have hplace := hl.start_cases.resolve_left hfree
    have hnone : tree.get? middle = none := (hc middle _ hplace hne).resolve_right hfree
    rw [putReached, reach?_eq_some_iff.2 (hw.of_keeps hk)]
    refine .inr ⟨middle, _, hplace, hne, hnone, ?_⟩
    rcases h with rfl | ⟨above, rest, habove, -, hnone', rfl⟩
    · rfl
    · -- the directory that was made before is on the way to the new one
      rcases List.append_eq_append_iff.1 (hplace.symm.trans habove) with
        ⟨more, rfl, -⟩ | ⟨more, rfl, -⟩
      · have hmade := isDirectoryAt_iff.2 ⟨[], get?_put_self (.directory []) tree (middle ++ more)⟩
        exact absurd (isDirectoryAt_of_append hmade) hdir
      · exact put_append_put_directory _ hnone' more

end Along

/-- Whether the way is open at a place that a way leads to. -/
theorem isOpenAt_iff {tree : FileTree} {names : List String} {middle : Place}
    (hw : Leads tree true [] [] names middle) :
    (!tree.exists? names || tree.isDirectory names) = true ↔ tree.IsFree middle := by
  rw [isDirectory_eq hw, exists?, find?, reach?_eq_some_iff.2 hw, IsFree, Bool.or_eq_true]
  simp

namespace PlainAt

variable {tree : FileTree} {place goal : Place} (h : PlainAt tree place goal)

include h

theorem ne_link (rest : Place) (target : String) :
    tree.get? (goal ++ rest) ≠ some (.link target) := by
  by_cases hr : rest = []
  · rw [hr, List.append_nil]
    exact (h.clear goal (List.prefix_refl _)).ne_link target
  · rw [← get?_subtree tree goal hr]
    exact h.plain.ne_link rest target

theorem plain_get? {rest : Place} {member : FileTree}
    (hm : tree.get? (goal ++ rest) = some member) : Plain member := by
  by_cases hr : rest = []
  · rw [hr, List.append_nil] at hm
    exact subtree_eq_of_get? hm ▸ h.plain
  · rw [← get?_subtree tree goal hr] at hm
    exact (h.plain.get? hm).1

theorem clear_append {names : List String} (hr : Room tree goal names) :
    tree.Clear (goal ++ names) :=
  .append h.clear hr.way

section Names

variable {names : List String} (hn : ∀ n ∈ names, IsMemberName n)

include hn

theorem leads_append : Leads tree true [] [] (place ++ names) (goal ++ names) :=
  leads_append_iff.2 ⟨goal, h.leads, leads_straight hn h.ne_link []⟩

theorem find?_append : tree.find? (place ++ names) = tree.get? (goal ++ names) := by
  rw [find?, reach?_eq_some_iff.2 (h.leads_append hn)]
  rfl

theorem read?_append : tree.read? (place ++ names) = (tree.get? (goal ++ names)).bind content? := by
  rw [read?_eq_bind, h.find?_append hn]

theorem isDirectory_append :
    tree.isDirectory (place ++ names) = tree.isDirectoryAt (goal ++ names) :=
  isDirectory_eq (h.leads_append hn)

theorem entryPlace?_append (hne : names ≠ []) :
    tree.entryPlace? (place ++ names) = some (goal ++ names) := by
  obtain ⟨init, last, rfl⟩ := List.eq_nil_or_concat names |>.resolve_left hne
  rw [List.concat_eq_append, ← List.append_assoc, ← List.append_assoc]
  exact entryPlace?_concat (h.leads_append fun n hm => hn n (by simp [hm])) last

end Names

/-- What stands on the way to the directory is free. -/
theorem isFree_of_leads {above : Place} {names : List String}
    (ha : Leads tree true [] above names goal) : tree.IsFree above := by
  rcases ha.start_cases with hdir | hgoal
  · exact .inr hdir
  · exact h.clear above ⟨_, hgoal.symm⟩

/-- The way to a file is open if it is so in the directory. -/
theorem isOpen_iff {names : List String} (hn : ∀ n ∈ names, IsMemberName n) :
    tree.isOpen (place ++ names) = true ↔
      ∀ above later, names = above ++ later → later ≠ [] → tree.IsFree (goal ++ above) := by
  rw [isOpen, List.all_eq_true]
  constructor
  · rintro hall above later rfl hne
    have hi := hall (place.length + above.length) (by
      have := List.length_pos_of_ne_nil hne
      simp only [List.mem_range, List.length_append]
      omega)
    rw [← List.append_assoc, ← List.length_append, List.take_left] at hi
    exact (isOpenAt_iff (h.leads_append fun n hm => hn n (by simp [hm]))).1 hi
  · intro hway i hi
    rw [List.mem_range, List.length_append] at hi
    -- either part of the way to the directory, or the whole of it and part of the names
    by_cases hle : i ≤ place.length
    · have hsplit := h.leads
      rw [← List.take_append_drop i place] at hsplit
      obtain ⟨middle, h₁, h₂⟩ := leads_append_iff.1 hsplit
      rw [List.take_append_of_le_length hle]
      exact (isOpenAt_iff h₁).2 (h.isFree_of_leads h₂)
    · have hlater : names.drop (i - place.length) ≠ [] := by
        rw [Ne, List.drop_eq_nil_iff]
        omega
      have hfree := hway _ _ (List.take_append_drop (i - place.length) names).symm hlater
      rw [List.take_append, List.take_of_length_le (by omega)]
      exact (isOpenAt_iff (h.leads_append fun n hm => hn n (List.mem_of_mem_take hm))).2 hfree

section Names

variable {names : List String} (hn : ∀ n ∈ names, IsMemberName n)

include hn

/-- **A file can be written if there is room for it.** -/
theorem canWrite_iff : tree.canWrite (place ++ names) = true ↔ Room tree goal names := by
  rw [canWrite, Bool.and_eq_true, h.isOpen_iff hn, h.isDirectory_append hn, Bool.not_eq_true']
  exact ⟨fun hw => ⟨hw.1, hw.2⟩, fun hr => ⟨hr.way, hr.here⟩⟩

variable (hne : names ≠ [])

include hne

/-- **A file can be replaced if there is room for it.** -/
theorem canReplace_iff : tree.canReplace (place ++ names) = true ↔ Room tree goal names := by
  rw [canReplace, Bool.and_eq_true, h.isOpen_iff hn, h.entryPlace?_append hn hne, Option.any_some,
    Bool.not_eq_true']
  exact ⟨fun hw => ⟨hw.1, hw.2⟩, fun hr => ⟨hr.way, hr.here⟩⟩

/-- The directories that are made for a file are on the way to it. -/
theorem makeDirectories_along (hr : Room tree goal names) :
    Along tree (goal ++ names) (tree.makeDirectories (place ++ names)) := by
  have hc := h.clear_append hr
  -- what one round makes is on the way to the file, whatever the rounds before it have made
  have hstep : ∀ {made : FileTree} {i : Nat}, i < (place ++ names).length →
      Along tree (goal ++ names) made →
      Along tree (goal ++ names) (made.makeDirectory ((place ++ names).take i)) := by
    intro made i hi ha
    have hall := h.leads_append hn
    rw [← List.take_append_drop i (place ++ names)] at hall
    obtain ⟨middle, h₁, h₂⟩ := leads_append_iff.1 hall
    refine ha.makeDirectory hc h₁ h₂ ?_
    -- the last name is never idle
    obtain ⟨init, last, rfl⟩ := List.eq_nil_or_concat names |>.resolve_left hne
    have hlast : last ∈ (place ++ init.concat last).drop i := by
      rw [List.concat_eq_append, ← List.append_assoc] at hi ⊢
      rw [List.drop_append_of_le_length (by
        simp only [List.length_append, List.length_singleton] at hi ⊢
        omega)]
      simp
    refine List.ne_nil_of_mem (List.mem_filter.2 ⟨hlast, ?_⟩)
    simp [(hn last (by simp)).isIdle_eq_false]
  have hfold : ∀ (l : List Nat), (∀ i ∈ l, i < (place ++ names).length) → ∀ made,
      Along tree (goal ++ names) made →
      Along tree (goal ++ names)
        (l.foldl (fun t i => t.makeDirectory ((place ++ names).take i)) made) := by
    intro l
    induction l with
    | nil => exact fun _ made ha => ha
    | cons i l ih =>
        intro hl made ha
        obtain ⟨hi, hl⟩ := List.forall_mem_cons.1 hl
        exact ih hl _ (hstep hi ha)
  exact hfold _ (fun i hi => List.mem_range.1 hi) tree (.inl rfl)

/-- **What changes when a file is written.** -/
theorem write_eq (hr : Room tree goal names) (content : Content) :
    tree.write (place ++ names) content = put (.file content) (goal ++ names) tree := by
  have ha := h.makeDirectories_along hn hne hr
  have hk := ha.keeps (h.clear_append hr)
  rw [write, putReached, reach?_eq_some_iff.2 ((h.leads_append hn).of_keeps hk)]
  exact ha.put_eq _

/-- **What changes when a file is replaced.** -/
theorem replace_eq (hr : Room tree goal names) (content : Content) :
    tree.replace (place ++ names) content = put (.file content) (goal ++ names) tree := by
  have ha := h.makeDirectories_along hn hne hr
  have hk := ha.keeps (h.clear_append hr)
  obtain ⟨init, last, rfl⟩ := List.eq_nil_or_concat names |>.resolve_left hne
  have hinit : ∀ n ∈ init, IsMemberName n := fun n hm => hn n (by simp [hm])
  have hentry : (tree.makeDirectories (place ++ init.concat last)).entryPlace?
      (place ++ init.concat last) = some (goal ++ init.concat last) := by
    simp only [List.concat_eq_append, ← List.append_assoc] at hk ⊢
    exact entryPlace?_concat ((h.leads_append hinit).of_keeps hk) last
  simp only [replace, hentry]
  exact ha.put_eq _

end Names

/-! ### After a file has been put -/

section Put

variable {names : List String} (hr : Room tree goal names) (content : Content)

include hr

theorem keeps_put : Keeps tree (put (.file content) (goal ++ names) tree) :=
  .put_file (h.clear_append hr) hr.here (h.ne_link names) content

omit h in
/-- After a file has been put, its content is there, and all other files are as before. -/
theorem content?_put (other : List String) :
    ((put (.file content) (goal ++ names) tree).get? (goal ++ other)).bind content? =
      if other = names then some content else (tree.get? (goal ++ other)).bind content? := by
  by_cases he : other = names
  · rw [he, get?_put_self, if_pos rfl]
    rfl
  · rw [if_neg he]
    rcases get?_put_cases (.file content) tree (goal ++ names) (goal ++ other) with
      ⟨rest, hrest, hget⟩ | ⟨rest, hrest, hne, hdir⟩ | ⟨hget, -⟩
    · -- nothing stands below a file, before and after
      rw [List.append_assoc, List.append_cancel_left_eq] at hrest
      have hne : rest ≠ [] := by
        rintro rfl
        exact he (by simpa using hrest)
      rw [hget, get?_eq_none_of_members rfl hne]
      cases hold : tree.get? (goal ++ other) with
      | none => rfl
      | some member =>
          rw [hrest, ← List.append_assoc] at hold
          have hdir := isDirectoryAt_of_isSome hne (Option.isSome_iff_exists.2 ⟨_, hold⟩)
          rw [hr.here] at hdir
          exact absurd hdir (by simp)
    · rw [List.append_assoc, List.append_cancel_left_eq] at hrest
      obtain ⟨ms, hms⟩ := isDirectoryAt_iff.1 hdir
      rw [hms]
      rcases hr.way other rest hrest hne with hnone | hold
      · rw [hnone]
        rfl
      · obtain ⟨ms', hms'⟩ := isDirectoryAt_iff.1 hold
        rw [hms']
        rfl
    · rw [hget]

theorem put_file (hn : ∀ n ∈ names, IsMemberName n) (hne : names ≠ []) :
    PlainAt (put (.file content) (goal ++ names) tree) place goal where
  leads := h.leads.of_keeps (h.keeps_put hr content)
  clear := by
    rintro above ⟨more, rfl⟩
    refine .inr (isDirectoryAt_iff.2 ?_)
    obtain ⟨name, rest, hrest⟩ := List.exists_cons_of_ne_nil (l := more ++ names) (by simp [hne])
    rw [List.append_assoc, hrest, get?_put_above]
    exact ⟨_, rfl⟩
  plain := by
    rw [subtree, get?_put_above]
    exact h.plain.put (.file content) hn

end Put

/-! ### After a file has been removed -/

section Removed

omit h in
/-- Whatever stands somewhere is a member of the directory around. -/
theorem exists_members {member : FileTree} {last : String}
    (hm : tree.get? (place ++ [last]) = some member) :
    ∃ ms, tree.get? place = some (.directory ms) ∧ Keyed.get? ms last = some member := by
  obtain ⟨ms, hms⟩ := isDirectoryAt_iff.1 (isDirectoryAt_of_isSome (List.cons_ne_nil last [])
    (Option.isSome_iff_exists.2 ⟨_, hm⟩))
  refine ⟨ms, hms, ?_⟩
  rw [get?_append_of_eq_some hms, get?_cons] at hm
  obtain ⟨inner, hi, hrest⟩ := Option.bind_eq_some_iff.1 hm
  obtain rfl := Option.some.inj hrest
  exact hi

variable {init : List String} {last : String} {content : Content} {ms : List (String × FileTree)}
  (hms : tree.get? (goal ++ init) = some (.directory ms))
  (hf : Keyed.get? ms last = some (.file content))

include hms

/-- **What changes when a file is removed.** -/
theorem unlink_eq (hn : ∀ n ∈ init, IsMemberName n) (last : String) :
    tree.unlink (place ++ init ++ [last]) =
      put (.directory (Keyed.erase ms last)) (goal ++ init) tree := by
  simp only [unlink, entryPlace?_concat (h.leads_append hn) last, remove_append hms]

omit h in
/-- What stands in the directory around afterwards. -/
theorem get?_erase_cons (last name : String) (rest : Place) :
    (FileTree.directory (Keyed.erase ms last)).get? (name :: rest) =
      if name = last then none else tree.get? (goal ++ init ++ name :: rest) := by
  rw [get?_append_of_eq_some hms, get?_cons, get?_cons]
  change (Keyed.get? (Keyed.erase ms last) name).bind _ = _
  rw [Keyed.get?_erase]
  by_cases hname : name = last <;> simp [hname, members]

include hf

omit h in
/-- Nothing stands below the file. -/
theorem get?_below_file {rest : Place} (hne : rest ≠ []) :
    tree.get? (goal ++ init ++ last :: rest) = none := by
  rw [get?_append_of_eq_some hms, get?_cons]
  change (Keyed.get? ms last).bind _ = _
  rw [hf, Option.bind_some, get?_eq_none_of_members rfl hne]

omit h hf in
theorem clear_of_directory : tree.Clear (goal ++ init) := by
  intro above rest he _
  refine .inr (isDirectoryAt_of_append (he ▸ isDirectoryAt_iff.2 ⟨ms, hms⟩))

theorem keeps_erase :
    Keeps tree (put (.directory (Keyed.erase ms last)) (goal ++ init) tree) := by
  refine .put (clear_of_directory hms) (fun rest target => ?_) fun rest hd => ?_
  · have hold : tree.get? (goal ++ init ++ rest) ≠ some (.link target) := by
      rw [List.append_assoc]
      exact h.ne_link _ target
    cases rest with
    | nil => simp [hms]
    | cons name rest =>
        rw [get?_erase_cons hms]
        split
        · exact ⟨fun hl => absurd hl (by simp), fun hl => absurd hl hold⟩
        · rfl
  · cases rest with
    | nil => rfl
    | cons name rest =>
        obtain ⟨ms', hms'⟩ := isDirectoryAt_iff.1 hd
        refine isDirectoryAt_iff.2 ⟨ms', ?_⟩
        rw [get?_erase_cons hms, if_neg, hms']
        -- the file is no directory, and nothing stands below it
        rintro rfl
        cases rest with
        | nil =>
            rw [get?_append_of_eq_some hms, get?_cons] at hms'
            obtain ⟨member, hm, hrest⟩ := Option.bind_eq_some_iff.1 hms'
            obtain rfl := Option.some.inj (hf.symm.trans hm)
            simp at hrest
        | cons second rest =>
            simp only [get?_below_file hms hf (List.cons_ne_nil second rest)] at hms'
            exact absurd hms' (by simp)

omit h in
/-- After a file has been removed, it is not there, and all other files are as before. -/
theorem content?_erase (other : List String) :
    ((put (.directory (Keyed.erase ms last)) (goal ++ init) tree).get? (goal ++ other)).bind
        content? =
      if other = init ++ [last] then none else (tree.get? (goal ++ other)).bind content? := by
  rcases get?_put_cases (.directory (Keyed.erase ms last)) tree (goal ++ init) (goal ++ other) with
    ⟨rest, hrest, hget⟩ | ⟨rest, hrest, hne, hdir⟩ | ⟨hget, hnp, -⟩
  · rw [hget, hrest]
    rw [List.append_assoc, List.append_cancel_left_eq] at hrest
    subst hrest
    cases rest with
    | nil => simp [hms, content?]
    | cons name rest =>
        rw [get?_erase_cons hms]
        by_cases hname : name = last
        · subst hname
          cases rest with
          | nil => simp
          | cons second rest =>
              rw [if_pos rfl, get?_below_file hms hf (List.cons_ne_nil second rest)]
              simp
        · simp [hname]
  · have hold := isDirectoryAt_of_append (hrest ▸ isDirectoryAt_iff.2 ⟨ms, hms⟩)
    obtain ⟨ms₁, hms₁⟩ := isDirectoryAt_iff.1 hdir
    obtain ⟨ms₂, hms₂⟩ := isDirectoryAt_iff.1 hold
    simp [hms₁, hms₂, content?]
  · rw [hget, if_neg]
    rintro rfl
    exact hnp ⟨[last], by simp⟩

theorem erase : PlainAt (put (.directory (Keyed.erase ms last)) (goal ++ init) tree) place goal where
  leads := h.leads.of_keeps (h.keeps_erase hms hf)
  clear := by
    rintro above ⟨more, rfl⟩
    refine .inr ((h.keeps_erase hms hf).directory above ?_)
    rw [List.append_assoc] at hms
    exact isDirectoryAt_of_append (isDirectoryAt_iff.2 ⟨ms, hms⟩)
  plain := by
    have hp := (h.plain_get? hms).erase last
    rw [subtree, get?_put_above]
    by_cases hi : init = []
    · subst hi
      exact hp
    · rw [← get?_subtree tree goal hi] at hms
      exact h.plain.put hp (h.plain.get? hms).2

end Removed

end PlainAt

end LuaAmbient.FileTree
