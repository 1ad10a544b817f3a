/-
The removal of a file that stands anywhere.

A way that goes up or through links may lead to a file that stands inside a directory or outside.
What is removed then is the file or a link to it.  No way to a directory goes through such a link,
since a way in earnest cannot leave a file again; so all directories are reached as before, and no
other file is lost.

Main results:

* `LuaAmbient.FileTree.Leads.of_subset` — a way with fewer links opened;
* `LuaAmbient.FileTree.Leads.of_erased` — ways to where no file stands lead there as before;
* `LuaAmbient.FileTree.PlainAt.unlink` — **a directory without links stays one, whatever file is
  removed, and a file of another name is left**.
-/

import LuaAmbient.Proofs.FileTree.Directory

set_option relaxedAutoImplicit false
set_option autoImplicit false

namespace LuaAmbient.FileTree

/-! ### Ways -/

/-- A way within the targets of some links is one within those of fewer. -/
theorem Leads.of_subset {tree : FileTree} {earnest : Bool} {opened opened' : List Place}
    {place goal : Place} {names : List String} (h : Leads tree earnest opened place names goal)
    (hs : ∀ p ∈ opened', p ∈ opened) : Leads tree earnest opened' place names goal := by
  induction h generalizing opened' with
  | done opened place => exact .done opened' place
  | idle hi _ ih => exact .idle hi (ih hs)
  | up hdir _ ih => exact .up hdir (ih hs)
  | jump hi hu hl ho _ _ ih ih' =>
      refine .jump hi hu hl (fun hm => ho (hs _ hm)) (ih fun p hp => ?_) (ih' hs)
      rcases List.mem_cons.1 hp with rfl | hp
      · exact List.mem_cons_self
      · exact List.mem_cons_of_mem _ (hs p hp)
  | down hi hu hl _ ih => exact .down hi hu hl (ih hs)

/-- If a way goes on to where no file stands, it is not at one. -/
theorem Leads.isFree_above {tree : FileTree} {opened : List Place} {place goal : Place}
    {names : List String} (h : Leads tree true opened place names goal)
    (hc : ∀ above, above <+: goal → tree.IsFree above) :
    ∀ above, above <+: place → tree.IsFree above := by
  rintro above ⟨rest, rfl⟩
  rcases h.start_cases with hdir | hgoal
  · exact .inr (isDirectoryAt_of_append hdir)
  · exact hc above ⟨_, by rw [hgoal, List.append_assoc]⟩

/-! ### The tree without a file or link -/

section Erased

variable {tree leaf : FileTree} {parent : Place} {last : String} {ms : List (String × FileTree)}
  (hms : tree.get? parent = some (.directory ms)) (hf : Keyed.get? ms last = some leaf)
  (hleaf : IsLeaf leaf)

include hms

theorem get?_erase (name : String) (rest : Place) :
    (FileTree.directory (Keyed.erase ms last)).get? (name :: rest) =
      if name = last then none else tree.get? (parent ++ name :: rest) :=
  @PlainAt.get?_erase_cons tree [] parent ms hms last name rest

theorem get?_erased_self :
    (put (.directory (Keyed.erase ms last)) parent tree).get? (parent ++ [last]) = none := by
  rw [get?_put_append, get?_erase hms, if_pos rfl]

include hf

theorem get?_leaf (rest : Place) : tree.get? (parent ++ last :: rest) = leaf.get? rest := by
  rw [get?_append_of_eq_some hms, get?_cons]
  change (Keyed.get? ms last).bind _ = _
  rw [hf, Option.bind_some]

include hleaf

theorem not_isFree_leaf : ¬ tree.IsFree (parent ++ [last]) := by
  have hget := get?_leaf hms hf []
  rw [get?_nil] at hget
  rintro (hnone | hdir)
  · simp [hnone] at hget
  · obtain ⟨ms', hms'⟩ := isDirectoryAt_iff.1 hdir
    obtain rfl := Option.some.inj (hget.symm.trans hms')
    exact hleaf

/-- What stands elsewhere: what has stood there, or a directory where a directory has stood. -/
theorem get?_erased {other : Place} (hne : other ≠ parent ++ [last]) :
    (put (.directory (Keyed.erase ms last)) parent tree).get? other = tree.get? other ∨
      tree.isDirectoryAt other = true ∧
        (put (.directory (Keyed.erase ms last)) parent tree).isDirectoryAt other = true := by
  rcases get?_put_cases (.directory (Keyed.erase ms last)) tree parent other with
    ⟨rest, rfl, hget⟩ | ⟨rest, hrest, -, hdir⟩ | ⟨hget, -⟩
  · cases rest with
    | nil =>
        rw [List.append_nil]
        exact .inr ⟨isDirectoryAt_iff.2 ⟨ms, hms⟩, isDirectoryAt_iff.2 ⟨_, get?_put_self _ _ _⟩⟩
    | cons name rest =>
        left
        rw [hget, get?_erase hms]
        split
        · next hname =>
          -- nothing stands below a file or link
          subst hname
          have hrest : rest ≠ [] := fun he => hne (by rw [he])
          have hmembers : leaf.members = [] := by
            cases leaf with
            | file content => rfl
            | link target => rfl
            | directory ms => exact hleaf.elim
          rw [get?_leaf hms hf, get?_eq_none_of_members hmembers hrest]
        · rfl
  · have hold := isDirectoryAt_iff.2 ⟨ms, hms⟩
    rw [hrest] at hold
    exact .inr ⟨isDirectoryAt_of_append hold, hdir⟩
  · exact .inl hget

theorem isDirectoryAt_erased {other : Place} (h : tree.isDirectoryAt other = true) :
    (put (.directory (Keyed.erase ms last)) parent tree).isDirectoryAt other = true := by
  have hne : other ≠ parent ++ [last] := by
    rintro rfl
    exact not_isFree_leaf hms hf hleaf (.inr h)
  rcases get?_erased hms hf hleaf hne with heq | ⟨-, hdir⟩
  · rw [isDirectoryAt, heq]
    exact h
  · exact hdir

theorem isFree_erased {other : Place} (h : tree.IsFree other) :
    (put (.directory (Keyed.erase ms last)) parent tree).IsFree other := by
  have hne : other ≠ parent ++ [last] := by
    rintro rfl
    exact not_isFree_leaf hms hf hleaf h
  rcases get?_erased hms hf hleaf hne with heq | ⟨-, hdir⟩
  · rw [IsFree, isDirectoryAt, heq]
    exact h
  · exact .inr hdir

theorem link_erased_iff {other : Place} (hne : other ≠ parent ++ [last]) (target : String) :
    (put (.directory (Keyed.erase ms last)) parent tree).get? other = some (.link target) ↔
      tree.get? other = some (.link target) := by
  rcases get?_erased hms hf hleaf hne with heq | ⟨hdir, hdir'⟩
  · rw [heq]
  · obtain ⟨ms₁, hms₁⟩ := isDirectoryAt_iff.1 hdir
    obtain ⟨ms₂, hms₂⟩ := isDirectoryAt_iff.1 hdir'
    simp [hms₁, hms₂]

theorem content?_erased {other : Place} (hne : other ≠ parent ++ [last]) :
    ((put (.directory (Keyed.erase ms last)) parent tree).get? other).bind content? =
      (tree.get? other).bind content? := by
  rcases get?_erased hms hf hleaf hne with heq | ⟨hdir, hdir'⟩
  · rw [heq]
  · obtain ⟨ms₁, hms₁⟩ := isDirectoryAt_iff.1 hdir
    obtain ⟨ms₂, hms₂⟩ := isDirectoryAt_iff.1 hdir'
    simp [hms₁, hms₂, content?]

variable (hdead : ∀ target middle, leaf = .link target →
  Leads tree true [] (targetStart parent target) (Text.splitString '/' target) middle →
    ¬ tree.IsFree middle)

include hdead

/-- Ways to where no file stands lead there as before. -/
theorem Leads.of_erased {opened : List Place} {place goal : Place} {names : List String}
    (h : Leads tree true opened place names goal)
    (hc : ∀ above, above <+: goal → tree.IsFree above) :
    Leads (put (.directory (Keyed.erase ms last)) parent tree) true opened place names goal := by
  induction h with
  | done opened place => exact .done opened place
  | idle hi _ ih => exact .idle hi (ih hc)
  | up hdir _ ih => exact .up (fun he => isDirectoryAt_erased hms hf hleaf (hdir he)) (ih hc)
  | @jump opened place middle goal name target rest hi hu hl ho htarget hrest ih ih' =>
      have hmiddle := hrest.isFree_above hc
      have hne : place ++ [name] ≠ parent ++ [last] := by
        -- the link leads to a file, and the way could not go on from there
        intro he
        obtain ⟨rfl, hname⟩ := List.append_inj' he rfl
        obtain rfl := List.singleton_inj.1 hname
        have hlink := Option.some.inj ((get?_leaf hms hf []).symm.trans hl)
        exact hdead target middle hlink (htarget.of_subset (by simp))
          (hmiddle middle (List.prefix_refl _))
      exact .jump hi hu ((link_erased_iff hms hf hleaf hne target).2 hl) ho (ih hmiddle) (ih' hc)
  | @down opened place goal name rest hi hu hl _ ih =>
      refine .down hi hu (fun target ht => ?_) (ih hc)
      by_cases hne : place ++ [name] = parent ++ [last]
      · rw [hne, get?_erased_self hms] at ht
        simp at ht
      · exact hl target ((link_erased_iff hms hf hleaf hne target).1 ht)

theorem PlainAt.of_erased {place goal : Place} (h : PlainAt tree place goal) :
    PlainAt (put (.directory (Keyed.erase ms last)) parent tree) place goal where
  leads := h.leads.of_erased hms hf hleaf hdead h.clear
  clear above ha := isFree_erased hms hf hleaf (h.clear above ha)
  plain := by
    by_cases hinside : goal <+: parent
    · -- there are no links in the directory, so that what is removed is a file
      obtain ⟨init, rfl⟩ := hinside
      cases leaf with
      | file content => exact (h.erase hms hf).plain
      | link target =>
          have hlink := get?_leaf hms hf []
          rw [List.append_assoc] at hlink
          exact absurd hlink (h.ne_link _ target)
      | directory ms => exact hleaf.elim
    · have hsame : (put (.directory (Keyed.erase ms last)) parent tree).get? goal =
          tree.get? goal := by
        rcases get?_put_cases (.directory (Keyed.erase ms last)) tree parent goal with
          ⟨rest, rfl, hget⟩ | ⟨rest, hrest, -, -⟩ | ⟨hget, -⟩
        · obtain ⟨name, rest, rfl⟩ := List.exists_cons_of_ne_nil (l := rest) (by
            rintro rfl
            exact hinside (by simp))
          rw [hget, get?_erase hms, if_neg]
          -- neither a file nor a link stands on the way to the directory
          rintro rfl
          exact not_isFree_leaf hms hf hleaf (h.clear _ ⟨rest, by simp⟩)
        · exact absurd ⟨rest, hrest.symm⟩ hinside
        · exact hget
      rw [subtree, hsame]
      exact h.plain

end Erased

/-! ### The removal -/

/-- A way to a file ends at it or at a link to it. -/
theorem exists_leaf_of_read? {tree : FileTree} {way : Place} {last : String} {content : Content}
    (hi : isIdle last = false) (hu : last ≠ "..") (h : tree.read? (way ++ [last]) = some content) :
    ∃ parent ms leaf, Leads tree true [] [] way parent ∧
      tree.get? parent = some (.directory ms) ∧ Keyed.get? ms last = some leaf ∧ IsLeaf leaf ∧
      ∀ target middle, leaf = .link target →
        Leads tree true [] (targetStart parent target) (Text.splitString '/' target) middle →
          ¬ tree.IsFree middle := by
  obtain ⟨member, hfind, hcontent⟩ := Option.bind_eq_some_iff.1 ((read?_eq_bind _ _).symm.trans h)
  obtain ⟨reached, hreach, hget⟩ := Option.bind_eq_some_iff.1 hfind
  -- what the way leads to is a file
  have hfile : ¬ tree.IsFree reached := by
    rintro (hnone | hdir)
    · simp [hnone] at hget
    · obtain ⟨ms, hms⟩ := isDirectoryAt_iff.1 hdir
      obtain rfl := Option.some.inj (hms.symm.trans hget)
      simp [content?] at hcontent
  obtain ⟨parent, hway, hlast⟩ := leads_append_iff.1 (reach?_eq_some_iff.1 hreach)
  cases hlast with
  | idle hidle _ => simp [hi] at hidle
  | up _ _ => exact absurd rfl hu
  | jump _ _ hlink _ htarget hdone =>
      cases hdone
      obtain ⟨ms, hms, hf⟩ := PlainAt.exists_members hlink
      refine ⟨parent, ms, _, hway, hms, hf, trivial, ?_⟩
      rintro target middle heq hmiddle
      obtain rfl := FileTree.link.inj heq
      rwa [hmiddle.unique (htarget.of_subset (by simp))]
  | down _ _ _ hdone =>
      cases hdone
      obtain ⟨ms, hms, hf⟩ := PlainAt.exists_members hget
      cases member with
      | file content =>
          refine ⟨parent, ms, _, hway, hms, hf, trivial, ?_⟩
          rintro target middle heq
          simp at heq
      | link target => simp [content?] at hcontent
      | directory ms => simp [content?] at hcontent

/-- **A directory without links stays one, whatever file is removed, and a file of another name is
left.** -/
theorem PlainAt.unlink {tree : FileTree} {place goal : Place} (h : PlainAt tree place goal)
    {way : Place} {last : String} (hi : isIdle last = false) (hu : last ≠ "..")
    (hr : (tree.read? (way ++ [last])).isSome) :
    PlainAt (tree.unlink (way ++ [last])) place goal ∧
      ∀ other name, name ≠ last →
        ((tree.unlink (way ++ [last])).get? (other ++ [name])).bind content? =
          (tree.get? (other ++ [name])).bind content? := by
  obtain ⟨content, hr⟩ := Option.isSome_iff_exists.1 hr
  obtain ⟨parent, ms, leaf, hl, hms, hf, hleaf, hdead⟩ := exists_leaf_of_read? hi hu hr
  have heq : tree.unlink (way ++ [last]) = put (.directory (Keyed.erase ms last)) parent tree := by
    simp only [FileTree.unlink, entryPlace?_concat hl last, remove_append hms]
  rw [heq]
  refine ⟨h.of_erased hms hf hleaf hdead, fun other name hne => ?_⟩
  refine content?_erased hms hf hleaf fun he => hne ?_
  exact List.singleton_inj.1 (List.append_inj' he rfl).2

end LuaAmbient.FileTree
