/-
Places without links.

What stands at a place is changed by `put` and `remove`.  A removal is a change of the directory that
the file stands in, so that everything follows from what a `put` does: it changes what stands at its
place and below, makes the directories on the way, and leaves everything else.

Main definitions:

* `LuaAmbient.FileTree.subtree` — what stands at a place, an empty directory if there is nothing;
* `LuaAmbient.FileTree.IsMemberName` — a name that leads to a member of a directory;
* `LuaAmbient.FileTree.WellNamed` — a tree in which the members of a directory have different names,
  all of which lead to them;
* `LuaAmbient.FileTree.Plain` — such a tree without links.

Main results:

* `LuaAmbient.FileTree.get?_put_append`, `LuaAmbient.FileTree.get?_put_apart`,
  `LuaAmbient.FileTree.get?_put_above` — **what stands where after a change**;
* `LuaAmbient.FileTree.put_append`, `LuaAmbient.FileTree.put_put_append` — a change of a directory is
  a change of the tree;
* `LuaAmbient.FileTree.remove_append` — a removal is a change of the directory around;
* `LuaAmbient.FileTree.WellNamed.mem_leaves_iff` — the leaves of a tree with distinct names are what
  stands at their places.
-/

import LuaAmbient.FileTree.Basic
import LuaAmbient.Proofs.Keyed

set_option relaxedAutoImplicit false
set_option autoImplicit false

namespace LuaAmbient.FileTree

/-! ### What stands at a place -/

@[simp] theorem get?_nil (tree : FileTree) : tree.get? [] = some tree := rfl

theorem get?_cons (tree : FileTree) (name : String) (rest : Place) :
    tree.get? (name :: rest) = (Keyed.get? tree.members name).bind (·.get? rest) := by
  rw [get?]
  cases Keyed.get? tree.members name <;> rfl

theorem get?_append (tree : FileTree) (place rest : Place) :
    tree.get? (place ++ rest) = (tree.get? place).bind (·.get? rest) := by
  induction place generalizing tree with
  | nil => rfl
  | cons name place ih =>
      rw [List.cons_append, get?_cons, get?_cons]
      cases Keyed.get? tree.members name with
      | none => rfl
      | some member => exact ih member

theorem get?_append_of_eq_none {tree : FileTree} {place : Place} (h : tree.get? place = none)
    (rest : Place) : tree.get? (place ++ rest) = none := by
  rw [get?_append, h]
  rfl

theorem get?_append_of_eq_some {tree member : FileTree} {place : Place}
    (h : tree.get? place = some member) (rest : Place) :
    tree.get? (place ++ rest) = member.get? rest := by
  rw [get?_append, h]
  rfl

/-- Nothing stands below what is no directory. -/
theorem get?_eq_none_of_members {tree : FileTree} (h : tree.members = []) {rest : Place}
    (hr : rest ≠ []) : tree.get? rest = none := by
  cases rest with
  | nil => exact absurd rfl hr
  | cons name rest =>
      rw [get?_cons, h]
      rfl

/-- What stands at a place, an empty directory if there is nothing. -/
def subtree (tree : FileTree) (place : Place) : FileTree :=
  (tree.get? place).getD (.directory [])

theorem subtree_eq_of_get? {tree member : FileTree} {place : Place}
    (h : tree.get? place = some member) : tree.subtree place = member := by
  rw [subtree, h]
  rfl

theorem get?_subtree (tree : FileTree) (place : Place) {rest : Place} (hr : rest ≠ []) :
    (tree.subtree place).get? rest = tree.get? (place ++ rest) := by
  rw [subtree, get?_append]
  cases tree.get? place with
  | none => exact get?_eq_none_of_members rfl hr
  | some member => rfl

theorem subtree_append (tree : FileTree) (place rest : Place) :
    (tree.subtree place).subtree rest = tree.subtree (place ++ rest) := by
  by_cases hr : rest = []
  · rw [hr, List.append_nil]
    rfl
  · rw [subtree, get?_subtree tree place hr, subtree]

/-! ### Directories -/

theorem isDirectoryAt_iff {tree : FileTree} {place : Place} :
    tree.isDirectoryAt place = true ↔ ∃ ms, tree.get? place = some (.directory ms) := by
  rw [isDirectoryAt]
  split <;> simp_all

/-- Whatever something stands in is a directory. -/
theorem isDirectoryAt_of_isSome {tree : FileTree} {place rest : Place} (hr : rest ≠ [])
    (h : (tree.get? (place ++ rest)).isSome) : tree.isDirectoryAt place = true := by
  rw [get?_append] at h
  cases hp : tree.get? place with
  | none => simp [hp] at h
  | some member =>
      cases member with
      | directory ms => exact isDirectoryAt_iff.2 ⟨ms, hp⟩
      | file content => simp [hp, @get?_eq_none_of_members (.file content) rfl _ hr] at h
      | link target => simp [hp, @get?_eq_none_of_members (.link target) rfl _ hr] at h

theorem isDirectoryAt_of_append {tree : FileTree} {place rest : Place}
    (h : tree.isDirectoryAt (place ++ rest) = true) : tree.isDirectoryAt place = true := by
  by_cases hr : rest = []
  · rwa [hr, List.append_nil] at h
  · obtain ⟨ms, hms⟩ := isDirectoryAt_iff.1 h
    exact isDirectoryAt_of_isSome hr (hms ▸ rfl)

/-! ### Changes -/

@[simp] theorem put_nil (new tree : FileTree) : put new [] tree = new := rfl

theorem put_cons (new tree : FileTree) (name : String) (rest : Place) :
    put new (name :: rest) tree = .directory (Keyed.put tree.members name
      (put new rest ((Keyed.get? tree.members name).getD (.directory [])))) := rfl

theorem get?_put_cons (new tree : FileTree) (name : String) (rest : Place) (other : String)
    (place : Place) :
    (put new (name :: rest) tree).get? (other :: place) =
      if name = other then
        (put new rest ((Keyed.get? tree.members name).getD (.directory []))).get? place
      else tree.get? (other :: place) := by
  rw [put_cons, get?_cons, get?_cons, members, Keyed.get?_put]
  split
  · rfl
  · rfl

/-- What stands on the way to a change, or at its place. -/
theorem get?_put_above (new tree : FileTree) (place rest : Place) :
    (put new (place ++ rest) tree).get? place = some (put new rest (tree.subtree place)) := by
  induction place generalizing tree with
  | nil => rfl
  | cons name place ih =>
      rw [List.cons_append, get?_put_cons, if_pos rfl, ih, subtree, subtree, get?_cons]
      cases Keyed.get? tree.members name with
      | none =>
          cases place with
          | nil => rfl
          | cons other place => rw [get?_eq_none_of_members rfl (by simp)]; rfl
      | some member => rfl

/-- What stands below a change. -/
theorem get?_put_append (new tree : FileTree) (place rest : Place) :
    (put new place tree).get? (place ++ rest) = new.get? rest := by
  have h := get?_put_above new tree place []
  rw [List.append_nil] at h
  rw [get?_append_of_eq_some h]
  rfl

@[simp] theorem get?_put_self (new tree : FileTree) (place : Place) :
    (put new place tree).get? place = some new := by
  simpa using get?_put_append new tree place []

/-- What stands neither below a change nor on the way to it stays. -/
theorem get?_put_apart (new tree : FileTree) {place other : Place}
    (h : ¬ place <+: other) (h' : ¬ other <+: place) :
    (put new place tree).get? other = tree.get? other := by
  induction place generalizing tree other with
  | nil => exact absurd (List.nil_prefix) h
  | cons name place ih =>
      cases other with
      | nil => exact absurd (List.nil_prefix) h'
      | cons first other =>
          rw [get?_put_cons]
          split
          · next hname =>
            subst hname
            rw [List.cons_prefix_cons] at h h'
            rw [ih _ (fun hp => h ⟨rfl, hp⟩) fun hp => h' ⟨rfl, hp⟩, get?_cons]
            cases Keyed.get? tree.members name with
            | none =>
                have hne : other ≠ [] := by
                  rintro rfl
                  exact h' ⟨rfl, List.nil_prefix⟩
                exact get?_eq_none_of_members rfl hne
            | some member => rfl
          · rfl

/-- A change of a directory is a change of the tree. -/
theorem put_append (new tree : FileTree) (place rest : Place) :
    put new (place ++ rest) tree = put (put new rest (tree.subtree place)) place tree := by
  induction place generalizing tree with
  | nil => rfl
  | cons name place ih =>
      rw [List.cons_append, put_cons, put_cons, ih, subtree, subtree, get?_cons]
      cases Keyed.get? tree.members name with
      | none =>
          cases place with
          | nil => rfl
          | cons other place => rw [get?_eq_none_of_members rfl (by simp)]; rfl
      | some member => rfl

theorem put_put (new old tree : FileTree) (place : Place) :
    put new place (put old place tree) = put new place tree := by
  induction place generalizing tree with
  | nil => rfl
  | cons name place ih =>
      simp only [put_cons, members, Keyed.get?_put, if_true, Option.getD_some, ih, Keyed.put_put]

theorem put_put_append (new old tree : FileTree) (place rest : Place) :
    put new (place ++ rest) (put old place tree) = put (put new rest old) place tree := by
  rw [put_append, subtree_eq_of_get? (get?_put_self old tree place), put_put]

/-- A directory that is needed anyway need not be made before. -/
theorem put_append_put_directory (new : FileTree) {tree : FileTree} {place : Place}
    (h : tree.get? place = none) (rest : Place) :
    put new (place ++ rest) (put (.directory []) place tree) = put new (place ++ rest) tree := by
  rw [put_put_append, put_append, subtree, h]
  rfl

/-- To put what is there changes nothing. -/
theorem put_of_get?_eq_some {tree member : FileTree} {place : Place}
    (h : tree.get? place = some member) : put member place tree = tree := by
  induction place generalizing tree with
  | nil => simpa using h.symm
  | cons name place ih =>
      rw [get?_cons] at h
      cases hm : Keyed.get? tree.members name with
      | none => simp [hm] at h
      | some inner =>
          rw [hm, Option.bind_some] at h
          rw [put_cons, hm, Option.getD_some, ih h, Keyed.put_of_get?_eq_some hm]
          cases tree with
          | directory ms => rfl
          | file content => simp [members] at hm
          | link target => simp [members] at hm

/-- A removal is a change of the directory around. -/
theorem remove_append {tree : FileTree} {place : Place} {ms : List (String × FileTree)}
    (h : tree.get? place = some (.directory ms)) (name : String) :
    remove (place ++ [name]) tree = put (.directory (Keyed.erase ms name)) place tree := by
  induction place generalizing tree with
  | nil =>
      obtain rfl := Option.some.inj h
      rfl
  | cons first place ih =>
      rw [get?_cons] at h
      cases hm : Keyed.get? tree.members first with
      | none => simp [hm] at h
      | some member =>
          rw [hm, Option.bind_some] at h
          have hne : place ++ [name] ≠ [] := by simp
          rw [List.cons_append, put_cons, hm, Option.getD_some, ← ih h]
          cases hrest : place ++ [name] with
          | nil => exact absurd hrest hne
          | cons second rest => simp only [remove, hm]

/-! ### Leaves -/

/-- Files and links. -/
def IsLeaf : FileTree → Prop
  | .directory _ => False
  | _ => True

theorem leavesOf_eq_flatMap (place : Place) (ms : List (String × FileTree)) :
    leavesOf place ms = ms.flatMap fun m => leavesBelow (place ++ [m.1]) m.2 := by
  induction ms with
  | nil => rw [leavesOf, List.flatMap_nil]
  | cons m ms ih => rw [leavesOf, List.flatMap_cons, ih]

theorem mem_leavesBelow_of_get? {tree leaf : FileTree} {rest : Place} (hl : IsLeaf leaf)
    (h : tree.get? rest = some leaf) (place : Place) :
    (place ++ rest, leaf) ∈ leavesBelow place tree := by
  induction rest generalizing tree place with
  | nil =>
      obtain rfl := Option.some.inj h
      rw [List.append_nil]
      cases tree with
      | file content => simp [leavesBelow]
      | link target => simp [leavesBelow]
      | directory ms => exact hl.elim
  | cons name rest ih =>
      rw [get?_cons] at h
      obtain ⟨member, hm, hrest⟩ := Option.bind_eq_some_iff.1 h
      cases tree with
      | file content => simp [members] at hm
      | link target => simp [members] at hm
      | directory ms =>
          rw [leavesBelow, leavesOf_eq_flatMap]
          refine List.mem_flatMap.2 ⟨(name, member), Keyed.mem_of_get?_eq_some hm, ?_⟩
          have hi := ih hrest (place ++ [name])
          rwa [List.append_assoc, List.singleton_append] at hi

/-! ### Trees with distinct names -/

/-- A name that leads to a member of a directory. -/
def IsMemberName (name : String) : Prop :=
  name ≠ "" ∧ name ≠ "." ∧ name ≠ ".." ∧ '/' ∉ name.toList

instance (name : String) : Decidable (IsMemberName name) :=
  inferInstanceAs (Decidable (name ≠ "" ∧ name ≠ "." ∧ name ≠ ".." ∧ '/' ∉ name.toList))

/-- A tree in which the members of a directory have different names, all of which lead to them. -/
inductive WellNamed : FileTree → Prop
  | file (content : Content) : WellNamed (.file content)
  | link (target : String) : WellNamed (.link target)
  | directory {ms : List (String × FileTree)} : (Keyed.keys ms).Nodup →
      (∀ m ∈ ms, IsMemberName m.1) → (∀ m ∈ ms, WellNamed m.2) → WellNamed (.directory ms)

namespace WellNamed

/-- Names on the way to what stands somewhere lead to members of directories. -/
theorem isMemberName_of_get? {tree member : FileTree} (h : WellNamed tree) {place : Place}
    (hg : tree.get? place = some member) : ∀ n ∈ place, IsMemberName n := by
  induction place generalizing tree with
  | nil => simp
  | cons name place ih =>
      rw [get?_cons] at hg
      obtain ⟨inner, hi, hrest⟩ := Option.bind_eq_some_iff.1 hg
      cases h with
      | file content => simp [members] at hi
      | link target => simp [members] at hi
      | directory hn hk hm =>
          have hmem := Keyed.mem_of_get?_eq_some hi
          exact List.forall_mem_cons.2 ⟨hk _ hmem, ih (hm _ hmem) hrest⟩

theorem get?_of_mem_leavesBelow {tree : FileTree} (h : WellNamed tree) {place : Place}
    {leaf : Place × FileTree} (hl : leaf ∈ leavesBelow place tree) :
    ∃ rest, leaf.1 = place ++ rest ∧ tree.get? rest = some leaf.2 ∧ IsLeaf leaf.2 := by
  induction h generalizing place with
  | file content =>
      rw [leavesBelow, List.mem_singleton] at hl
      subst hl
      exact ⟨[], by simp, rfl, trivial⟩
  | link target =>
      rw [leavesBelow, List.mem_singleton] at hl
      subst hl
      exact ⟨[], by simp, rfl, trivial⟩
  | @directory ms hn hk hm ih =>
      rw [leavesBelow, leavesOf_eq_flatMap] at hl
      obtain ⟨m, hmem, hlm⟩ := List.mem_flatMap.1 hl
      obtain ⟨rest, hplace, hget, hleaf⟩ := ih m hmem hlm
      refine ⟨m.1 :: rest, by simp [hplace], ?_, hleaf⟩
      have hmember : Keyed.get? (FileTree.directory ms).members m.1 = some m.2 :=
        (Keyed.get?_eq_some_iff hn).2 hmem
      rw [get?_cons, hmember, Option.bind_some, hget]

/-- The leaves of a tree with distinct names are what stands at their places. -/
theorem mem_leaves_iff {tree : FileTree} (h : WellNamed tree) {leaf : Place × FileTree} :
    leaf ∈ tree.leaves ↔ tree.get? leaf.1 = some leaf.2 ∧ IsLeaf leaf.2 := by
  constructor
  · intro hl
    obtain ⟨rest, hplace, hget, hleaf⟩ := h.get?_of_mem_leavesBelow hl
    rw [List.nil_append] at hplace
    exact ⟨hplace ▸ hget, hleaf⟩
  · rintro ⟨hget, hleaf⟩
    exact mem_leavesBelow_of_get? hleaf hget []

end WellNamed

/-! ### Trees without links -/

/-- A tree without links, in which the members of a directory have different names, all of which
lead to them. -/
inductive Plain : FileTree → Prop
  | file (content : Content) : Plain (.file content)
  | directory {ms : List (String × FileTree)} : (Keyed.keys ms).Nodup →
      (∀ m ∈ ms, IsMemberName m.1) → (∀ m ∈ ms, Plain m.2) → Plain (.directory ms)

namespace Plain

theorem empty : Plain (.directory []) :=
  .directory (by simp) (by simp) (by simp)

theorem of_members {tree : FileTree} (h : Plain tree) : Plain (.directory tree.members) := by
  cases h with
  | file content => exact .empty
  | directory hn hk hm => exact .directory hn hk hm

theorem get? {tree member : FileTree} (h : Plain tree) {place : Place}
    (hg : tree.get? place = some member) : Plain member ∧ ∀ n ∈ place, IsMemberName n := by
  induction place generalizing tree with
  | nil =>
      obtain rfl := Option.some.inj hg
      exact ⟨h, by simp⟩
  | cons name place ih =>
      rw [get?_cons] at hg
      obtain ⟨inner, hi, hrest⟩ := Option.bind_eq_some_iff.1 hg
      cases h with
      | file content => simp [members] at hi
      | directory hn hk hm =>
          have hmem := Keyed.mem_of_get?_eq_some hi
          obtain ⟨hp, hall⟩ := ih (hm _ hmem) hrest
          exact ⟨hp, List.forall_mem_cons.2 ⟨hk _ hmem, hall⟩⟩

theorem ne_link {tree : FileTree} (h : Plain tree) (place : Place) (target : String) :
    tree.get? place ≠ some (.link target) := fun hg => nomatch (h.get? hg).1

theorem put {tree new : FileTree} (h : Plain tree) (hnew : Plain new) {place : Place}
    (hp : ∀ n ∈ place, IsMemberName n) : Plain (put new place tree) := by
  induction place generalizing tree with
  | nil => exact hnew
  | cons name place ih =>
      obtain ⟨hname, hplace⟩ := List.forall_mem_cons.1 hp
      rw [put_cons]
      cases h.of_members with
      | directory hn hk hm =>
          have hmember : Plain ((Keyed.get? tree.members name).getD (.directory [])) := by
            cases hg : Keyed.get? tree.members name with
            | none => exact .empty
            | some member => exact hm _ (Keyed.mem_of_get?_eq_some hg)
          refine .directory (Keyed.nodup_keys_put hn _ _) ?_ ?_
          · intro m hmem
            rcases Keyed.mem_of_mem_put hmem with rfl | hold
            · exact hname
            · exact hk m hold
          · intro m hmem
            rcases Keyed.mem_of_mem_put hmem with rfl | hold
            · exact ih hmember hplace
            · exact hm m hold

theorem erase {ms : List (String × FileTree)} (h : Plain (.directory ms)) (name : String) :
    Plain (.directory (Keyed.erase ms name)) := by
  cases h with
  | directory hn hk hm =>
      exact .directory (Keyed.nodup_keys_erase hn name)
        (fun m hmem => hk m (List.mem_filter.1 hmem).1) fun m hmem => hm m (List.mem_filter.1 hmem).1

theorem wellNamed {tree : FileTree} (h : Plain tree) : WellNamed tree := by
  induction h with
  | file content => exact .file content
  | directory hn hk _ ih => exact .directory hn hk ih

end Plain

/-- The leaves of a plain tree are what stands at their places. -/
theorem mem_leaves_iff {tree : FileTree} (h : Plain tree) {leaf : Place × FileTree} :
    leaf ∈ tree.leaves ↔ tree.get? leaf.1 = some leaf.2 ∧ IsLeaf leaf.2 :=
  h.wellNamed.mem_leaves_iff

/-! ### Equality -/

mutual

/-- Whether two trees are equal. -/
def isSame : FileTree → FileTree → Bool
  | .file content, .file content' => content == content'
  | .link target, .link target' => target == target'
  | .directory ms, .directory ms' => hasSameMembers ms ms'
  | _, _ => false

/-- Whether two directories have equal members in the same order. -/
def hasSameMembers : List (String × FileTree) → List (String × FileTree) → Bool
  | [], [] => true
  | (name, tree) :: ms, (name', tree') :: ms' =>
    name == name' && isSame tree tree' && hasSameMembers ms ms'
  | _, _ => false

end

mutual

theorem isSame_iff : ∀ tree tree' : FileTree, isSame tree tree' = true ↔ tree = tree'
  | .file content, tree' => by cases tree' <;> simp [isSame]
  | .link target, tree' => by cases tree' <;> simp [isSame]
  | .directory ms, tree' => by
      cases tree' with
      | directory ms' => simp [isSame, hasSameMembers_iff ms ms']
      | file content => simp [isSame]
      | link target => simp [isSame]

theorem hasSameMembers_iff :
    ∀ ms ms' : List (String × FileTree), hasSameMembers ms ms' = true ↔ ms = ms'
  | [], ms' => by cases ms' <;> simp [hasSameMembers]
  | (name, tree) :: ms, ms' => by
      cases ms' with
      | nil => simp [hasSameMembers]
      | cons m ms' => simp [hasSameMembers, isSame_iff tree m.2, hasSameMembers_iff ms ms', Prod.ext_iff]

end

instance : DecidableEq FileTree :=
  fun tree tree' => decidable_of_iff _ (isSame_iff tree tree')

end LuaAmbient.FileTree
