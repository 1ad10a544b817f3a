/-
**Where a way leads.**

A way is followed name by name, and the target of a link takes the place of its name.  `Leads` says so
without a bound on the number of steps.  No way comes back to a link whose target it is in, so that
the names of the way and of all links together are bound enough: whatever a way leads to is found.

Main definitions:

* `LuaAmbient.FileTree.Leads` — a way leads from one place to another;
* `LuaAmbient.FileTree.Keeps` — a change that touches no link and takes no directory away.

Main results:

* `LuaAmbient.FileTree.walk_eq_reached_iff` — **a walk comes to where the way leads**;
* `LuaAmbient.FileTree.leads_append_iff` — a way in two parts;
* `LuaAmbient.FileTree.Leads.of_keeps` — a change that touches no link leaves all ways as they are;
* `LuaAmbient.FileTree.Leads.start_cases` — a way that does not start in a directory goes straight
  on.
-/

import Mathlib.Algebra.GroupWithZero.Nat
import Mathlib.Algebra.Order.BigOperators.Group.List
import LuaAmbient.Proofs.FileTree.Basic

set_option relaxedAutoImplicit false
set_option autoImplicit false

namespace LuaAmbient.FileTree

/-- A name that stays where it is. -/
def isIdle (name : String) : Bool :=
  name.isEmpty || name == "."

/-- The place where the target of a link at a place starts. -/
def targetStart (place : Place) (target : String) : Place :=
  if target.toList.head? == some '/' then [] else place

/-- A way leads from one place to another, within the targets of the links `opened`.  In earnest, it
goes up from directories only. -/
inductive Leads (tree : FileTree) (earnest : Bool) :
    List Place → Place → List String → Place → Prop
  | done (opened : List Place) (place : Place) : Leads tree earnest opened place [] place
  | idle {opened : List Place} {place goal : Place} {name : String} {rest : List String} :
      isIdle name = true → Leads tree earnest opened place rest goal →
      Leads tree earnest opened place (name :: rest) goal
  | up {opened : List Place} {place goal : Place} {rest : List String} :
      (earnest = true → tree.isDirectoryAt place = true) →
      Leads tree earnest opened place.dropLast rest goal →
      Leads tree earnest opened place (".." :: rest) goal
  | jump {opened : List Place} {place middle goal : Place} {name target : String}
      {rest : List String} : isIdle name = false → name ≠ ".." →
      tree.get? (place ++ [name]) = some (.link target) → place ++ [name] ∉ opened →
      Leads tree earnest ((place ++ [name]) :: opened) (targetStart place target)
        (Text.splitString '/' target) middle →
      Leads tree earnest opened middle rest goal →
      Leads tree earnest opened place (name :: rest) goal
  | down {opened : List Place} {place goal : Place} {name : String} {rest : List String} :
      isIdle name = false → name ≠ ".." →
      (∀ target, tree.get? (place ++ [name]) ≠ some (.link target)) →
      Leads tree earnest opened (place ++ [name]) rest goal →
      Leads tree earnest opened place (name :: rest) goal

variable {tree : FileTree} {earnest : Bool}

/-! ### Steps of a walk -/

section Follow

variable (bound : Nat) (opened : List Place) (place : Place) (name : String) (rest : List String)

theorem follow_idle (h : isIdle name = true) :
    follow tree earnest (bound + 1) opened place (name :: rest) =
      follow tree earnest bound opened place rest := by
  rw [follow]
  exact if_pos h

theorem follow_up :
    follow tree earnest (bound + 1) opened place (".." :: rest) =
      if earnest && !tree.isDirectoryAt place then .lost
      else follow tree earnest bound opened place.dropLast rest := by
  rw [follow, if_neg (by decide), if_pos (by decide)]

variable {name} (hi : isIdle name = false) (hu : name ≠ "..")

include hi hu

theorem follow_jump {target : String} (hl : tree.get? (place ++ [name]) = some (.link target)) :
    follow tree earnest (bound + 1) opened place (name :: rest) =
      if opened.contains (place ++ [name]) then .circle (place ++ [name] ++ rest)
      else
        match follow tree earnest bound ((place ++ [name]) :: opened) (targetStart place target)
          (Text.splitString '/' target) with
        | .reached middle => follow tree earnest bound opened middle rest
        | .circle middle => .circle (middle ++ rest)
        | .lost => .lost := by
  rw [follow, if_neg (by simpa [isIdle] using hi), if_neg (by simpa using hu)]
  simp only [hl]
  rfl

theorem follow_down (hl : ∀ target, tree.get? (place ++ [name]) ≠ some (.link target)) :
    follow tree earnest (bound + 1) opened place (name :: rest) =
      follow tree earnest bound opened (place ++ [name]) rest := by
  rw [follow, if_neg (by simpa [isIdle] using hi), if_neg (by simpa using hu)]
  dsimp only
  split
  · next target ht => exact absurd ht (hl target)
  · rfl

end Follow

/-- A link or not. -/
theorem get?_link_or (tree : FileTree) (place : Place) :
    (∃ target, tree.get? place = some (.link target)) ∨
      ∀ target, tree.get? place ≠ some (.link target) := by
  by_cases h : ∃ target, tree.get? place = some (.link target)
  · exact .inl h
  · exact .inr fun target ht => h ⟨target, ht⟩

/-- A walk comes only to where the way leads. -/
theorem leads_of_follow {bound : Nat} {opened : List Place} {place goal : Place}
    {names : List String} (h : follow tree earnest bound opened place names = .reached goal) :
    Leads tree earnest opened place names goal := by
  -- induction on the bound: every step of the walk is a step of the way
  induction bound generalizing opened place goal names with
  | zero => simp [follow] at h
  | succ bound ih =>
      cases names with
      | nil =>
          obtain rfl := Walk.reached.inj h
          exact .done opened place
      | cons name rest =>
          cases hi : isIdle name with
          | true =>
              rw [follow_idle _ _ _ _ _ hi] at h
              exact .idle hi (ih h)
          | false =>
              by_cases hu : name = ".."
              · subst hu
                rw [follow_up] at h
                split at h
                · simp at h
                · next hdir =>
                  refine .up (fun he => ?_) (ih h)
                  simpa [he] using hdir
              · rcases get?_link_or tree (place ++ [name]) with ⟨target, hl⟩ | hl
                · rw [follow_jump _ _ _ _ hi hu hl] at h
                  split at h
                  · simp at h
                  · next ho =>
                    split at h
                    · next middle hm => exact .jump hi hu hl (by simpa using ho) (ih hm) (ih h)
                    · simp at h
                    · simp at h
                · rw [follow_down _ _ _ _ hi hu hl] at h
                  exact .down hi hu hl (ih h)

/-! ### The bound -/

/-- How many names a link holds, the link itself counting for one more. -/
def linkWeight : FileTree → Nat
  | .link target => (Text.splitString '/' target).length + 1
  | _ => 0

mutual

theorem sum_linkWeight (place : Place) :
    ∀ tree : FileTree, ((leavesBelow place tree).map (linkWeight ·.2)).sum = linkNames tree
  | .file _ => by simp [leavesBelow, linkNames, linkWeight]
  | .link _ => by simp [leavesBelow, linkNames, linkWeight]
  | .directory ms => by
      rw [leavesBelow, linkNames]
      exact sum_linkWeightOf place ms

theorem sum_linkWeightOf (place : Place) :
    ∀ ms : List (String × FileTree),
      ((leavesOf place ms).map (linkWeight ·.2)).sum = linkNamesOf ms
  | [] => by simp [leavesOf, linkNamesOf]
  | (name, member) :: rest => by
      rw [leavesOf, linkNamesOf, List.map_append, List.sum_append,
        sum_linkWeight (place ++ [name]) member, sum_linkWeightOf place rest]

end

/-- How many names a leaf holds, unless it is opened. -/
def closedWeight (opened : List Place) (leaf : Place × FileTree) : Nat :=
  if leaf.1 ∈ opened then 0 else linkWeight leaf.2

/-- How many names the links hold that are not opened. -/
def closedNames (tree : FileTree) (opened : List Place) : Nat :=
  (tree.leaves.map (closedWeight opened)).sum

theorem closedNames_nil (tree : FileTree) : closedNames tree [] = linkNames tree := by
  rw [← sum_linkWeight [] tree]
  rfl

theorem closedWeight_cons_le (place : Place) (opened : List Place) (leaf : Place × FileTree) :
    closedWeight (place :: opened) leaf ≤ closedWeight opened leaf := by
  rw [closedWeight, closedWeight]
  by_cases h : leaf.1 ∈ opened
  · simp [h]
  · rw [if_neg h]
    split <;> simp

/-- To open a link leaves fewer. -/
theorem closedNames_cons {opened : List Place} {place : Place} {target : String}
    (h : tree.get? place = some (.link target)) (ho : place ∉ opened) :
    closedNames tree (place :: opened) + ((Text.splitString '/' target).length + 1) ≤
      closedNames tree opened := by
  have hm : (place, FileTree.link target) ∈ tree.leaves :=
    mem_leavesBelow_of_get? (show IsLeaf (.link target) from trivial) h []
  rw [closedNames, closedNames]
  -- the opened link counts no more, and no other leaf counts more than before
  generalize tree.leaves = l at hm
  induction l with
  | nil => simp at hm
  | cons leaf l ih =>
      simp only [List.map_cons, List.sum_cons]
      rcases List.mem_cons.1 hm with rfl | hl
      · have hrest := List.sum_le_sum fun leaf (_ : leaf ∈ l) => closedWeight_cons_le place opened leaf
        have hold : closedWeight opened (place, FileTree.link target) =
            (Text.splitString '/' target).length + 1 := if_neg ho
        have hnew : closedWeight (place :: opened) (place, FileTree.link target) = 0 := by
          simp [closedWeight]
        omega
      · have hrest := ih hl
        have hleaf := closedWeight_cons_le place opened leaf
        omega

/-- With a bound that is great enough, a walk comes to where the way leads. -/
theorem follow_of_leads {opened : List Place} {place goal : Place} {names : List String}
    (h : Leads tree earnest opened place names goal) {bound : Nat}
    (hb : names.length + closedNames tree opened < bound) :
    follow tree earnest bound opened place names = .reached goal := by
  induction h generalizing bound with
  | done opened place =>
      obtain ⟨b, rfl⟩ := Nat.exists_eq_succ_of_ne_zero (Nat.ne_zero_of_lt hb)
      rfl
  | idle hi _ ih =>
      obtain ⟨b, rfl⟩ := Nat.exists_eq_succ_of_ne_zero (Nat.ne_zero_of_lt hb)
      rw [Nat.succ_eq_add_one, follow_idle _ _ _ _ _ hi]
      exact ih (by rw [List.length_cons] at hb; omega)
  | up hdir _ ih =>
      obtain ⟨b, rfl⟩ := Nat.exists_eq_succ_of_ne_zero (Nat.ne_zero_of_lt hb)
      rw [Nat.succ_eq_add_one, follow_up, if_neg]
      · exact ih (by rw [List.length_cons] at hb; omega)
      · cases earnest with
        | false => simp
        | true => simp [hdir rfl]
  | jump hi hu hl ho _ _ ih ih' =>
      obtain ⟨b, rfl⟩ := Nat.exists_eq_succ_of_ne_zero (Nat.ne_zero_of_lt hb)
      -- what the target adds to the names is less than what the opened link takes from the closed ones
      have hclosed := closedNames_cons hl ho
      rw [List.length_cons] at hb
      rw [Nat.succ_eq_add_one, follow_jump _ _ _ _ hi hu hl, if_neg (by simpa using ho),
        ih (by omega)]
      exact ih' (by omega)
  | down hi hu hl _ ih =>
      obtain ⟨b, rfl⟩ := Nat.exists_eq_succ_of_ne_zero (Nat.ne_zero_of_lt hb)
      rw [Nat.succ_eq_add_one, follow_down _ _ _ _ hi hu hl]
      exact ih (by rw [List.length_cons] at hb; omega)

/-- **A walk comes to where the way leads.** -/
theorem walk_eq_reached_iff {place goal : Place} :
    tree.walk earnest place = .reached goal ↔ Leads tree earnest [] [] place goal := by
  refine ⟨leads_of_follow, fun h => follow_of_leads h ?_⟩
  rw [closedNames_nil]
  omega

theorem reach?_eq_some_iff {place goal : Place} :
    tree.reach? place = some goal ↔ Leads tree true [] [] place goal := by
  rw [← walk_eq_reached_iff, reach?]
  split <;> simp_all

/-! ### Ways -/

/-- A way leads to one place only. -/
theorem Leads.unique {opened : List Place} {place goal goal' : Place} {names : List String}
    (h : Leads tree earnest opened place names goal)
    (h' : Leads tree earnest opened place names goal') : goal = goal' :=
  Walk.reached.inj ((follow_of_leads h (Nat.lt_succ_self _)).symm.trans
    (follow_of_leads h' (Nat.lt_succ_self _)))

/-- A way in two parts. -/
theorem leads_append_iff {opened : List Place} {place goal : Place} {names names' : List String} :
    Leads tree earnest opened place (names ++ names') goal ↔
      ∃ middle, Leads tree earnest opened place names middle ∧
        Leads tree earnest opened middle names' goal := by
  constructor
  · intro h
    induction names generalizing place with
    | nil => exact ⟨place, .done opened place, h⟩
    | cons name names ih =>
        rw [List.cons_append] at h
        cases h with
        | idle hi h =>
            obtain ⟨middle, h₁, h₂⟩ := ih h
            exact ⟨middle, .idle hi h₁, h₂⟩
        | up hdir h =>
            obtain ⟨middle, h₁, h₂⟩ := ih h
            exact ⟨middle, .up hdir h₁, h₂⟩
        | jump hi hu hl ho ht h =>
            obtain ⟨middle, h₁, h₂⟩ := ih h
            exact ⟨middle, .jump hi hu hl ho ht h₁, h₂⟩
        | down hi hu hl h =>
            obtain ⟨middle, h₁, h₂⟩ := ih h
            exact ⟨middle, .down hi hu hl h₁, h₂⟩
  · rintro ⟨middle, h₁, h₂⟩
    induction h₁ with
    | done opened place => exact h₂
    | idle hi _ ih => exact .idle hi (ih h₂)
    | up hdir _ ih => exact .up hdir (ih h₂)
    | jump hi hu hl ho ht _ _ ih => exact .jump hi hu hl ho ht (ih h₂)
    | down hi hu hl _ ih => exact .down hi hu hl (ih h₂)

/-- Not in earnest, a way leads to the same place. -/
theorem Leads.relaxed {opened : List Place} {place goal : Place} {names : List String}
    (h : Leads tree true opened place names goal) : Leads tree false opened place names goal := by
  induction h with
  | done opened place => exact .done opened place
  | idle hi _ ih => exact .idle hi ih
  | up _ _ ih => exact .up (by simp) ih
  | jump hi hu hl ho _ _ ih ih' => exact .jump hi hu hl ho ih ih'
  | down hi hu hl _ ih => exact .down hi hu hl ih

/-- A way in earnest that does not start in a directory goes straight on. -/
theorem Leads.start_cases {opened : List Place} {place goal : Place} {names : List String}
    (h : Leads tree true opened place names goal) :
    tree.isDirectoryAt place = true ∨ goal = place ++ names.filter fun n => !isIdle n := by
  induction h with
  | done opened place => exact .inr (by simp)
  | idle hi _ ih => simpa [hi] using ih
  | up hdir _ _ => exact .inl (hdir rfl)
  | jump hi hu hl ho _ _ _ _ =>
      exact .inl (isDirectoryAt_of_isSome (List.cons_ne_nil _ _)
        (Option.isSome_iff_exists.2 ⟨_, hl⟩))
  | down hi hu hl _ ih =>
      rcases ih with hdir | hgoal
      · exact .inl (isDirectoryAt_of_append hdir)
      · exact .inr (by simp [hgoal, hi])

theorem IsMemberName.isIdle_eq_false {name : String} (h : IsMemberName name) :
    isIdle name = false := by
  simp [isIdle, h.1, h.2.1]

/-- A way on which no links stand. -/
theorem leads_straight {names : List String} (hn : ∀ n ∈ names, IsMemberName n) {place : Place}
    (hl : ∀ rest target, tree.get? (place ++ rest) ≠ some (.link target)) (opened : List Place) :
    Leads tree earnest opened place names (place ++ names) := by
  induction names generalizing place with
  | nil =>
      rw [List.append_nil]
      exact .done opened place
  | cons name names ih =>
      obtain ⟨hname, hnames⟩ := List.forall_mem_cons.1 hn
      have hrest := ih hnames fun rest target => by
        rw [List.append_assoc place [name]]
        exact hl _ target
      rw [List.append_assoc, List.singleton_append] at hrest
      exact .down hname.isIdle_eq_false hname.2.2.1 (hl [name]) hrest

/-- The place that a way leads to is the one that it is resolved to. -/
theorem resolve_eq_ok {place goal : Place} (h : Leads tree true [] [] place goal)
    (hn : ∀ n ∈ place, '\x00' ∉ n.toList) : tree.resolve place = .ok goal := by
  have hany : (place.any fun name => name.toList.contains '\x00') = false := by
    rw [List.any_eq_false]
    intro n hm
    simpa using hn n hm
  rw [resolve, hany, walk_eq_reached_iff.2 h.relaxed]
  rfl

/-! ### Changes -/

/-- A change that touches no link and takes no directory away. -/
structure Keeps (tree tree' : FileTree) : Prop where
  link : ∀ place target,
    tree'.get? place = some (.link target) ↔ tree.get? place = some (.link target)
  directory : ∀ place, tree.isDirectoryAt place = true → tree'.isDirectoryAt place = true

namespace Keeps

theorem refl (tree : FileTree) : Keeps tree tree :=
  ⟨fun _ _ => Iff.rfl, fun _ h => h⟩

theorem trans {a b c : FileTree} (h : Keeps a b) (h' : Keeps b c) : Keeps a c :=
  ⟨fun place target => (h'.link place target).trans (h.link place target),
    fun place hd => h'.directory place (h.directory place hd)⟩

end Keeps

/-- A change that touches no link leaves all ways as they are. -/
theorem Leads.of_keeps {tree' : FileTree} (hk : Keeps tree tree') {opened : List Place}
    {place goal : Place} {names : List String} (h : Leads tree earnest opened place names goal) :
    Leads tree' earnest opened place names goal := by
  induction h with
  | done opened place => exact .done opened place
  | idle hi _ ih => exact .idle hi ih
  | up hdir _ ih => exact .up (fun he => hk.directory _ (hdir he)) ih
  | jump hi hu hl ho _ _ ih ih' => exact .jump hi hu ((hk.link _ _).2 hl) ho ih ih'
  | down hi hu hl _ ih => exact .down hi hu (fun target ht => hl target ((hk.link _ _).1 ht)) ih

theorem reach?_of_keeps {tree' : FileTree} (hk : Keeps tree tree') {place goal : Place}
    (h : tree.reach? place = some goal) : tree'.reach? place = some goal :=
  reach?_eq_some_iff.2 ((reach?_eq_some_iff.1 h).of_keeps hk)

end LuaAmbient.FileTree
