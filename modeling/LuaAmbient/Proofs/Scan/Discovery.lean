/-
**Which files a scan finds.**

A walk leaves directories out on its way, and a scan passes over what is ignored or not selected.  What
comes out is described file by file: a source is a regular file that stands at its place, whose name
ends like that of one, and whose directories are all entered.  The order in which directories are
listed does not show, since the sources are sorted by their paths and no two have the same path.

Main definitions:

* `LuaAmbient.Scan.IsSource` — a regular file that counts as a source;
* `LuaAmbient.Scan.Answers` — the ignore files of a tree say of every source whether it is ignored.

Main results:

* `LuaAmbient.Scan.walk_eq_filter_files` — a walk picks its sources out of the files of a tree;
* `LuaAmbient.Scan.mem_walk_iff` — **a walk finds the sources of a tree**;
* `LuaAmbient.Scan.mem_select_iff`, `LuaAmbient.Scan.increasing_select` — what is selected of them;
* `LuaAmbient.Scan.select_rearranged`, `LuaAmbient.Scan.ignoreFiles_rearranged` — the order of members
  does not show;
* `LuaAmbient.Scan.answers_of_predicate` — ignore files that stand for predicates have an answer;
* `LuaAmbient.Scan.finds_sources` — **a scan finds exactly the sources that are not ignored and
  selected, in the order of their paths and whatever the order of members is**.
-/

import LuaAmbient.Proofs.Except
import LuaAmbient.Proofs.FileTree.Listing
import LuaAmbient.Proofs.Scan.Stability
import LuaAmbient.Proofs.Text.Search
import LuaAmbient.Scan.Ignore

set_option relaxedAutoImplicit false
set_option autoImplicit false

namespace LuaAmbient.Scan

open FileTree

/-! ### Sources -/

/-- A regular file that counts as a source.  Only directories stand on the way to it, and none of them
is named like that of a tool or is the one at the output place, which is empty if there is none. -/
structure IsSource (output : Place) (tree : FileTree) (place : Place) (content : Content) : Prop where
  stands : tree.get? place = some (.file content)
  named : ∃ name ∈ place.getLast?, isSourceName name = true
  entered : ∀ above name below, place = above ++ name :: below → below ≠ [] →
    name ∉ toolDirectories ∧ above ++ [name] ≠ output

/-- Whether a walk that is at a place comes to a source by the names that are left. -/
def comesTo (output : Place) : Place → List String → Bool
  | _, [] => false
  | _, [name] => isSourceName name
  | place, name :: next :: rest =>
    entersDirectory output place name && comesTo output (place ++ [name]) (next :: rest)

theorem comesTo_cons (output place : Place) (name : String) {rest : List String} (h : rest ≠ []) :
    comesTo output place (name :: rest) =
      (entersDirectory output place name && comesTo output (place ++ [name]) rest) := by
  cases rest with
  | nil => exact absurd rfl h
  | cons next rest => rfl

theorem entersDirectory_iff {output place : Place} {name : String} :
    entersDirectory output place name = true ↔ name ∉ toolDirectories ∧ place ++ [name] ≠ output := by
  have hroot : output = [] → place ++ [name] ≠ output := by
    rintro rfl
    exact List.append_ne_nil_of_right_ne_nil _ (List.cons_ne_nil _ _)
  simp only [entersDirectory, Bool.and_eq_true, Bool.or_eq_true, Bool.not_eq_true',
    List.contains_eq_mem, decide_eq_false_iff_not, List.isEmpty_iff, bne_iff_ne]
  tauto

/-- The names that are left lead to a source if the last one is that of a source and the walk goes into
all others. -/
theorem comesTo_iff {output place : Place} {rest : List String} :
    comesTo output place rest = true ↔
      (∃ name ∈ rest.getLast?, isSourceName name = true) ∧
        ∀ above name below, rest = above ++ name :: below → below ≠ [] →
          entersDirectory output (place ++ above) name = true := by
  induction rest generalizing place with
  | nil => simp [comesTo]
  | cons first rest ih =>
      cases rest with
      | nil =>
          have hnone : ∀ above name below, [first] = above ++ name :: below → below ≠ [] →
              entersDirectory output (place ++ above) name = true := by
            intro above name below heq hne
            have hlength := congrArg List.length heq
            have hpos := List.length_pos_iff.2 hne
            simp only [List.length_append, List.length_cons, List.length_nil] at hlength
            omega
          rw [comesTo, and_iff_left hnone]
          simp
      | cons second rest =>
          rw [comesTo_cons output place first (List.cons_ne_nil second rest), Bool.and_eq_true, ih,
            List.getLast?_cons_cons]
          constructor
          · rintro ⟨hfirst, hlast, hrest⟩
            refine ⟨hlast, ?_⟩
            intro above name below heq hne
            cases above with
            | nil =>
                obtain ⟨rfl, -⟩ := List.cons.inj heq
                rwa [List.append_nil]
            | cons other above =>
                obtain ⟨rfl, htail⟩ := List.cons.inj heq
                have h := hrest above name below htail hne
                rwa [List.append_assoc, List.singleton_append] at h
          · rintro ⟨hlast, hall⟩
            refine ⟨?_, hlast, ?_⟩
            · have h := hall [] first (second :: rest) rfl (List.cons_ne_nil second rest)
              rwa [List.append_nil] at h
            · intro above name below heq hne
              rw [List.append_assoc, List.singleton_append]
              exact hall (first :: above) name below (congrArg (first :: ·) heq) hne

/-! ### The walk -/

/-- A source among the leaves below a place. -/
def source? (output place : Place) (leaf : Place × FileTree) : Option (Place × Content) :=
  if comesTo output place (leaf.1.drop place.length) then file? leaf else none

/-- What is left of a way behind a directory counts if the directory is entered. -/
theorem source?_of_below {output place rest : Place} {name next : String} {leaf : Place × FileTree}
    (h : leaf.1 = place ++ [name] ++ [next] ++ rest) :
    source? output place leaf =
      if entersDirectory output place name then source? output (place ++ [name]) leaf else none := by
  have hdrop : leaf.1.drop (place ++ [name]).length = next :: rest := by
    rw [h, List.append_assoc (place ++ [name]), List.drop_left, List.singleton_append]
  have hdrop' : leaf.1.drop place.length = name :: next :: rest := by
    rw [h, List.append_assoc, List.append_assoc, List.drop_left]
    rfl
  rw [source?, source?, hdrop, hdrop', comesTo]
  cases entersDirectory output place name with
  | false => rfl
  | true => rw [Bool.true_and, if_pos rfl]

/-- A walk picks the sources out of the leaves. -/
theorem walkMember_eq_filterMap (output : Place) {tree : FileTree} (h : WellNamed tree)
    (place : Place) (name : String) :
    walkMember output place name tree =
      (leavesBelow (place ++ [name]) tree).filterMap (source? output place) := by
  induction h generalizing place name with
  | file content =>
      rw [walkMember, leavesBelow, List.filterMap_cons, List.filterMap_nil, source?,
        List.drop_left, comesTo]
      split
      · rfl
      · rfl
  | link target =>
      rw [walkMember, leavesBelow, List.filterMap_cons, List.filterMap_nil, source?]
      split
      · next hnone => rfl
      · next f hf =>
        split at hf
        · exact absurd hf (by simp [file?, content?])
        · exact absurd hf (by simp)
  | @directory ms hn hk hm ih =>
      have hstep : ∀ m ∈ ms, ∀ leaf ∈ leavesBelow (place ++ [name] ++ [m.1]) m.2,
          source? output place leaf =
            if entersDirectory output place name then source? output (place ++ [name]) leaf
            else none := by
        intro m hmem leaf hleaf
        obtain ⟨rest, hplace, -⟩ := (hm m hmem).get?_of_mem_leavesBelow hleaf
        exact source?_of_below hplace
      rw [walkMember, leavesBelow, leavesOf_eq_flatMap, List.filterMap_flatMap, walk_eq_flatMap]
      cases henter : entersDirectory output place name with
      | true =>
          rw [if_pos rfl]
          refine List.flatMap_congr ?_
          intro m hmem
          rw [ih m hmem]
          refine List.filterMap_congr ?_
          intro leaf hleaf
          rw [hstep m hmem leaf hleaf, henter, if_pos rfl]
      | false =>
          rw [if_neg Bool.false_ne_true, eq_comm, List.flatMap_eq_nil_iff]
          intro m hmem
          rw [List.filterMap_eq_nil_iff]
          intro leaf hleaf
          rw [hstep m hmem leaf hleaf, henter, if_neg Bool.false_ne_true]

section Walk

variable {tree : FileTree} (h : WellNamed tree) {output : Place}

include h

/-- A walk picks its sources out of the files of a tree. -/
theorem walk_eq_filter_files :
    walk output [] tree.members = tree.files.filter fun f => comesTo output [] f.1 := by
  have hpick : tree.files.filter (fun f => comesTo output [] f.1) =
      tree.leaves.filterMap (source? output []) := by
    rw [files_eq_filterMap, List.filter_filterMap]
    refine List.filterMap_congr ?_
    intro leaf _
    rw [source?, List.length_nil, List.drop_zero]
    cases hf : file? leaf with
    | none => simp
    | some f =>
        rw [file?_eq_some_iff] at hf
        simp [hf, Option.filter]
  rw [hpick, leaves]
  cases h with
  | file content => rfl
  | link target => rfl
  | @directory ms hn hk hm =>
      rw [members, walk_eq_flatMap, leavesBelow, leavesOf_eq_flatMap, List.filterMap_flatMap]
      refine List.flatMap_congr ?_
      intro m hmem
      exact walkMember_eq_filterMap output (hm m hmem) [] m.1

/-- **A walk finds the sources of a tree.** -/
theorem mem_walk_iff {f : Place × Content} :
    f ∈ walk output [] tree.members ↔ IsSource output tree f.1 f.2 := by
  rw [walk_eq_filter_files h, List.mem_filter, h.mem_files_iff, comesTo_iff]
  simp only [List.nil_append, entersDirectory_iff]
  exact ⟨fun ⟨hstands, hnamed, hentered⟩ => ⟨hstands, hnamed, hentered⟩,
    fun hf => ⟨hf.stands, hf.named, hf.entered⟩⟩

end Walk

/-! ### Paths -/

section Paths

variable {tree : FileTree} (h : WellNamed tree)

include h

/-- Files with one path stand at one place. -/
theorem eq_of_joinWith_eq {p q : Place} (hp : p ∈ tree.files.map (·.1))
    (hq : q ∈ tree.files.map (·.1)) (hpne : p ≠ []) (hqne : q ≠ [])
    (heq : Text.joinWith "/" p = Text.joinWith "/" q) : p = q := by
  have hslash : ("/" : String) = String.singleton '/' := rfl
  have hparts {r : Place} (hr : r ∈ tree.files.map (·.1)) : ∀ n ∈ r, '/' ∉ n.toList := by
    intro n hn
    obtain ⟨f, hf, rfl⟩ := List.mem_map.1 hr
    exact (h.isMemberName_of_get? (h.mem_files_iff.1 hf) n hn).2.2.2
  rw [hslash] at heq
  rw [← Text.splitString_joinWith hpne (hparts hp), heq,
    Text.splitString_joinWith hqne (hparts hq)]

/-- Files that are picked out of a tree have different paths. -/
theorem nodup_paths {found : List (Place × Content)}
    (hfound : found.Sublist tree.files) (hne : ∀ f ∈ found, f.1 ≠ []) :
    (found.map fun f => Text.joinWith "/" f.1).Nodup := by
  have hplaces : (found.map (·.1)).Nodup := (hfound.map _).nodup h.nodup_files
  have hmem : ∀ p ∈ found.map (·.1), p ∈ tree.files.map (·.1) ∧ p ≠ [] := by
    intro p hp
    obtain ⟨f, hf, rfl⟩ := List.mem_map.1 hp
    exact ⟨List.mem_map_of_mem (hfound.subset hf), hne f hf⟩
  have hpaths : ((found.map (·.1)).map (Text.joinWith "/")).Nodup := by
    refine hplaces.map_on ?_
    intro p hp q hq heq
    exact eq_of_joinWith_eq h (hmem p hp).1 (hmem q hq).1 (hmem p hp).2 (hmem q hq).2 heq
  rwa [List.map_map] at hpaths

end Paths

/-! ### Selected sources -/

theorem isSelected_iff {included excluded : List String} {path : String} :
    isSelected included excluded path = true ↔
      (included = [] ∨ ∃ p ∈ included, Glob.isMatch p path = true) ∧
        ∀ p ∈ excluded, Glob.isMatch p path = false := by
  simp [isSelected, List.any_eq_true]

section Select

variable {tree tree' : FileTree} (h : WellNamed tree) (ignored : Place → Bool) (output : Place)
  (included excluded : List String)

/-- The sources that are not ignored and selected, with their paths, in the order of the walk. -/
def selection (tree : FileTree) : List (String × Content) :=
  (((walk output [] tree.members).filter fun f => !ignored f.1).map fun f =>
    (Text.joinWith "/" f.1, f.2)).filter fun f => isSelected included excluded f.1

theorem select_eq_sorted :
    select ignored output included excluded tree =
      Keyed.sorted (selection ignored output included excluded tree) := rfl

include h

theorem nodup_selection : (Keyed.keys (selection ignored output included excluded tree)).Nodup := by
  have hsub : ((walk output [] tree.members).filter fun f => !ignored f.1).Sublist tree.files := by
    rw [walk_eq_filter_files h]
    exact List.filter_sublist.trans List.filter_sublist
  have hpaths := nodup_paths h hsub fun f hf => by
    obtain ⟨name, hname, -⟩ := ((mem_walk_iff h).1 (List.mem_filter.1 hf).1).named
    rintro hnil
    simp [hnil] at hname
  refine (List.filter_sublist.map _).nodup ?_
  rwa [List.map_map]

theorem mem_select_iff {path : String} {content : Content} :
    (path, content) ∈ select ignored output included excluded tree ↔
      ∃ place, path = Text.joinWith "/" place ∧ IsSource output tree place content ∧
        ignored place = false ∧ isSelected included excluded path = true := by
  rw [select_eq_sorted, Keyed.mem_sorted, selection, List.mem_filter, List.mem_map]
  constructor
  · rintro ⟨⟨⟨place, content'⟩, hf, heq⟩, hselected⟩
    obtain ⟨rfl, rfl⟩ := Prod.mk.inj heq
    obtain ⟨hwalk, hkept⟩ := List.mem_filter.1 hf
    exact ⟨place, rfl, (mem_walk_iff h).1 hwalk, by simpa using hkept, hselected⟩
  · rintro ⟨place, rfl, hsource, hkept, hselected⟩
    refine ⟨⟨(place, content), List.mem_filter.2 ⟨(mem_walk_iff h).2 hsource, ?_⟩, rfl⟩, hselected⟩
    simp [hkept]

theorem increasing_select :
    (Keyed.keys (select ignored output included excluded tree)).Pairwise (· < ·) :=
  Keyed.sorted_increasing (nodup_selection h ignored output included excluded)

variable (hr : Rearranged tree tree')

include hr

theorem walk_perm : (walk output [] tree.members).Perm (walk output [] tree'.members) := by
  rw [walk_eq_filter_files h, walk_eq_filter_files (hr.wellNamed h)]
  exact hr.files_perm.filter _

theorem select_rearranged :
    select ignored output included excluded tree = select ignored output included excluded tree' := by
  rw [select_eq_sorted, select_eq_sorted]
  refine Keyed.sorted_congr (nodup_selection h ignored output included excluded) ?_
  exact (((walk_perm h output hr).filter _).map _).filter _

theorem ignoreFiles_rearranged (nested : Bool) :
    ignoreFiles nested tree = ignoreFiles nested tree' := by
  rw [ignoreFiles, ignoreFiles]
  refine congrArg _ (Keyed.sorted_congr ?_ ((hr.files_perm.filter _).map _))
  have hpaths := nodup_paths h (List.filter_sublist (l := tree.files)
    (p := fun f => f.1.getLast? == some ignoreName && (nested || f.1.length == 1))) fun f hf => by
      have hlast := (List.mem_filter.1 hf).2
      rintro hnil
      simp [hnil] at hlast
  rwa [Keyed.keys, List.map_map]

end Select

/-! ### Ignored places -/

/-- The ignore files of a tree can be read, and they say of every source whether it is ignored. -/
structure Answers (reader : IgnoreReader) (nested : Bool) (output : Place) (tree : FileTree)
    (ignored : Place → Bool) : Prop where
  decides : ∃ tests, ignoreTests reader (ignoreFiles nested tree) = .ok tests ∧
    ∀ place content, IsSource output tree place content →
      isIgnored tests place = .ok (ignored place)

/-- Whether an ignore file of a directory, of which a predicate says what it ignores, ignores a
place. -/
def ignoredBy (predicate : Content → String → Bool) (place : Place) (f : Place × Content) : Bool :=
  f.1.isPrefixOf place && predicate f.2 (Text.joinWith "/" (place.drop f.1.length))

theorem ignoredBelow_of_predicate (predicate : Content → String → Bool) (place : Place)
    (f : Place × Content) :
    ignoredBelow f.1 (fun path => .ok (predicate f.2 path)) place =
      .ok (ignoredBy predicate place f) := by
  rw [ignoredBelow, ignoredBy]
  cases f.1.isPrefixOf place with
  | false => rfl
  | true => rfl

/-- Tests that always have an answer are asked one after the other, and the first that ignores a place
decides. -/
theorem isIgnored_of_predicate (predicate : Content → String → Bool) (files : List (Place × Content))
    (place : Place) :
    isIgnored (files.map fun f => (f.1, fun path => .ok (predicate f.2 path))) place =
      .ok (files.any (ignoredBy predicate place)) := by
  induction files with
  | nil => rfl
  | cons f files ih =>
      rw [isIgnored] at ih ⊢
      rw [List.map_cons, List.anyM_cons, ignoredBelow_of_predicate, ih, List.any_cons]
      cases ignoredBy predicate place f with
      | false => rfl
      | true => rfl

/-- **Whatever predicate of paths an ignore file stands for, the ignore files of a tree have an
answer.** -/
theorem answers_of_predicate (predicate : Content → String → Bool) (nested : Bool) (output : Place)
    (tree : FileTree) :
    Answers (fun content => .ok fun path => .ok (predicate content path)) nested output tree
      (fun place => (ignoreFiles nested tree).any (ignoredBy predicate place)) where
  decides := by
    refine ⟨_, ?_, fun place content _ => isIgnored_of_predicate predicate _ place⟩
    induction ignoreFiles nested tree with
    | nil => rfl
    | cons f files ih =>
        rw [ignoreTests, List.mapM_cons] at *
        rw [ih]
        rfl

/-! ### Scans -/

section Scans

variable {tree : FileTree} (h : WellNamed tree) (ignored : Place → Bool) {reader : IgnoreReader}
  {output : Place} {nested : Bool}

include h

/-- What a scan selects if its ignore files have an answer. -/
theorem sources_eq_ok (ha : Answers reader nested output tree ignored)
    (included excluded : List String) :
    sources reader output nested included excluded tree =
      .ok (select ignored output included excluded tree) := by
  obtain ⟨tests, htests, hignored⟩ := ha.decides
  have hfilter : ((walk output [] tree.members).map (·.1)).filterM (isIgnored tests) =
      .ok (((walk output [] tree.members).map (·.1)).filter ignored) := by
    refine filterM_eq_ok ?_
    intro place hplace
    obtain ⟨f, hf, rfl⟩ := List.mem_map.1 hplace
    exact hignored f.1 f.2 ((mem_walk_iff h).1 hf)
  -- among the sources, those that have been found to be ignored are the ignored ones
  have hkept : (walk output [] tree.members).filter
        (fun f => !(((walk output [] tree.members).map (·.1)).filter ignored).contains f.1) =
      (walk output [] tree.members).filter fun f => !ignored f.1 := by
    refine List.filter_congr ?_
    intro f hf
    have hmem : f.1 ∈ (walk output [] tree.members).map (·.1) := List.mem_map_of_mem hf
    cases hi : ignored f.1 with
    | false => simp [hi]
    | true => simpa [hi] using ⟨f.2, hf⟩
  rw [sources, htests]
  change (((walk output [] tree.members).map (·.1)).filterM (isIgnored tests) >>= _) = _
  rw [hfilter]
  change Except.ok (select _ output included excluded tree) = _
  rw [select_eq_sorted, select_eq_sorted, selection, selection, hkept]

/-- The order of members does not change the answer. -/
theorem Answers.rearranged {tree' : FileTree} (ha : Answers reader nested output tree ignored)
    (hr : Rearranged tree tree') : Answers reader nested output tree' ignored where
  decides := by
    obtain ⟨tests, htests, hignored⟩ := ha.decides
    refine ⟨tests, by rwa [← ignoreFiles_rearranged h hr nested], ?_⟩
    intro place content hsource
    -- a source of the rearranged tree is one of the tree
    have hmem := (walk_perm h output hr).mem_iff.2
      ((mem_walk_iff (hr.wellNamed h) (f := (place, content))).2 hsource)
    exact hignored place content ((mem_walk_iff h).1 hmem)

/-- **A scan finds exactly the sources that are not ignored and selected**, whatever predicate says
which are ignored.  They come in the order of their paths, whatever the order of members is; and this
is what a scan of a project returns if its ignore files, whatever reads them, answer by the
predicate. -/
theorem finds_sources (outputDirectory : String) (included excluded : List String) :
    let found := select ignored (outputPlace outputDirectory) included excluded tree
    (Keyed.keys found).Pairwise (· < ·) ∧
      (∀ path content, (path, content) ∈ found ↔
        ∃ place, path = Text.joinWith "/" place ∧
          IsSource (outputPlace outputDirectory) tree place content ∧ ignored place = false ∧
          (included = [] ∨ ∃ p ∈ included, Glob.isMatch p path = true) ∧
          ∀ p ∈ excluded, Glob.isMatch p path = false) ∧
      (∀ tree', Rearranged tree tree' →
        select ignored (outputPlace outputDirectory) included excluded tree' = found) ∧
      ∀ reader nested, Answers reader nested (outputPlace outputDirectory) tree ignored →
        ∀ tree', Rearranged tree tree' →
          sources reader (outputPlace outputDirectory) nested included excluded tree' = .ok found := by
  intro found
  have hsame : ∀ tree', Rearranged tree tree' →
      select ignored (outputPlace outputDirectory) included excluded tree' = found :=
    fun tree' hr => (select_rearranged h ignored _ included excluded hr).symm
  refine ⟨increasing_select h _ _ _ _, ?_, hsame, ?_⟩
  · intro path content
    simp only [found, mem_select_iff h, isSelected_iff]
  · intro reader nested ha tree' hr
    rw [sources_eq_ok (hr.wellNamed h) ignored (ha.rearranged h ignored hr), hsame tree' hr]

end Scans

/-- A tree with links, a directory of a tool, one with output, another of that name, and a file that is
ignored. -/
def linkedTree : FileTree :=
  .directory [
    (".gitignore", .file (.text "skip*.lua\n")),
    ("b.lua", .file (.text "return 1\n")),
    ("notes.txt", .file (.text "")),
    ("skipped.lua", .file (.text "")),
    ("linked.lua", .link "b.lua"),
    ("linked", .link "pkg"),
    ("types", .directory [("b.lua", .file (.text ""))]),
    (".git", .directory [("hook.lua", .file (.text ""))]),
    ("pkg", .directory [
      ("z.lua", .file (.text "")),
      ("a.lua", .file (.text "return 2\n")),
      ("types", .directory [("c.lua", .file (.text "return 3\n"))])])]

theorem wellNamed_linkedTree : WellNamed linkedTree := by
  have hleaf : ∀ (name : String) (content : Content),
      ∀ m ∈ [(name, FileTree.file content)], WellNamed m.2 := by
    intro name content m hm
    rw [List.mem_singleton] at hm
    exact hm ▸ .file content
  have hpkg : WellNamed (.directory [
      ("z.lua", .file (.text "")),
      ("a.lua", .file (.text "return 2\n")),
      ("types", .directory [("c.lua", .file (.text "return 3\n"))])]) := by
    refine .directory (by decide) (by decide) ?_
    simp only [List.forall_mem_cons, List.not_mem_nil, false_imp_iff, implies_true, and_true]
    exact ⟨.file _, .file _, .directory (by decide) (by decide) (hleaf _ _)⟩
  refine .directory (by decide) (by decide) ?_
  simp only [List.forall_mem_cons, List.not_mem_nil, false_imp_iff, implies_true, and_true]
  exact ⟨.file _, .file _, .file _, .file _, .link _, .link _,
    .directory (by decide) (by decide) (hleaf _ _), .directory (by decide) (by decide) (hleaf _ _),
    hpkg⟩

theorem answers_linkedTree :
    Answers IgnoreRule.readTest true (outputPlace ".\\types/") linkedTree
      (· == ["skipped.lua"]) where
  decides := by
    obtain ⟨tests, htests, hall⟩ := exists_ok_of_toOption_map
      (e := ignoreTests IgnoreRule.readTest (ignoreFiles true linkedTree))
      (g := fun tests => (walk (outputPlace ".\\types/") [] linkedTree.members).all fun f =>
        (isIgnored tests f.1).toOption == some (f.1 == ["skipped.lua"]))
      (b := true) (by decide +kernel)
    refine ⟨tests, htests, ?_⟩
    intro place content hsource
    have hmem := (mem_walk_iff wellNamed_linkedTree (f := (place, content))).2 hsource
    exact eq_ok_of_toOption (beq_iff_eq.1 (List.all_eq_true.1 hall _ hmem))

/-- Of eight names that end like those of sources, five are left out. -/
theorem finds_sources_linkedTree :
    let found :=
      select (· == ["skipped.lua"]) (outputPlace ".\\types/") ["*"] ["*/z.lua"] linkedTree
    WellNamed linkedTree ∧
      Answers IgnoreRule.readTest true (outputPlace ".\\types/") linkedTree (· == ["skipped.lua"]) ∧
      Keyed.keys found = ["b.lua", "pkg/a.lua", "pkg/types/c.lua"] ∧
      (∀ path content, (path, content) ∈ found ↔
        ∃ place, path = Text.joinWith "/" place ∧
          IsSource (outputPlace ".\\types/") linkedTree place content ∧
          (place == ["skipped.lua"]) = false ∧
          (["*"] = [] ∨ ∃ p ∈ ["*"], Glob.isMatch p path = true) ∧
          ∀ p ∈ ["*/z.lua"], Glob.isMatch p path = false) ∧
      ∀ tree', Rearranged linkedTree tree' →
        sources IgnoreRule.readTest (outputPlace ".\\types/") true ["*"] ["*/z.lua"] tree' =
          .ok found := by
  intro found
  obtain ⟨-, hmem, -, hsources⟩ := finds_sources wellNamed_linkedTree (· == ["skipped.lua"])
    ".\\types/" ["*"] ["*/z.lua"]
  exact ⟨wellNamed_linkedTree, answers_linkedTree, by decide +kernel, hmem,
    hsources IgnoreRule.readTest true answers_linkedTree⟩

end LuaAmbient.Scan
