/-
**A relative import leads to what it imports.**

The way from a directory to a place goes up to the last common directory and down again, so it leads
to the place whatever the two are.  As a text it is a path of its own as long as something is below
the common directory.  Where the place is a directory on the way to the importing file, the text names
that directory and not the file beside it.

Main definitions:

* `LuaAmbient.SourcePath.IsRelative` — the path of a source that does not go up;
* `LuaAmbient.SourcePath.IsWordPath` — the path of a source whose names are words;
* `LuaAmbient.SourcePath.IsExplicit` — a path that starts at the directory itself or above it.

Main results:

* `LuaAmbient.SourcePath.resolve_append_relative` — the way from one place to another leads there;
* `LuaAmbient.SourcePath.importPath_resolves` — **what is imported is where its text leads to**;
* `LuaAmbient.SourcePath.importPath_explicit_iff` — **the text is an explicit path to a file exactly if
  what is imported is not named like a directory of the importing file**.
-/

import LuaAmbient.Proofs.SourcePath
import LuaAmbient.Text.Word
import Mathlib.Data.List.Induction

set_option relaxedAutoImplicit false
set_option autoImplicit false

namespace LuaAmbient.SourcePath

open LuaAmbient.Text
open LuaAmbient.FileTree (IsMemberName)

/-! ### Ways -/

theorem enter_here (place : List String) : enter place "." = place := by
  simp [enter]

theorem enter_of_isMemberName {name : String} (h : IsMemberName name) (place : List String) :
    enter place name = place ++ [name] := by
  obtain ⟨hempty, hdot, hup, -⟩ := h
  simp [enter, hempty, hdot, hup]

theorem enter_up {name : String} (h : IsMemberName name) (place : List String) :
    enter (place ++ [name]) ".." = place := by
  simp [enter, h.2.2.1]

/-- Names lead down. -/
theorem foldl_enter_of_isMemberName {names : List String} (h : ∀ s ∈ names, IsMemberName s)
    (place : List String) : names.foldl enter place = place ++ names := by
  induction names generalizing place with
  | nil => simp
  | cons name names ih =>
      rw [List.foldl_cons, enter_of_isMemberName (h name List.mem_cons_self),
        ih fun s hs => h s (List.mem_cons_of_mem name hs)]
      simp

theorem resolve_eq_self {names : List String} (h : ∀ s ∈ names, IsMemberName s) :
    resolve names = names :=
  foldl_enter_of_isMemberName h []

/-- As many steps up as there are names lead back. -/
theorem foldl_enter_up {names : List String} (h : ∀ s ∈ names, IsMemberName s)
    (place : List String) : (names.map fun _ => "..").foldl enter (place ++ names) = place := by
  rw [List.map_const']
  induction names using List.reverseRecOn with
  | nil => simp
  | append_singleton names name ih =>
      have hname : IsMemberName name := h name (by simp)
      rw [List.length_append, List.length_singleton, List.replicate_succ, List.foldl_cons,
        ← List.append_assoc, enter_up hname, ih fun s hs => h s (by simp [hs])]

/-- Two places are what they have in common and what is left of them. -/
theorem exists_dropCommon (as bs : List String) :
    ∃ common, as = common ++ (dropCommon as bs).1 ∧ bs = common ++ (dropCommon as bs).2 := by
  induction as generalizing bs with
  | nil => exact ⟨[], rfl, rfl⟩
  | cons a as ih =>
      cases bs with
      | nil => exact ⟨[], rfl, rfl⟩
      | cons b bs =>
          rw [dropCommon]
          split
          · next hab =>
            obtain rfl := eq_of_beq hab
            obtain ⟨common, has, hbs⟩ := ih bs
            exact ⟨a :: common, congrArg (a :: ·) has, congrArg (a :: ·) hbs⟩
          · exact ⟨[], rfl, rfl⟩

/-- Nothing is left of a place exactly if the other one lies below it. -/
theorem dropCommon_snd_eq_nil_iff {as bs : List String} :
    (dropCommon as bs).2 = [] ↔ bs <+: as := by
  induction as generalizing bs with
  | nil => simp [dropCommon]
  | cons a as ih =>
      cases bs with
      | nil => simp [dropCommon]
      | cons b bs =>
          rw [dropCommon, List.cons_prefix_cons]
          split
          · next hab =>
            rw [ih, eq_of_beq hab, eq_self, true_and]
          · next hab =>
            simp [Ne.symm (show a ≠ b by simpa using hab)]

/-- The way from one place to another goes up to what they have in common, and down again unless the
first place lies below the other one. -/
theorem exists_relative (start target : List String) : ∃ common up down,
    start = common ++ up ∧ target = common ++ down ∧
      relative start target = (up.map fun _ => "..") ++ down ∧ (down = [] ↔ target <+: start) := by
  obtain ⟨common, hup, hdown⟩ := exists_dropCommon start target
  exact ⟨common, _, _, hup, hdown, rfl, dropCommon_snd_eq_nil_iff⟩

/-- The way from one place to another leads there. -/
theorem resolve_append_relative {start target : List String} (hs : ∀ s ∈ start, IsMemberName s)
    (ht : ∀ s ∈ target, IsMemberName s) : resolve (start ++ relative start target) = target := by
  obtain ⟨common, up, down, rfl, rfl, hway, -⟩ := exists_relative start target
  have hups : ∀ s ∈ up, IsMemberName s := fun s h => hs s (List.mem_append_right common h)
  have hdowns : ∀ s ∈ down, IsMemberName s := fun s h => ht s (List.mem_append_right common h)
  rw [hway]
  calc resolve (common ++ up ++ ((up.map fun _ => "..") ++ down))
      = down.foldl enter ((up.map fun _ => "..").foldl enter (resolve (common ++ up))) := by
        rw [resolve, List.foldl_append, List.foldl_append, resolve]
    _ = down.foldl enter ((up.map fun _ => "..").foldl enter (common ++ up)) := by
        rw [resolve_eq_self hs]
    _ = down.foldl enter common := by rw [foldl_enter_up hups]
    _ = common ++ down := foldl_enter_of_isMemberName hdowns common

theorem mem_relative {start target : List String} {s : String} (h : s ∈ relative start target) :
    s = ".." ∨ s ∈ target := by
  obtain ⟨common, up, down, -, rfl, hway, -⟩ := exists_relative start target
  rw [hway, List.mem_append] at h
  rcases h with h | h
  · obtain ⟨-, -, rfl⟩ := List.mem_map.1 h
    exact .inl rfl
  · exact .inr (List.mem_append_right common h)

theorem relative_ne_nil {start target : List String} (h : ¬ target <+: start) :
    relative start target ≠ [] := by
  obtain ⟨common, up, down, -, -, hway, hnil⟩ := exists_relative start target
  rw [hway]
  exact List.append_ne_nil_of_right_ne_nil _ (mt hnil.1 h)

/-- The last name of the way is that of the place, unless the start lies below it. -/
theorem getLast?_relative {start target : List String} (h : ¬ target <+: start) :
    (relative start target).getLast? = target.getLast? := by
  obtain ⟨common, up, down, -, rfl, hway, hnil⟩ := exists_relative start target
  have hne : down ≠ [] := mt hnil.1 h
  rw [hway, List.getLast?_append_of_ne_nil _ hne, List.getLast?_append_of_ne_nil _ hne]

/-- The way to a place above only goes up. -/
theorem eq_up_of_mem_relative {start target : List String} (h : target <+: start) :
    ∀ s ∈ relative start target, s = ".." := by
  obtain ⟨common, up, down, -, -, hway, hnil⟩ := exists_relative start target
  rw [hway, hnil.2 h, List.append_nil]
  intro s hs
  obtain ⟨-, -, rfl⟩ := List.mem_map.1 hs
  rfl

/-! ### The text of a way -/

/-- The text of a way: a dot if it leads nowhere, and else its names, with a dot in front of them unless
the first one starts with a dot. -/
def wayText (way : List String) : String :=
  let text := if way.isEmpty then "." else joinWith "/" way
  if text.toList.head? == some '.' then text else "./" ++ text

theorem wayText_nil : wayText [] = "." := by
  decide

theorem wayText_of_ne_nil {way : List String} (h : way ≠ []) :
    wayText way = if (joinWith "/" way).toList.head? = some '.' then joinWith "/" way
      else "./" ++ joinWith "/" way := by
  have hempty : way.isEmpty = false := by simpa using h
  simp only [wayText, hempty, Bool.false_eq_true, if_false, beq_iff_eq]

/-- The names of a text are those of the way. -/
theorem splitString_wayText {way : List String} (hne : way ≠ []) (h : ∀ s ∈ way, '/' ∉ s.toList) :
    splitString '/' (wayText way) = way ∨ splitString '/' (wayText way) = "." :: way := by
  have hnames : splitString '/' (joinWith "/" way) = way := splitString_joinWith hne h
  rw [wayText_of_ne_nil hne]
  split
  · exact .inl hnames
  · have hsplit := splitString_append (show '/' ∉ ".".toList by decide) (joinWith "/" way)
    rw [hnames] at hsplit
    exact .inr hsplit

/-- The last name of a text is that of the way. -/
theorem getLast?_splitString_wayText {way : List String} (hne : way ≠ [])
    (h : ∀ s ∈ way, '/' ∉ s.toList) :
    (splitString '/' (wayText way)).getLast? = way.getLast? := by
  rcases splitString_wayText hne h with hnames | hnames
  · rw [hnames]
  · rw [hnames, ← List.singleton_append, List.getLast?_append_of_ne_nil _ hne]

/-- The text of a way that only goes up is made of dots. -/
theorem dots_of_mem_wayText {way : List String} (h : ∀ s ∈ way, s = "..") :
    ∀ s ∈ splitString '/' (wayText way), s = "." ∨ s = ".." := by
  by_cases hne : way = []
  · subst hne
    decide
  · have hslash : ∀ s ∈ way, '/' ∉ s.toList := by
      intro s hs
      rw [h s hs]
      decide
    rcases splitString_wayText hne hslash with hnames | hnames
    · rw [hnames]
      exact fun s hs => .inr (h s hs)
    · rw [hnames]
      intro s hs
      exact (List.mem_cons.1 hs).imp id (h s)

/-- The text leads where the way leads. -/
theorem resolve_append_wayText (place : List String) {way : List String}
    (h : ∀ s ∈ way, '/' ∉ s.toList) :
    resolve (place ++ splitString '/' (wayText way)) = resolve (place ++ way) := by
  by_cases hne : way = []
  · subst hne
    have hdot : splitString '/' "." = ["."] := by decide
    rw [wayText_nil, hdot, List.append_nil, resolve, List.foldl_append, List.foldl_cons,
      List.foldl_nil, enter_here, resolve]
  · rcases splitString_wayText hne h with hnames | hnames
    · rw [hnames]
    · rw [hnames, resolve, resolve, List.foldl_append, List.foldl_append, List.foldl_cons,
        enter_here]

/-! ### Paths that do not go up -/

/-- The path of a source: names that do not lead up, the last of which has the ending of sources behind
a name of its own. -/
structure IsRelative (path : String) : Prop where
  noBackslash : '\\' ∉ path.toList
  noColon : ':' ∉ path.toList
  names : ∀ s ∈ splitString '/' path, s ≠ "" ∧ s ≠ ".."
  last : ∃ stem, (splitString '/' path).getLast? = some (stem ++ sourceEnding) ∧
    stem ≠ "" ∧ stem ≠ "." ∧ stem ≠ ".."

/-- A path without drive and backslashes only loses its dots. -/
theorem segments_eq_filter {path : String} (hb : '\\' ∉ path.toList) (hc : ':' ∉ path.toList) :
    segments path = (splitString '/' path).filter fun p => !p.isEmpty && p != "." := by
  have hmap : (path.toList.map fun c => if c == '\\' then '/' else c) = path.toList := by
    refine (List.map_congr_left fun c h => ?_).trans (List.map_id path.toList)
    have hne : c ≠ '\\' := fun he => hb (he ▸ h)
    simp [hne]
  have hdrive : dropDrive path.toList = path.toList := by
    unfold dropDrive
    split
    · next h =>
      rw [h] at hc
      simp at hc
    · rfl
  rw [segments, hmap, hdrive, splitString]

/-- The name of a source is longer than a name of dots. -/
theorem append_sourceEnding_ne (stem : String) {s : String} (h : s.toList.length < 4) :
    stem ++ sourceEnding ≠ s := by
  rintro rfl
  have hlength : sourceEnding.toList.length = 4 := by decide
  rw [String.toList_append, List.length_append] at h
  omega

/-- The declaration file of a source stands in the directories of the source, and its place is named by
the source without its ending. -/
theorem IsRelative.exists_names {path : String} (h : IsRelative path) :
    ∃ init stem, splitString '/' path = init ++ [stem ++ sourceEnding] ∧
      directory path = (init.filter fun p => !p.isEmpty && p != ".") ∧
      splitString '/' (specifier path) = directory path ++ [stem] ∧
      ∀ s ∈ directory path ++ [stem], IsMemberName s := by
  obtain ⟨stem, hlast, hempty, hdot, hup⟩ := h.last
  obtain ⟨init, hsplit⟩ := List.getLast?_eq_some_iff.1 hlast
  refine ⟨init, stem, hsplit, ?_⟩
  have hkeep : (!(stem ++ sourceEnding).isEmpty && stem ++ sourceEnding != ".") = true := by
    simp [hempty, append_sourceEnding_ne stem (show ".".toList.length < 4 by decide)]
  have hsegments : segments path =
      (init.filter fun p => !p.isEmpty && p != ".") ++ [stem ++ sourceEnding] := by
    rw [segments_eq_filter h.noBackslash h.noColon, hsplit, List.filter_append]
    simp only [List.filter_cons, hkeep, if_true, List.filter_nil]
  have hinit : ∀ s ∈ init.filter fun p => !p.isEmpty && p != ".", IsMemberName s := by
    intro s hs
    obtain ⟨hs, hk⟩ := List.mem_filter.1 hs
    have hmem : s ∈ splitString '/' path := hsplit ▸ List.mem_append_left _ hs
    refine ⟨(h.names s hmem).1, ?_, (h.names s hmem).2, not_mem_of_mem_splitString hmem⟩
    rintro rfl
    simp at hk
  have hslash : '/' ∉ stem.toList := by
    have hmem : stem ++ sourceEnding ∈ splitString '/' path := by simp [hsplit]
    have hnot := not_mem_of_mem_splitString hmem
    rw [String.toList_append, List.mem_append, not_or] at hnot
    exact hnot.1
  generalize (init.filter fun p => !p.isEmpty && p != ".") = dirs at hsegments hinit ⊢
  have hspecifier : specifier path = joinWith "/" (dirs ++ [stem]) := by
    rw [specifier, normalize, hsegments, joinWith_concat_append, String.toList_append,
      dropSuffix_append, String.ofList_toList]
  -- neither the stem nor the name of the declaration file has another slash
  have hnames (ending : String) (hending : '/' ∉ ending.toList) :
      splitString '/' (joinWith "/" (dirs ++ [stem ++ ending])) = dirs ++ [stem ++ ending] := by
    refine splitString_joinWith (by simp) fun s hs => ?_
    rcases List.mem_append.1 hs with hs | hs
    · exact (hinit s hs).2.2.2
    · rw [List.mem_singleton.1 hs, String.toList_append, List.mem_append, not_or]
      exact ⟨hslash, hending⟩
  have hdirectory : directory path = dirs := by
    rw [directory, declaration, hspecifier, ← joinWith_concat_append, hnames _ (by decide),
      List.dropLast_concat]
  have hstem := hnames "" (by decide)
  rw [String.append_empty, ← hspecifier] at hstem
  rw [hdirectory]
  refine ⟨rfl, hstem, fun s hs => ?_⟩
  rcases List.mem_append.1 hs with hs | hs
  · exact hinit s hs
  · rw [List.mem_singleton.1 hs]
    exact ⟨hempty, hdot, hup, hslash⟩

theorem IsRelative.isMemberName_of_mem_directory {path : String} (h : IsRelative path) :
    ∀ s ∈ directory path, IsMemberName s := by
  obtain ⟨-, stem, -, -, -, hmembers⟩ := h.exists_names
  exact fun s hs => hmembers s (List.mem_append_left _ hs)

theorem IsRelative.isMemberName_of_mem_specifier {path : String} (h : IsRelative path) :
    ∀ s ∈ splitString '/' (specifier path), IsMemberName s := by
  obtain ⟨-, stem, -, -, hnames, hmembers⟩ := h.exists_names
  rwa [hnames]

/-! ### What an import leads to -/

/-- The way from the directory of a declaration file to the place of another one. -/
def importWay (consumer provider : String) : List String :=
  relative (directory consumer) (splitString '/' (specifier provider))

section Imports

variable {consumer provider : String} (hc : IsRelative consumer) (hp : IsRelative provider)

include hp

theorem not_mem_of_mem_importWay : ∀ s ∈ importWay consumer provider, '/' ∉ s.toList := by
  intro s hs
  rcases mem_relative hs with rfl | hs
  · decide
  · exact (hp.isMemberName_of_mem_specifier s hs).2.2.2

include hc

/-- One declaration file names another by the way to it. -/
theorem importPath_eq : importPath consumer provider = .ok (wayText (importWay consumer provider)) := by
  have hstart := resolve_eq_self hc.isMemberName_of_mem_directory
  have htarget := resolve_eq_self hp.isMemberName_of_mem_specifier
  have hne : (specifier provider).isEmpty = false := by
    rw [← Bool.not_eq_true, String.isEmpty_iff]
    intro hempty
    have hmember := hp.isMemberName_of_mem_specifier ""
    rw [hempty] at hmember
    exact (hmember (by decide)).1 rfl
  rw [importPath]
  simp only [hne, Bool.false_eq_true, if_false, hstart, htarget]
  rfl

/-- The text of the way leads to the place. -/
theorem resolve_wayText_importWay :
    joinWith "/" (resolve (directory consumer ++ splitString '/' (wayText
      (importWay consumer provider)))) = specifier provider := by
  have hplace : resolve (directory consumer ++ importWay consumer provider) =
      splitString '/' (specifier provider) :=
    resolve_append_relative hc.isMemberName_of_mem_directory hp.isMemberName_of_mem_specifier
  rw [resolve_append_wayText _ (not_mem_of_mem_importWay hp), hplace]
  exact joinWith_splitString '/' _

/-- **What is imported is where its text leads to.** -/
theorem importPath_resolves : ∃ text, importPath consumer provider = .ok text ∧
    joinWith "/" (resolve (directory consumer ++ splitString '/' text)) = specifier provider :=
  ⟨_, importPath_eq hc hp, resolve_wayText_importWay hc hp⟩

end Imports

/-- The way goes up and then down into a directory whose name starts with a dot. -/
theorem importPath_resolves_of_dots :
    IsRelative "ui/./main.lua" ∧ IsRelative ".theme/./dark.lua" ∧
      importPath "ui/./main.lua" ".theme/./dark.lua" = .ok "../.theme/dark" ∧
      joinWith "/" (resolve (directory "ui/./main.lua" ++ splitString '/' "../.theme/dark")) =
        ".theme/dark" := by
  have hc : IsRelative "ui/./main.lua" :=
    ⟨by decide, by decide, by decide, "main", by decide, by decide, by decide, by decide⟩
  have hp : IsRelative ".theme/./dark.lua" :=
    ⟨by decide, by decide, by decide, "dark", by decide, by decide, by decide, by decide⟩
  have hway : importPath "ui/./main.lua" ".theme/./dark.lua" = .ok "../.theme/dark" := by
    decide +kernel
  obtain ⟨text, htext, hleads⟩ := importPath_resolves hc hp
  obtain rfl : text = "../.theme/dark" := Except.ok.inj (htext.symm.trans hway)
  exact ⟨hc, hp, hway, hleads.trans (by decide +kernel)⟩

/-! ### Explicit paths -/

/-- A path that starts at the directory itself or at the one above it. -/
def IsExplicit (text : String) : Prop :=
  "./".toList <+: text.toList ∨ "../".toList <+: text.toList

/-- The path of a source that is made of words and slashes: no name is empty, and the ending of sources
stands behind the last one. -/
def IsWordPath (path : String) : Prop :=
  ∃ stem, path = stem ++ sourceEnding ∧ (∀ c ∈ stem.toList, isWord c = true ∨ c = '/') ∧
    "" ∉ splitString '/' stem

/-- A way that goes up and down again. -/
theorem isExplicit_wayText_up {rest : List String} (h : rest ≠ []) :
    IsExplicit (wayText (".." :: rest)) := by
  have hhead : (joinWith "/" (".." :: rest)).toList.head? = some '.' :=
    head?_toList_joinWith (by decide) _ _
  rw [wayText_of_ne_nil (List.cons_ne_nil _ _), if_pos hhead, joinWith_cons h]
  right
  rw [String.toList_append]
  exact List.prefix_append _ _

/-- A way that only goes down, into a place whose name does not start with a dot. -/
theorem isExplicit_wayText_down {name : String} (hne : name ≠ "")
    (hdot : name.toList.head? ≠ some '.') (rest : List String) :
    IsExplicit (wayText (name :: rest)) := by
  obtain ⟨c, hc⟩ : ∃ c, name.toList.head? = some c := by
    cases hs : name.toList with
    | nil => exact absurd hs (by simpa using hne)
    | cons c cs => exact ⟨c, rfl⟩
  have hhead : (joinWith "/" (name :: rest)).toList.head? ≠ some '.' := by
    rw [head?_toList_joinWith hc, ← hc]
    exact hdot
  rw [wayText_of_ne_nil (List.cons_ne_nil _ _), if_neg hhead]
  left
  rw [String.toList_append]
  exact List.prefix_append _ _

/-- The way to a place whose names do not start with dots is an explicit path, unless the start lies
below it. -/
theorem isExplicit_wayText_relative {start target : List String}
    (hnames : ∀ s ∈ target, s ≠ "" ∧ s.toList.head? ≠ some '.') (h : ¬ target <+: start) :
    IsExplicit (wayText (relative start target)) := by
  obtain ⟨common, up, down, -, rfl, hway, hnil⟩ := exists_relative start target
  have hne : down ≠ [] := mt hnil.1 h
  rw [hway]
  cases up with
  | nil =>
      obtain ⟨name, rest, rfl⟩ := List.exists_cons_of_ne_nil hne
      have hname := hnames name (by simp)
      exact isExplicit_wayText_down hname.1 hname.2 rest
  | cons name up => exact isExplicit_wayText_up (by simp [hne])

namespace IsWordPath

variable {path : String} (h : IsWordPath path)

include h

/-- The names of the path are words, and the last one has the ending of sources. -/
theorem exists_words : ∃ init last, splitString '/' path = init ++ [last ++ sourceEnding] ∧
    ∀ s ∈ init ++ [last], s ≠ "" ∧ ∀ c ∈ s.toList, isWord c = true := by
  obtain ⟨stem, rfl, hchars, hempty⟩ := h
  obtain ⟨init, last, hstem, hpath⟩ :=
    exists_splitString_append (show '/' ∉ sourceEnding.toList by decide) stem
  refine ⟨init, last, hpath, fun s hs => ?_⟩
  rw [← hstem] at hs
  refine ⟨fun he => hempty (he ▸ hs), fun c hc => ?_⟩
  refine (hchars c (mem_of_mem_splitString hs hc)).resolve_right ?_
  rintro rfl
  exact not_mem_of_mem_splitString hs hc

theorem not_mem {c : Char} (hword : isWord c = false) (hslash : c ≠ '/')
    (hending : c ∉ sourceEnding.toList) : c ∉ path.toList := by
  obtain ⟨stem, rfl, hchars, -⟩ := h
  rw [String.toList_append, List.mem_append, not_or]
  refine ⟨fun hc => ?_, hending⟩
  rcases hchars c hc with hc | hc
  · rw [hword] at hc
    exact absurd hc (by decide)
  · exact hslash hc

end IsWordPath

/-- A word does not start with a dot. -/
theorem head?_ne_dot {s : String} (h : ∀ c ∈ s.toList, isWord c = true) :
    s.toList.head? ≠ some '.' := by
  intro hdot
  have hword := h '.' (List.mem_of_mem_head? hdot)
  exact absurd hword (by decide)

theorem IsWordPath.isRelative {path : String} (h : IsWordPath path) : IsRelative path := by
  obtain ⟨init, last, hsplit, hwords⟩ := h.exists_words
  -- words are neither dots nor empty
  have hdots (s : String) (hs : s ∈ init ++ [last]) : s ≠ "" ∧ s ≠ "." ∧ s ≠ ".." := by
    obtain ⟨hne, hword⟩ := hwords s hs
    refine ⟨hne, ?_, ?_⟩
    · rintro rfl
      exact head?_ne_dot hword (by decide)
    · rintro rfl
      exact head?_ne_dot hword (by decide)
  refine ⟨h.not_mem (by decide) (by decide) (by decide), h.not_mem (by decide) (by decide) (by decide),
    fun s hs => ?_, last, ?_, hdots last (by simp)⟩
  · rw [hsplit] at hs
    rcases List.mem_append.1 hs with hs | hs
    · have hs' := hdots s (List.mem_append_left _ hs)
      exact ⟨hs'.1, hs'.2.2⟩
    · rw [List.mem_singleton.1 hs]
      exact ⟨append_sourceEnding_ne last (by decide), append_sourceEnding_ne last (by decide)⟩
  · rw [hsplit, List.getLast?_concat]

/-- The names of the place are words. -/
theorem IsWordPath.isWord_of_mem_specifier {path : String} (h : IsWordPath path) :
    ∀ s ∈ splitString '/' (specifier path), ∀ c ∈ s.toList, isWord c = true := by
  obtain ⟨init, last, hsplit, hwords⟩ := h.exists_words
  obtain ⟨init', last', hsplit', hdirectory, hnames, -⟩ := h.isRelative.exists_names
  obtain ⟨rfl, hlast⟩ := List.append_inj' (hsplit.symm.trans hsplit') rfl
  obtain rfl : last = last' := by
    have hchars := congrArg String.toList (List.singleton_injective hlast)
    rw [String.toList_append, String.toList_append] at hchars
    exact String.toList_inj.1 (List.append_cancel_right hchars)
  rw [hnames, hdirectory]
  intro s hs
  rcases List.mem_append.1 hs with hs | hs
  · exact (hwords s (List.mem_append_left _ (List.mem_of_mem_filter hs))).2
  · exact (hwords s (List.mem_append_right _ hs)).2

/-- **The text is an explicit path to a file exactly if what is imported is not named like a directory
of the importing file.**  Otherwise the text only names that directory. -/
theorem importPath_explicit_iff {consumer provider : String} (hc : IsWordPath consumer)
    (hp : IsWordPath provider) : ∃ text, importPath consumer provider = .ok text ∧
      (IsExplicit text ∧
        (splitString '/' text).getLast? = (splitString '/' (specifier provider)).getLast? ↔
        ¬ splitString '/' (specifier provider) <+: directory consumer) ∧
      (splitString '/' (specifier provider) <+: directory consumer →
        ∀ s ∈ splitString '/' text, s = "." ∨ s = "..") := by
  have hmembers := hp.isRelative.isMemberName_of_mem_specifier
  have hslash : ∀ s ∈ importWay consumer provider, '/' ∉ s.toList :=
    not_mem_of_mem_importWay hp.isRelative
  have hup (h : splitString '/' (specifier provider) <+: directory consumer) :
      ∀ s ∈ splitString '/' (wayText (importWay consumer provider)), s = "." ∨ s = ".." :=
    dots_of_mem_wayText (eq_up_of_mem_relative h)
  refine ⟨_, importPath_eq hc.isRelative hp.isRelative, ⟨?_, fun h => ⟨?_, ?_⟩⟩, hup⟩
  · rintro ⟨-, hlast⟩ hprefix
    -- the last name of the place is no dots
    have hsome := List.getLast?_eq_some_getLast (splitString_ne_nil '/' (specifier provider))
    have hdots := hup hprefix _ (List.mem_of_mem_getLast? (hlast.trans hsome))
    obtain ⟨-, hdot, hdots', -⟩ := hmembers _ (List.getLast_mem (splitString_ne_nil _ _))
    exact hdots.elim hdot hdots'
  · exact isExplicit_wayText_relative
      (fun s hs => ⟨(hmembers s hs).1, head?_ne_dot (hp.isWord_of_mem_specifier s hs)⟩) h
  · have hne : importWay consumer provider ≠ [] := relative_ne_nil h
    exact (getLast?_splitString_wayText hne hslash).trans (getLast?_relative h)

/-- What is imported is named like the directory of the importing file, and the text is a dot. -/
theorem importPath_explicit_iff_of_directory :
    IsWordPath "ui/Button.lua" ∧ IsWordPath "ui.lua" ∧
      importPath "ui/Button.lua" "ui.lua" = .ok "." ∧
      ¬ (IsExplicit "." ∧ (splitString '/' ".").getLast? = some "ui") := by
  have hc : IsWordPath "ui/Button.lua" := ⟨"ui/Button", by decide, by decide, by decide⟩
  have hp : IsWordPath "ui.lua" := ⟨"ui", by decide, by decide, by decide⟩
  have hway : importPath "ui/Button.lua" "ui.lua" = .ok "." := by decide +kernel
  have hplace : splitString '/' (specifier "ui.lua") = ["ui"] := by decide +kernel
  have hprefix : ["ui"] <+: directory "ui/Button.lua" := by decide +kernel
  obtain ⟨text, htext, hiff, -⟩ := importPath_explicit_iff hc hp
  obtain rfl : text = "." := Except.ok.inj (htext.symm.trans hway)
  rw [hplace] at hiff
  exact ⟨hc, hp, hway, fun h => hiff.1 h hprefix⟩

end LuaAmbient.SourcePath
