/-
**Comments are told apart by the statements below them.**

The comments of a chunk, in their order, are cut into runs, and each run is a block.  A statement has
the last of the blocks that end on the line above it.  The blocks that no statement has are orphans
unless they say nothing: whatever a comment says is said by the block of a statement or by an orphan,
and never by both.

Main definitions:

* `LuaAmbient.DocBlock.IsBelow`, `LuaAmbient.DocBlock.AreRuns` — adjacent comments, and the runs of a
  list of comments;
* `LuaAmbient.DocBlock.IsBlockOf` — the block of a run;
* `LuaAmbient.DocBlock.IsLastAbove`, `LuaAmbient.DocBlock.IsChosen` — the block of a statement among all
  blocks;
* `LuaAmbient.Attachment.Distributes` — how the comments of a chunk are told apart.

Main results:

* `LuaAmbient.DocBlock.areRuns_groups` — adjacent comments are grouped into runs;
* `LuaAmbient.DocBlock.placeAbove?_eq_some_iff` — the place that is found is that of the last block
  above a line;
* `LuaAmbient.DocBlock.forLine_cases` — the block of a line is the last one that ends above it;
* `LuaAmbient.DocBlock.orphans_eq` — the orphans are the blocks that are not chosen;
* `LuaAmbient.DocBlock.flatMap_directives_perm` — no directive is lost or said twice;
* `LuaAmbient.Attachment.distributes_of_ofChunk` — **an attachment tells the comments of its chunk
  apart**.
-/

import LuaAmbient.DocBlock
import LuaAmbient.Proofs.Except
import LuaAmbient.Proofs.NameSet
import Mathlib.Data.List.Chain
import Mathlib.Data.List.Induction

set_option relaxedAutoImplicit false
set_option autoImplicit false

namespace LuaAmbient

namespace DocBlock

/-! ### The order of comments -/

theorem precedes_iff {c d : Lua.Comment} :
    Lua.Comment.precedes c d = true ↔ c.line < d.line ∨ c.line = d.line ∧ c.endLine ≤ d.endLine := by
  simp [Lua.Comment.precedes]

theorem pairwise_sortBy_precedes (comments : List Lua.Comment) :
    (sortBy Lua.Comment.precedes comments).Pairwise fun c d =>
      c.line < d.line ∨ c.line = d.line ∧ c.endLine ≤ d.endLine := by
  refine (pairwise_sortBy (fun a b c => ?_) (fun a b => ?_) comments).imp precedes_iff.1
  · simp only [precedes_iff]
    omega
  · simp only [precedes_iff]
    omega

/-- Comments on the same lines stay in their order. -/
theorem filter_sortBy_precedes (line endLine : Int) (comments : List Lua.Comment) :
    (sortBy Lua.Comment.precedes comments).filter (fun c => c.line == line && c.endLine == endLine) =
      comments.filter fun c => c.line == line && c.endLine == endLine := by
  refine filter_sortBy (fun a b ha hb => ?_) comments
  simp only [Bool.and_eq_true, beq_iff_eq] at ha hb
  exact precedes_iff.2 (by omega)

/-! ### Runs of adjacent comments -/

/-- The second comment starts on the line below the first one. -/
def IsBelow (c d : Lua.Comment) : Prop :=
  d.line = c.endLine + 1

/-- The runs of a list of comments.  In a run each comment starts on the line below the one before it,
and no run goes on in the next one. -/
structure AreRuns (comments : List Lua.Comment) (runs : List (List Lua.Comment)) : Prop where
  flatten : runs.flatten = comments
  nonempty : [] ∉ runs
  adjacent : ∀ run ∈ runs, run.IsChain IsBelow
  apart : runs.IsChain fun run next => ∀ c ∈ run.getLast?, ∀ d ∈ next.head?, ¬ IsBelow c d

/-- One more comment in front goes on in the first run, or it is a run of its own. -/
theorem AreRuns.consGroup {comments : List Lua.Comment} {runs : List (List Lua.Comment)}
    (h : AreRuns comments runs) (c : Lua.Comment) :
    AreRuns (c :: comments) (DocBlock.consGroup c runs) := by
  obtain ⟨hflatten, hnonempty, hadjacent, hapart⟩ := h
  match runs with
  | [] =>
      obtain rfl : [] = comments := hflatten
      exact ⟨rfl, by simp [DocBlock.consGroup], by simp [DocBlock.consGroup], .singleton _⟩
  | [] :: gs => exact absurd List.mem_cons_self hnonempty
  | (d :: g) :: gs =>
      rw [DocBlock.consGroup]
      split
      · next hd =>
        have hbelow : IsBelow c d := by simpa [IsBelow] using hd
        obtain ⟨hdg, hgs⟩ := List.forall_mem_cons.1 hadjacent
        refine ⟨by rw [← hflatten]; rfl, by simpa using hnonempty, ?_, ?_⟩
        · exact List.forall_mem_cons.2 ⟨.cons_cons hbelow hdg, hgs⟩
        · -- The first run ends as it did.
          rw [List.isChain_cons] at hapart ⊢
          simpa only [List.getLast?_cons_cons] using hapart
      · next hd =>
        have hbelow : ¬ IsBelow c d := by simpa [IsBelow] using hd
        refine ⟨by rw [← hflatten]; rfl, by simpa using hnonempty, ?_, ?_⟩
        · exact List.forall_mem_cons.2 ⟨.singleton c, hadjacent⟩
        · exact .cons_cons (by simpa using hbelow) hapart

theorem areRuns_groups (comments : List Lua.Comment) : AreRuns comments (groups comments) := by
  induction comments with
  | nil => exact ⟨rfl, List.not_mem_nil, by simp [groups], .nil⟩
  | cons c comments ih => exact ih.consGroup c

/-- The block of a run: the directives of its lines, from its first line to its last one. -/
structure IsBlockOf (run : List Lua.Comment) (b : DocBlock) : Prop where
  directives : Directive.parseLines (run.flatMap commentLines) = .ok b.directives
  firstLine : run.head?.map (·.line) = some b.firstLine
  lastLine : run.getLast?.map (·.endLine) = some b.lastLine

theorem isBlockOf_of_ofGroup {run : List Lua.Comment} (hne : run ≠ []) {b : DocBlock}
    (h : ofGroup run = .ok b) : IsBlockOf run b := by
  obtain ⟨directives, hd, hb⟩ := bind_eq_ok h
  obtain ⟨c, hc⟩ := Option.ne_none_iff_exists'.1 (mt List.head?_eq_none_iff.1 hne)
  obtain ⟨d, hlast⟩ := Option.ne_none_iff_exists'.1 (mt List.getLast?_eq_none_iff.1 hne)
  rw [hc, hlast] at hb
  obtain rfl := Except.ok.inj hb
  exact ⟨hd, by rw [hc]; rfl, by rw [hlast]; rfl⟩

/-! ### The block of a statement -/

/-- The block in the given place is the last one that ends on the line above `line`. -/
def IsLastAbove (line : Int) (blocks : List DocBlock) (q : DocBlock × Nat) : Prop :=
  q.1.lastLine = line - 1 ∧ ∀ b ∈ blocks.drop (q.2 + 1), b.lastLine ≠ line - 1

instance (line : Int) (blocks : List DocBlock) (q : DocBlock × Nat) :
    Decidable (IsLastAbove line blocks q) :=
  inferInstanceAs (Decidable (_ ∧ _))

/-- The block in the given place belongs to a statement that starts on one of the given lines. -/
def IsChosen (starts : List Int) (blocks : List DocBlock) (q : DocBlock × Nat) : Prop :=
  ∃ line ∈ starts, IsLastAbove line blocks q

instance (starts : List Int) (blocks : List DocBlock) (q : DocBlock × Nat) :
    Decidable (IsChosen starts blocks q) :=
  inferInstanceAs (Decidable (∃ line ∈ starts, _))

theorem byLastLine_append (blocks : List DocBlock) (b : DocBlock) :
    byLastLine (blocks ++ [b]) = (b.lastLine, blocks.length) :: byLastLine blocks := by
  simp [byLastLine, List.zipIdx_append]

/-- One more block at the end takes the place of those that end on its line. -/
theorem placeAbove?_append (line : Int) (blocks : List DocBlock) (b : DocBlock) :
    placeAbove? line (blocks ++ [b]) =
      if b.lastLine = line - 1 then some blocks.length else placeAbove? line blocks := by
  rw [placeAbove?, byLastLine_append, List.lookup_cons]
  by_cases hb : b.lastLine = line - 1
  · rw [if_pos hb, hb, beq_self_eq_true]
  · rw [if_neg hb, beq_false_of_ne (Ne.symm hb)]
    rfl

theorem placeAbove?_eq_none_iff {line : Int} {blocks : List DocBlock} :
    placeAbove? line blocks = none ↔ ∀ b ∈ blocks, b.lastLine ≠ line - 1 := by
  induction blocks using List.reverseRecOn with
  | nil => exact ⟨fun _ b hb => absurd hb List.not_mem_nil, fun _ => rfl⟩
  | append_singleton blocks b ih =>
      rw [placeAbove?_append, List.forall_mem_append, List.forall_mem_singleton, ← ih]
      split
      · next hb => simp [hb]
      · next hb => simp [hb]

theorem lt_length_of_placeAbove? {line : Int} {blocks : List DocBlock} {place : Nat}
    (h : placeAbove? line blocks = some place) : place < blocks.length := by
  induction blocks using List.reverseRecOn with
  | nil => exact absurd h (by simp [placeAbove?, byLastLine])
  | append_singleton blocks b ih =>
      rw [placeAbove?_append] at h
      rw [List.length_append, List.length_singleton]
      split at h
      · exact Option.some.inj h ▸ Nat.lt_succ_self _
      · exact Nat.lt_succ_of_lt (ih h)

theorem mem_zipIdx_append {blocks : List DocBlock} {b : DocBlock} {q : DocBlock × Nat} :
    q ∈ (blocks ++ [b]).zipIdx ↔ q ∈ blocks.zipIdx ∨ q = (b, blocks.length) := by
  rw [List.zipIdx_append, List.mem_append, Nat.zero_add, List.zipIdx_singleton,
    List.mem_singleton]

/-- One more block at the end is above the line or leaves the last one above it what it was. -/
theorem isLastAbove_append {line : Int} {blocks : List DocBlock} {q : DocBlock × Nat}
    (hq : q.2 < blocks.length) (b : DocBlock) :
    IsLastAbove line (blocks ++ [b]) q ↔ IsLastAbove line blocks q ∧ b.lastLine ≠ line - 1 := by
  rw [IsLastAbove, IsLastAbove, List.drop_append_of_le_length hq, List.forall_mem_append,
    List.forall_mem_singleton, and_assoc]

/-- **The place that is found is that of the last block above the line.** -/
theorem placeAbove?_eq_some_iff {line : Int} {blocks : List DocBlock} {q : DocBlock × Nat}
    (hq : q ∈ blocks.zipIdx) : placeAbove? line blocks = some q.2 ↔ IsLastAbove line blocks q := by
  induction blocks using List.reverseRecOn with
  | nil => exact absurd hq List.not_mem_nil
  | append_singleton blocks b ih =>
      rw [placeAbove?_append]
      rcases mem_zipIdx_append.1 hq with hq | rfl
      · have hlt := (List.mem_zipIdx' hq).1
        rw [isLastAbove_append hlt, ← ih hq]
        split
        · next hb => simp [hb, (Nat.ne_of_lt hlt).symm]
        · next hb => simp [hb]
      · have hbehind : (blocks ++ [b]).drop (blocks.length + 1) = [] :=
          List.drop_eq_nil_of_le (by simp)
        split
        · next hb => simp [IsLastAbove, hb]
        · next hb =>
          refine iff_of_false (fun h => ?_) fun h => hb h.1
          exact absurd (lt_length_of_placeAbove? h) (Nat.lt_irrefl _)

/-- The block of a line is the last one that ends above it. -/
theorem forLine_cases (line : Int) (blocks : List DocBlock) :
    (∃ q ∈ blocks.zipIdx, IsLastAbove line blocks q ∧ forLine line blocks = q.1) ∨
      (∀ b ∈ blocks, b.lastLine ≠ line - 1) ∧ forLine line blocks = empty := by
  rw [forLine]
  cases hplace : placeAbove? line blocks with
  | none => exact .inr ⟨placeAbove?_eq_none_iff.1 hplace, rfl⟩
  | some place =>
      have hlt := lt_length_of_placeAbove? hplace
      have hq : (blocks[place], place) ∈ blocks.zipIdx :=
        List.mk_mem_zipIdx_iff_getElem?.2 (List.getElem?_eq_getElem hlt)
      exact .inl ⟨_, hq, (placeAbove?_eq_some_iff hq).1 hplace, (List.getElem_eq_getD empty).symm⟩

/-- The places that are used are those of the blocks that are chosen. -/
theorem mem_used_iff {starts : List Int} {blocks : List DocBlock} {q : DocBlock × Nat}
    (hq : q ∈ blocks.zipIdx) : q.2 ∈ used starts blocks ↔ IsChosen starts blocks q := by
  simp only [used, List.mem_filterMap, placeAbove?_eq_some_iff hq, IsChosen]

/-- The orphans are the blocks that say something and are not chosen. -/
theorem orphans_eq (starts : List Int) (blocks : List DocBlock) :
    orphans starts blocks = (blocks.zipIdx.filter fun q =>
      q.1.directives ≠ [] ∧ ¬ IsChosen starts blocks q).map Prod.fst := by
  rw [orphans]
  congr 1
  refine List.filter_congr fun q hq => ?_
  rw [Bool.eq_iff_iff]
  simp [mem_used_iff hq, and_comm]

/-- The directives of blocks are those of the blocks that have some. -/
theorem flatMap_directives_filter (l : List (DocBlock × Nat)) :
    (l.filter fun q => q.1.directives ≠ []).flatMap (fun q => q.1.directives) =
      l.flatMap fun q => q.1.directives := by
  rw [List.flatMap_def, List.flatMap_def, ← List.flatten_filter_ne_nil (L := l.map _),
    List.filter_map]
  rfl

/-- No directive is lost or said twice: those of all blocks are those of the chosen ones and those of
the orphans. -/
theorem flatMap_directives_perm (starts : List Int) (blocks : List DocBlock) :
    (blocks.flatMap (·.directives)).Perm
      (((blocks.zipIdx.filter fun q => IsChosen starts blocks q).map Prod.fst ++
        orphans starts blocks).flatMap (·.directives)) := by
  have horphans : (orphans starts blocks).flatMap (·.directives) =
      (blocks.zipIdx.filter fun q => !decide (IsChosen starts blocks q)).flatMap
        fun q => q.1.directives := by
    rw [orphans_eq, List.flatMap_map]
    conv_rhs => rw [← flatMap_directives_filter, List.filter_filter]
    simp only [Bool.decide_and, decide_not]
  have hall : blocks.flatMap (·.directives) = blocks.zipIdx.flatMap fun q => q.1.directives := by
    conv_lhs => rw [← List.zipIdx_map_fst 0 blocks, List.flatMap_map]
  rw [List.flatMap_append, horphans, List.flatMap_map, hall, ← List.flatMap_append]
  exact ((List.filter_append_perm _ _).flatMap_right _).symm

end DocBlock

/-! ### Attachments -/

open DocBlock

/-- How an attachment tells the comments of a chunk apart: in their order they are cut into runs, and
each run is a block.  A statement has the last block that ends on the line above it, or else the empty
one.  The orphans are the other blocks, in order, as far as they say something; so each directive is
said by one block that a statement has or by one orphan. -/
structure Attachment.Distributes (a : Attachment) (chunk : Lua.Chunk)
    (runs : List (List Lua.Comment)) (blocks : List DocBlock) : Prop where
  sorted : runs.flatten.Pairwise fun c d =>
    c.line < d.line ∨ c.line = d.line ∧ c.endLine ≤ d.endLine
  stable : ∀ line endLine,
    runs.flatten.filter (fun c => c.line == line && c.endLine == endLine) =
      chunk.comments.filter fun c => c.line == line && c.endLine == endLine
  cut : AreRuns runs.flatten runs
  read : List.Forall₂ IsBlockOf runs blocks
  statements : a.attached.map Prod.fst = chunk.body
  attached : ∀ p ∈ a.attached,
    (∃ q ∈ blocks.zipIdx, IsLastAbove p.1.span.startLine blocks q ∧ p.2 = q.1) ∨
      (∀ b ∈ blocks, b.lastLine ≠ p.1.span.startLine - 1) ∧ p.2 = DocBlock.empty
  orphaned : a.orphaned = (blocks.zipIdx.filter fun q => q.1.directives ≠ [] ∧
    ¬ IsChosen (chunk.body.map (·.span.startLine)) blocks q).map Prod.fst
  once : (blocks.flatMap (·.directives)).Perm
    (((blocks.zipIdx.filter fun q =>
      IsChosen (chunk.body.map (·.span.startLine)) blocks q).map Prod.fst ++
        a.orphaned).flatMap (·.directives))

/-- **An attachment tells the comments of its chunk apart.** -/
theorem Attachment.distributes_of_ofChunk {chunk : Lua.Chunk} {a : Attachment}
    (h : Attachment.ofChunk chunk = .ok a) : ∃ runs blocks, a.Distributes chunk runs blocks := by
  obtain ⟨blocks, hblocks, ha⟩ := bind_eq_ok h
  obtain rfl := Except.ok.inj ha
  have hruns := areRuns_groups (sortBy Lua.Comment.precedes chunk.comments)
  have hread : List.Forall₂ (fun run b => run ≠ [] ∧ ofGroup run = .ok b)
      (groups (sortBy Lua.Comment.precedes chunk.comments)) blocks :=
    (List.forall₂_and_left _ _).2
      ⟨fun run hrun hnil => hruns.nonempty (hnil ▸ hrun), mapM_eq_ok_iff.1 hblocks⟩
  exact ⟨groups (sortBy Lua.Comment.precedes chunk.comments), blocks, {
    sorted := by
      rw [hruns.flatten]
      exact pairwise_sortBy_precedes _
    stable := fun line endLine => by
      rw [hruns.flatten]
      exact filter_sortBy_precedes line endLine _
    cut := by rwa [hruns.flatten]
    read := hread.imp fun run b hb => isBlockOf_of_ofGroup hb.1 hb.2
    statements := by simp [Function.comp_def]
    attached := fun p hp => by
      obtain ⟨s, -, rfl⟩ := List.mem_map.1 hp
      exact forLine_cases _ _
    orphaned := orphans_eq _ _
    once := flatMap_directives_perm _ _ }⟩

/-- A comment of several lines next to comments on some of these lines, and two statements on the line
below them all. -/
def crowdedChunk : Lua.Chunk where
  body := [⟨⟨4, 1, 4, 9⟩, .return_ []⟩, ⟨⟨4, 10, 4, 20⟩, .other "break"⟩, ⟨⟨6, 1, 6, 5⟩, .return_ []⟩]
  comments := [⟨"---@class C", 3, 3⟩, ⟨"---@class B", 2, 2⟩, ⟨"--[[\n---text\n]]", 1, 3⟩,
    ⟨"---@class A", 1, 1⟩]

/-- Two blocks end above the statements, which both have the later one.  The other one is an orphan, as
is the block that ends above no statement. -/
theorem Attachment.distributes_of_crowdedChunk :
    ∃ a, Attachment.ofChunk crowdedChunk = .ok a ∧
      a.attached.map (fun p => (p.2.firstLine, p.2.lastLine)) = [(2, 3), (2, 3), (0, 0)] ∧
      a.orphaned = [⟨[⟨1, .classHeader ⟨"A", [], .none⟩⟩], 1, 1⟩, ⟨[⟨2, .comment "text"⟩], 1, 3⟩] ∧
      ∃ runs blocks, a.Distributes crowdedChunk runs blocks := by
  obtain ⟨a, ha, heq⟩ := exists_ok_of_toOption_map (e := Attachment.ofChunk crowdedChunk)
    (g := fun a => (a.attached.map fun p => (p.2.firstLine, p.2.lastLine), a.orphaned))
    (b := ([(2, 3), (2, 3), (0, 0)],
      [⟨[⟨1, .classHeader ⟨"A", [], .none⟩⟩], 1, 1⟩, ⟨[⟨2, .comment "text"⟩], 1, 3⟩]))
    (by decide +kernel)
  obtain ⟨hattached, horphaned⟩ := Prod.mk.inj heq
  exact ⟨a, ha, hattached, horphaned, Attachment.distributes_of_ofChunk ha⟩

end LuaAmbient
