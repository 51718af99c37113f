import Warehouse.Proofs.RangeIndex.Runs
import Warehouse.RangeIndex.Recovery

/-! # Making a log again

Recovery makes the changes of a log on the pages of a relation. Here that is a function on
images, and `replay_spec` says that it is what recovery does to a relation on which nobody
else acts. A page never loses changes: its log position only grows. Hence recovery may start
from pages of different ages, and `redoLog_restart` says that it ends with the same pages. -/

namespace Warehouse.RangeIndex

/-! ## Blocks that may be missing -/

namespace Image

variable {image : Image} {block other : BlockNumber} {page : Page}

/-- The page of a block. A block that is missing is one of zeros. -/
def pageAt (image : Image) (block : BlockNumber) : Page := (image.page? block).getD .zero

/-- Add pages of zeros until the block exists. -/
def reach (image : Image) (block : BlockNumber) : Image :=
  image ++ Array.replicate (block.toNat + 1 - image.size) .zero

theorem pageAt_of_page? (h : image.page? block = some page) : image.pageAt block = page := by
  rw [pageAt, h, Option.getD_some]

theorem pageAt_of_size_le (h : image.size ≤ block.toNat) : image.pageAt block = .zero := by
  rw [pageAt, page?_eq_none.mpr h, Option.getD_none]

theorem page?_of_lt (h : block.toNat < image.size) : image.page? block = some (image.pageAt block) := by
  obtain ⟨page, at'⟩ := exists_page? h
  rw [at', pageAt_of_page? at']

theorem size_reach (image : Image) (block : BlockNumber) :
    (image.reach block).size = max image.size (block.toNat + 1) := by
  rw [reach, Array.size_append, Array.size_replicate]
  omega

theorem pageAt_reach (image : Image) (block other : BlockNumber) :
    (image.reach block).pageAt other = image.pageAt other := by
  rw [pageAt, pageAt, page?, page?, reach, Array.getElem?_append]
  split
  · rfl
  · rename_i outside
    rw [Array.getElem?_eq_none (Nat.not_lt.mp outside), Array.getElem?_replicate]
    split
    · rfl
    · rfl

theorem pageAt_push_zero (image : Image) (block : BlockNumber) :
    Image.pageAt (image.push .zero) block = image.pageAt block := by
  rw [pageAt, pageAt, page?, page?, Array.getElem?_push]
  split
  · rename_i last
    rw [last, Array.getElem?_eq_none (Nat.le_refl _)]
    rfl
  · rfl

theorem reach_of_lt (h : block.toNat < image.size) : image.reach block = image := by
  have none : block.toNat + 1 - image.size = 0 := by omega
  rw [reach, none, Array.replicate_zero, Array.append_empty]

theorem reach_push (h : image.size ≤ block.toNat) : Image.reach (image.push .zero) block = image.reach block := by
  have next : block.toNat + 1 - image.size = 1 + (block.toNat + 1 - (image.size + 1)) := by omega
  rw [reach, reach, Array.size_push, next, ← Array.replicate_append_replicate, ← Array.append_assoc]
  rfl

theorem pageAt_put_same (h : block.toNat < image.size) : (image.put block page).pageAt block = page := by
  obtain ⟨before, at'⟩ := exists_page? h
  exact pageAt_of_page? (page?_put_same page at')

theorem pageAt_put_other (ne : other ≠ block) : (image.put block page).pageAt other = image.pageAt other := by
  rw [pageAt, page?_put_other ne, pageAt]

/-- Putting the page that is there changes nothing. -/
theorem put_pageAt (h : block.toNat < image.size) : image.put block (image.pageAt block) = image := by
  refine Array.ext_getElem? fun i => ?_
  rw [put, Array.getElem?_setIfInBounds]
  split
  · rename_i eq
    subst eq
    exact (page?_of_lt h).symm
  · rfl

/-- An image is given by its size and the pages of its blocks. -/
theorem ext_pageAt {after : Image} (small : image.size ≤ 2 ^ 32) (size : after.size = image.size)
    (same : ∀ block, after.pageAt block = image.pageAt block) : after = image := by
  refine ext_pages small size fun block => ?_
  by_cases inside : block.toNat < image.size
  · rw [page?_of_lt inside, page?_of_lt (size ▸ inside), same]
  · rw [page?_eq_none.mpr (Nat.not_lt.mp inside), page?_eq_none.mpr (size ▸ Nat.not_lt.mp inside)]

end Image

namespace Recovery

/-! ## Changes of images -/

/-- Make a change on a page that does not have it yet. -/
def redoPage (lsn : Lsn) (change : PageChange) (page : Page) : Option Page :=
  if lsn ≤ page.lsn then some page
  else
    match change.apply page with
    | (.ok (), page) => some (page.setLsn lsn)
    | (.error _, _) => none

/-- Make a change on the page of its block. -/
def redoAt (lsn : Lsn) (change : PageChange) (image : Image) : Option Image :=
  if change.block = invalidBlock then none
  else (redoPage lsn change (image.pageAt change.block)).map ((image.reach change.block).put change.block)

/-- Make changes one after the other. -/
def redoAll (lsn : Lsn) : List PageChange → Image → Option Image
  | [], image => some image
  | change :: rest, image => (redoAt lsn change image).bind (redoAll lsn rest)

/-- Make the changes of a log. -/
def redoLog (index : String) : List (Lsn × Log.Record) → Image → Option Image
  | [], image => some image
  | (lsn, record) :: rest, image => (redoAll lsn (changesOf index record) image).bind (redoLog index rest)

/-- How many pages there are at least when changes were made at blocks. -/
def spanOf (blocks : List BlockNumber) : Nat := blocks.foldr (fun block span => max (block.toNat + 1) span) 0

theorem spanOf_cons (block : BlockNumber) (blocks : List BlockNumber) :
    spanOf (block :: blocks) = max (block.toNat + 1) (spanOf blocks) := rfl

section Changes

variable {lsn : Lsn} {change : PageChange} {changes : List PageChange} {image after : Image} {page page' : Page}
  {block : BlockNumber}

/-- A page keeps the changes that it has, and gets the one that is made. -/
theorem le_lsn_of_redoPage (h : redoPage lsn change page = some page') : page.lsn ≤ page'.lsn ∧ lsn ≤ page'.lsn := by
  rw [redoPage] at h
  split at h
  · rename_i le
    obtain rfl := Option.some.inj h
    exact ⟨UInt64.le_refl _, le⟩
  · rename_i lt
    split at h
    · obtain rfl := Option.some.inj h
      rw [Page.lsn_setLsn]
      exact ⟨UInt64.le_of_lt (UInt64.not_le.mp lt), UInt64.le_refl _⟩
    · cases h

/-- A change is not made on a page that has it. -/
theorem redoPage_of_le (h : lsn ≤ page.lsn) : redoPage lsn change page = some page := by
  rw [redoPage, if_pos h]

/-- What a change at one block does. -/
theorem redoAt_spec (h : redoAt lsn change image = some after) : change.block ≠ invalidBlock ∧
    redoPage lsn change (image.pageAt change.block) = some (after.pageAt change.block) ∧
    (∀ block, block ≠ change.block → after.pageAt block = image.pageAt block) ∧
    after.size = max image.size (change.block.toNat + 1) := by
  rw [redoAt] at h
  split at h
  · cases h
  · rename_i valid
    obtain ⟨page, redone, rfl⟩ := Option.map_eq_some_iff.mp h
    have inside : change.block.toNat < (image.reach change.block).size := by
      rw [Image.size_reach]
      omega
    refine ⟨valid, ?_, fun block ne => ?_, ?_⟩
    · rw [Image.pageAt_put_same inside, redone]
    · rw [Image.pageAt_put_other ne, Image.pageAt_reach]
    · rw [Image.size_put, Image.size_reach]

theorem size_lt_of_redoAt (small : image.size < 2 ^ 32) (h : redoAt lsn change image = some after) :
    after.size < 2 ^ 32 := by
  obtain ⟨valid, -, -, size⟩ := redoAt_spec h
  have bound := change.block.toNat_lt
  have last : change.block.toNat ≠ 2 ^ 32 - 1 := fun eq => valid (UInt32.toNat_inj.mp eq)
  omega

theorem size_lt_of_redoAll (small : image.size < 2 ^ 32) (h : redoAll lsn changes image = some after) :
    after.size < 2 ^ 32 := by
  induction changes generalizing image with
  | nil => exact Option.some.inj h ▸ small
  | cons change changes ih =>
      obtain ⟨middle, first, rest⟩ := Option.bind_eq_some_iff.mp h
      exact ih (size_lt_of_redoAt small first) rest

theorem size_lt_of_redoLog {index : String} {records : List (Lsn × Log.Record)} (small : image.size < 2 ^ 32)
    (h : redoLog index records image = some after) : after.size < 2 ^ 32 := by
  induction records generalizing image with
  | nil => exact Option.some.inj h ▸ small
  | cons entry records ih =>
      obtain ⟨middle, first, rest⟩ := Option.bind_eq_some_iff.mp h
      exact ih (size_lt_of_redoAll small first) rest

/-- What changes at different blocks do. -/
structure Redone (lsn : Lsn) (changes : List PageChange) (image after : Image) : Prop where
  pages : ∀ change ∈ changes, change.block ≠ invalidBlock ∧
    redoPage lsn change (image.pageAt change.block) = some (after.pageAt change.block)
  others : ∀ block, block ∉ changes.map PageChange.block → after.pageAt block = image.pageAt block
  size : after.size = max image.size (spanOf (changes.map PageChange.block))

theorem redoAll_spec (nodup : (changes.map PageChange.block).Nodup) (h : redoAll lsn changes image = some after) :
    Redone lsn changes image after := by
  induction changes generalizing image with
  | nil =>
      obtain rfl := Option.some.inj h
      exact ⟨fun _ mem => absurd mem List.not_mem_nil, fun _ _ => rfl, (Nat.max_zero _).symm⟩
  | cons change changes ih =>
      rw [List.map_cons, List.nodup_cons] at nodup
      obtain ⟨middle, first, rest⟩ := Option.bind_eq_some_iff.mp h
      obtain ⟨valid, redone, others, size⟩ := redoAt_spec first
      have later := ih nodup.2 rest
      refine ⟨fun other mem => ?_, fun block absent => ?_, ?_⟩
      · rcases List.mem_cons.mp mem with rfl | mem
        · rw [later.others _ nodup.1]
          exact ⟨valid, redone⟩
        · have apart : other.block ≠ change.block := by
            intro eq
            exact nodup.1 (eq ▸ List.mem_map_of_mem mem)
          rw [← others _ apart]
          exact later.pages other mem
      · rw [List.map_cons, List.mem_cons, not_or] at absent
        rw [later.others block absent.2, others block absent.1]
      · rw [later.size, size, List.map_cons, spanOf_cons, Nat.max_assoc]

/-- Changes at different blocks are made if each of them can be made. -/
theorem exists_redoAll (nodup : (changes.map PageChange.block).Nodup)
    (possible : ∀ change ∈ changes, change.block ≠ invalidBlock ∧
      ∃ page, redoPage lsn change (image.pageAt change.block) = some page) :
    ∃ after, redoAll lsn changes image = some after := by
  induction changes generalizing image with
  | nil => exact ⟨image, rfl⟩
  | cons change changes ih =>
      rw [List.map_cons, List.nodup_cons] at nodup
      obtain ⟨valid, page, redone⟩ := possible change List.mem_cons_self
      have first : redoAt lsn change image = some ((image.reach change.block).put change.block page) := by
        rw [redoAt, if_neg valid, redone, Option.map_some]
      obtain ⟨-, -, others, -⟩ := redoAt_spec first
      obtain ⟨after, rest⟩ := ih nodup.2 fun other mem => by
        have apart : other.block ≠ change.block := by
          intro eq
          exact nodup.1 (eq ▸ List.mem_map_of_mem mem)
        rw [others _ apart]
        exact possible other (List.mem_cons_of_mem _ mem)
      exact ⟨after, by rw [redoAll, first, Option.bind_some, rest]⟩

end Changes

/-! ## Recovery on a relation -/

section Relations

variable {relation : Relation} {block : BlockNumber} {lsn : Lsn} {change : PageChange}

/-- The outcome of recovery on a relation is that on its image. -/
def Yields (relation : Relation) (outcome : Except Failure Unit × Relation) : Option Image → Prop
  | some image => outcome.1 = .ok () ∧ pagesOf outcome.2 = image ∧ outcome.2.interference = .none ∧
      outcome.2.name = relation.name
  | none => ∃ failure, outcome.1 = .error failure

theorem lt_blockCount_iff (small : relation.buffers.size < 2 ^ 32) :
    block < relation.blockCount ↔ block.toNat < relation.buffers.size := by
  rw [UInt32.lt_iff_toNat_lt, Relation.blockCount, UInt32.toNat_ofNat_of_lt' small]

/-- Go on with recovery unless it failed. -/
def goOn (outcome : Except Failure Unit × Relation) (rest : Relation → Except Failure Unit × Relation) :
    Except Failure Unit × Relation :=
  match outcome with
  | (.ok (), relation) => rest relation
  | (.error failure, relation) => (.error failure, relation)

theorem applyAll_cons (relation : Relation) (lsn : Lsn) (change : PageChange) (changes : List PageChange) :
    applyAll relation lsn (change :: changes) =
      goOn (applyAt relation lsn change) fun relation => applyAll relation lsn changes := rfl

theorem replay_cons (relation : Relation) (lsn : Lsn) (record : Log.Record) (records : List (Lsn × Log.Record)) :
    replay relation ((lsn, record) :: records) =
      goOn (applyAll relation lsn (changesOf relation.name record)) fun relation => replay relation records := rfl

theorem Yields.exists_after {outcome : Except Failure Unit × Relation} {image : Image}
    (h : Yields relation outcome (some image)) : ∃ after, outcome = (.ok (), after) ∧ pagesOf after = image ∧
      after.interference = .none ∧ after.name = relation.name :=
  ⟨outcome.2, Prod.ext h.1 rfl, h.2⟩

/-- Recovery does not go on after a failure. -/
theorem goOn_error {outcome : Except Failure Unit × Relation} {failure : Failure}
    (failed : outcome.1 = .error failure) (rest : Relation → Except Failure Unit × Relation) :
    (goOn outcome rest).1 = .error failure := by
  obtain ⟨result, after⟩ := outcome
  obtain rfl : result = .error failure := failed
  rfl

theorem goOn_goOn (outcome : Except Failure Unit × Relation) (rest last : Relation → Except Failure Unit × Relation) :
    goOn (goOn outcome rest) last = goOn outcome fun relation => goOn (rest relation) last := by
  obtain ⟨result, after⟩ := outcome
  cases result <;> rfl

theorem applyAll_append (relation : Relation) (lsn : Lsn) (front back : List PageChange) :
    applyAll relation lsn (front ++ back) =
      goOn (applyAll relation lsn front) fun relation => applyAll relation lsn back := by
  induction front generalizing relation with
  | nil => rfl
  | cons change front ih => rw [List.cons_append, applyAll_cons, applyAll_cons, goOn_goOn, funext ih]

/-- Recovery goes through a log part by part. -/
theorem replay_append (relation : Relation) (front back : List (Lsn × Log.Record)) :
    replay relation (front ++ back) = goOn (replay relation front) fun relation => replay relation back := by
  induction front generalizing relation with
  | nil => rfl
  | cons entry front ih =>
      obtain ⟨lsn, record⟩ := entry
      rw [List.cons_append, replay_cons, replay_cons, goOn_goOn, funext ih]

theorem Yields.next {outcome : Except Failure Unit × Relation} {image : Option Image}
    {rest : Relation → Except Failure Unit × Relation} {next : Image → Option Image}
    (h : Yields relation outcome image)
    (h' : ∀ after, image = some (pagesOf after) → after.interference = .none → after.name = relation.name →
      Yields after (rest after) (next (pagesOf after))) :
    Yields relation (goOn outcome rest) (image.bind next) := by
  obtain ⟨result, after⟩ := outcome
  cases image with
  | none =>
      obtain ⟨failure, eq⟩ := h
      obtain rfl : result = .error failure := eq
      exact ⟨failure, rfl⟩
  | some image =>
      obtain ⟨eq, rfl, alone, name⟩ := h
      obtain rfl : result = .ok () := eq
      have follows := h' after rfl alone name
      rw [Option.bind_some]
      cases later : next (pagesOf after) with
      | none =>
          rw [later] at follows
          exact follows
      | some image =>
          rw [later] at follows
          obtain ⟨done, pages, alone', name'⟩ := follows
          exact ⟨done, pages, alone', name'.trans name⟩

theorem growTo_spec {rounds : Nat} (alone : relation.interference = .none) (small : relation.buffers.size < 2 ^ 32)
    (valid : block ≠ invalidBlock) (enough : block.toNat + 1 - relation.buffers.size < rounds) :
    Yields relation (relation.growTo block rounds) (some ((pagesOf relation).reach block)) := by
  have bound := block.toNat_lt
  have last : block.toNat ≠ 2 ^ 32 - 1 := fun eq => valid (UInt32.toNat_inj.mp eq)
  induction rounds generalizing relation with
  | zero => exact absurd enough (Nat.not_lt_zero _)
  | succ rounds ih =>
      rw [Relation.growTo]
      by_cases inside : block.toNat < relation.buffers.size
      · rw [if_pos ((lt_blockCount_iff small).mpr inside), Image.reach_of_lt (by rwa [size_pagesOf])]
        exact ⟨rfl, rfl, alone, rfl⟩
      · have outside : (pagesOf relation).size ≤ block.toNat := by
          rw [size_pagesOf]
          exact Nat.not_lt.mp inside
        have size : relation.grow.buffers.size = relation.buffers.size + 1 := Array.size_push _
        rw [if_neg (fun lt => inside ((lt_blockCount_iff small).mp lt)), allocate_alone alone small]
        rw [← Image.reach_push outside, ← pagesOf_grow]
        exact ih alone (by omega) (by omega)

/-- The number that stands for no block is never reached. -/
theorem growTo_invalid (relation : Relation) (rounds : Nat) :
    ∃ failure, (relation.growTo invalidBlock rounds).1 = .error failure := by
  induction rounds generalizing relation with
  | zero => exact ⟨_, rfl⟩
  | succ rounds ih =>
      have never : ¬ invalidBlock < relation.blockCount := by
        rw [UInt32.not_lt, UInt32.le_iff_toNat_le]
        exact Nat.le_of_lt_succ relation.blockCount.toNat_lt
      rw [Relation.growTo, if_neg never]
      split
      · exact ⟨_, rfl⟩
      · exact ih _

theorem readExtending_spec (alone : relation.interference = .none) (small : relation.buffers.size < 2 ^ 32)
    (valid : block ≠ invalidBlock) :
    Yields relation (relation.readExtending block) (some ((pagesOf relation).reach block)) := by
  have grown := growTo_spec alone small valid (show block.toNat + 1 - relation.buffers.size < block.toNat + 2 by omega)
  rw [Relation.readExtending]
  cases eq : relation.growTo block (block.toNat + 2) with
  | mk outcome after =>
      rw [eq] at grown
      obtain ⟨rfl, pages, alone', name⟩ := grown
      have present : block.toNat < (pagesOf after).size := by
        rw [pages, Image.size_reach]
        omega
      simp only [read_alone alone' block, Image.page?_of_lt present]
      exact ⟨rfl, pages, alone', name⟩

/-- The number that stands for no block cannot be read. -/
theorem readExtending_invalid (relation : Relation) :
    ∃ failure, (relation.readExtending invalidBlock).1 = .error failure := by
  obtain ⟨failure, failed⟩ := growTo_invalid relation (invalidBlock.toNat + 2)
  rw [Relation.readExtending]
  cases eq : relation.growTo invalidBlock (invalidBlock.toNat + 2) with
  | mk outcome after =>
      rw [eq] at failed
      obtain rfl : outcome = .error failure := failed
      exact ⟨failure, rfl⟩

/-- The page that a change is made on, once the relation has it. -/
theorem exists_readExtending (alone : relation.interference = .none) (small : relation.buffers.size < 2 ^ 32)
    (valid : block ≠ invalidBlock) : ∃ after, relation.readExtending block = (.ok (), after) ∧
      pagesOf after = (pagesOf relation).reach block ∧ after.interference = .none ∧ after.name = relation.name ∧
      after.page? block = some ((pagesOf relation).pageAt block) := by
  have read := readExtending_spec alone small valid
  cases eq : relation.readExtending block with
  | mk outcome after =>
      rw [eq] at read
      obtain ⟨rfl, pages, alone', name⟩ := read
      have present : block.toNat < (pagesOf after).size := by
        rw [pages, Image.size_reach]
        omega
      refine ⟨after, rfl, pages, alone', name, ?_⟩
      rw [← page?_pagesOf, Image.page?_of_lt present, pages, Image.pageAt_reach]

theorem applyAt_spec (alone : relation.interference = .none) (small : relation.buffers.size < 2 ^ 32) :
    Yields relation (applyAt relation lsn change) (redoAt lsn change (pagesOf relation)) := by
  rw [redoAt, applyAt]
  by_cases valid : change.block = invalidBlock
  · rw [if_pos valid, valid]
    obtain ⟨failure, failed⟩ := readExtending_invalid relation
    cases eq : relation.readExtending invalidBlock with
    | mk outcome after =>
        rw [eq] at failed
        obtain rfl : outcome = .error failure := failed
        exact ⟨failure, rfl⟩
  · obtain ⟨after, read, pages, alone', name, at'⟩ := exists_readExtending alone small valid
    have present : change.block.toNat < (pagesOf after).size := by
      rw [pages, Image.size_reach]
      omega
    simp only [if_neg valid, read, at', redoPage]
    split
    · rw [Option.map_some, ← pages, ← Image.pageAt_reach _ change.block, ← pages, Image.put_pageAt present]
      exact ⟨rfl, rfl, alone', name⟩
    · cases applied : change.apply ((pagesOf relation).pageAt change.block) with
      | mk result page =>
          cases result with
          | error failure => exact ⟨failure, rfl⟩
          | ok =>
              refine ⟨rfl, ?_, alone', name⟩
              rw [pagesOf_markDirty, pagesOf_setPage, pages]

/-- Recovery reports why a change cannot be made on a page that does not have it. -/
theorem applyAt_refused {failure : Failure} (alone : relation.interference = .none)
    (small : relation.buffers.size < 2 ^ 32) (valid : change.block ≠ invalidBlock)
    (older : ¬ lsn ≤ ((pagesOf relation).pageAt change.block).lsn)
    (refused : (change.apply ((pagesOf relation).pageAt change.block)).1 = .error failure) :
    (applyAt relation lsn change).1 = .error failure := by
  obtain ⟨after, read, -, -, -, at'⟩ := exists_readExtending alone small valid
  simp only [applyAt, read, at', if_neg older]
  cases applied : change.apply ((pagesOf relation).pageAt change.block) with
  | mk result page =>
      rw [applied] at refused
      obtain rfl : result = .error failure := refused
      rfl

theorem applyAll_spec {changes : List PageChange} (alone : relation.interference = .none)
    (small : relation.buffers.size < 2 ^ 32) :
    Yields relation (applyAll relation lsn changes) (redoAll lsn changes (pagesOf relation)) := by
  induction changes generalizing relation with
  | nil => exact ⟨rfl, rfl, alone, rfl⟩
  | cons change changes ih =>
      rw [applyAll_cons]
      exact (applyAt_spec alone small).next fun after eq alone' name =>
        ih alone' (by rw [← size_pagesOf]; exact size_lt_of_redoAt (by rwa [size_pagesOf]) eq)

/-- Recovery on a relation does to its pages what making the changes of the log does. -/
theorem replay_spec {records : List (Lsn × Log.Record)} (alone : relation.interference = .none)
    (small : relation.buffers.size < 2 ^ 32) :
    Yields relation (replay relation records) (redoLog relation.name records (pagesOf relation)) := by
  induction records generalizing relation with
  | nil => exact ⟨rfl, rfl, alone, rfl⟩
  | cons entry records ih =>
      obtain ⟨lsn, record⟩ := entry
      rw [replay_cons]
      refine (applyAll_spec alone small).next fun after eq alone' name => ?_
      have small' : after.buffers.size < 2 ^ 32 := by
        rw [← size_pagesOf]
        exact size_lt_of_redoAll (by rwa [size_pagesOf]) eq
      have := ih alone' small'
      rwa [name] at this

end Relations

/-! ## Starting again from pages of different ages -/

section Restarts

variable {index : String} {lsn : Lsn} {records prior later : List (Lsn × Log.Record)} {image start final : Image}
  {block : BlockNumber} {page : Page}

/-- Every record changes different pages. -/
def Apart (index : String) (records : List (Lsn × Log.Record)) : Prop :=
  ∀ entry ∈ records, ((changesOf index entry.2).map PageChange.block).Nodup

/-- How many pages there are at least after the changes of a log. -/
def spanOfLog (index : String) (records : List (Lsn × Log.Record)) : Nat :=
  records.foldr (fun entry span => max (spanOf ((changesOf index entry.2).map PageChange.block)) span) 0

/-- The page of the block is as it is before or after some record of the log. -/
inductive Aged (index : String) (block : BlockNumber) : List (Lsn × Log.Record) → Image → Page → Prop
  | here {records : List (Lsn × Log.Record)} {image : Image} : Aged index block records image (image.pageAt block)
  | later {lsn : Lsn} {record : Log.Record} {records : List (Lsn × Log.Record)} {image after : Image} {page : Page}
      (redone : redoAll lsn (changesOf index record) image = some after) (aged : Aged index block records after page) :
      Aged index block ((lsn, record) :: records) image page

theorem redoLog_append :
    redoLog index (prior ++ later) image = (redoLog index prior image).bind (redoLog index later) := by
  induction prior generalizing image with
  | nil => rfl
  | cons entry prior ih =>
      obtain ⟨lsn, record⟩ := entry
      rw [List.cons_append, redoLog, redoLog, Option.bind_assoc]
      exact congrArg _ (funext fun middle => ih)

/-- The pages after the first records of a log are pages of the log. -/
theorem aged_of_redoLog (h : redoLog index prior image = some final) :
    Aged index block (prior ++ later) image (final.pageAt block) := by
  induction prior generalizing image with
  | nil =>
      obtain rfl := Option.some.inj h
      exact .here
  | cons entry prior ih =>
      obtain ⟨lsn, record⟩ := entry
      obtain ⟨middle, first, rest⟩ := Option.bind_eq_some_iff.mp h
      exact .later first (ih rest)

/-- A page loses no change. -/
theorem lsn_le_redone {changes : List PageChange} (redone : Redone lsn changes image final) (block : BlockNumber) :
    (image.pageAt block).lsn ≤ (final.pageAt block).lsn := by
  by_cases mem : block ∈ changes.map PageChange.block
  · obtain ⟨change, here, rfl⟩ := List.mem_map.mp mem
    exact (le_lsn_of_redoPage (redone.pages change here).2).1
  · rw [redone.others block mem]
    exact UInt64.le_refl _

theorem Aged.lsn_le (aged : Aged index block records image page) (apart : Apart index records) :
    (image.pageAt block).lsn ≤ page.lsn := by
  induction aged with
  | here => exact UInt64.le_refl _
  | later redone aged ih =>
      have first := redoAll_spec (apart _ List.mem_cons_self) redone
      exact UInt64.le_trans (lsn_le_redone first block) (ih fun entry mem => apart entry (List.mem_cons_of_mem _ mem))

theorem Aged.nil_eq (aged : Aged index block [] image page) : page = image.pageAt block := by
  cases aged
  rfl

theorem Aged.cons_cases {record : Log.Record} (aged : Aged index block ((lsn, record) :: records) image page) :
    page = image.pageAt block ∨
      ∃ after, redoAll lsn (changesOf index record) image = some after ∧ Aged index block records after page := by
  cases aged with
  | here => exact .inl rfl
  | later redone aged => exact .inr ⟨_, redone, aged⟩

/-- Making a change of a record on a page of the log gives a page that is as old as the record
or newer. -/
theorem Aged.redo {record : Log.Record} {after : Image} {change : PageChange}
    (apart : Apart index ((lsn, record) :: records))
    (aged : Aged index change.block ((lsn, record) :: records) image page)
    (redone : Redone lsn (changesOf index record) image after)
    (made : redoAll lsn (changesOf index record) image = some after)
    (mem : change ∈ changesOf index record) :
    ∃ page', redoPage lsn change page = some page' ∧ Aged index change.block records after page' := by
  have first := (redone.pages change mem).2
  rcases aged.cons_cases with rfl | ⟨after', made', aged⟩
  · exact ⟨_, first, .here⟩
  · obtain rfl := Option.some.inj (made.symm.trans made')
    have newer := aged.lsn_le fun entry mem => apart entry (List.mem_cons_of_mem _ mem)
    exact ⟨page, redoPage_of_le (UInt64.le_trans (le_lsn_of_redoPage first).2 newer), aged⟩

/-- The changes of a log can be made on pages of different ages, and bring all of them up to
date. -/
theorem exists_redoLog (apart : Apart index records) (made : redoLog index records start = some final)
    (aged : ∀ block, Aged index block records start (image.pageAt block)) :
    ∃ after, redoLog index records image = some after ∧ (∀ block, after.pageAt block = final.pageAt block) ∧
      after.size = max image.size (spanOfLog index records) := by
  induction records generalizing start image with
  | nil =>
      obtain rfl := Option.some.inj made
      exact ⟨image, rfl, fun block => (aged block).nil_eq, (Nat.max_zero _).symm⟩
  | cons entry records ih =>
      obtain ⟨lsn, record⟩ := entry
      have nodup := apart _ List.mem_cons_self
      obtain ⟨middle, first, rest⟩ := Option.bind_eq_some_iff.mp made
      have redone := redoAll_spec nodup first
      have possible : ∀ change ∈ changesOf index record, ∃ page,
        redoPage lsn change (image.pageAt change.block) = some page ∧
          Aged index change.block records middle page := fun change mem =>
        (aged change.block).redo apart redone first mem
      obtain ⟨image', again⟩ := exists_redoAll nodup fun change mem =>
        have ⟨page, made, _⟩ := possible change mem
        ⟨(redone.pages change mem).1, page, made⟩
      have redone' := redoAll_spec nodup again
      have aged' : ∀ block, Aged index block records middle (image'.pageAt block) := by
        intro block
        by_cases mem : block ∈ (changesOf index record).map PageChange.block
        · obtain ⟨change, here, rfl⟩ := List.mem_map.mp mem
          obtain ⟨page, made, aged'⟩ := possible change here
          rw [(redone'.pages change here).2] at made
          rwa [Option.some.inj made]
        · rw [redone'.others block mem]
          rcases (aged block).cons_cases with same | ⟨after, made', aged'⟩
          · rw [same, ← redone.others block mem]
            exact .here
          · obtain rfl := Option.some.inj (first.symm.trans made')
            exact aged'
      obtain ⟨after, later, pages, size⟩ := ih (fun entry mem => apart entry (List.mem_cons_of_mem _ mem)) rest aged'
      refine ⟨after, ?_, pages, ?_⟩
      · rw [redoLog, again, Option.bind_some, later]
      · rw [size, redone'.size, Nat.max_assoc]
        rfl

/-- Recovery may start from pages of different ages: it ends with the pages that it ends with
when it starts from none. -/
theorem redoLog_restart (apart : Apart index records) (made : redoLog index records #[] = some final)
    (small : final.size ≤ 2 ^ 32) (aged : ∀ block, Aged index block records #[] (image.pageAt block))
    (size : image.size ≤ final.size) : redoLog index records image = some final := by
  obtain ⟨final', made', -, size'⟩ := exists_redoLog apart made fun _ => .here
  obtain rfl := Option.some.inj (made.symm.trans made')
  obtain ⟨after, again, pages, size''⟩ := exists_redoLog apart made aged
  have span : final.size = spanOfLog index records := size'.trans (Nat.zero_max _)
  rw [again, Image.ext_pageAt small (by rw [size'', ← span, Nat.max_eq_right size]) pages]

end Restarts

end Recovery

end Warehouse.RangeIndex
