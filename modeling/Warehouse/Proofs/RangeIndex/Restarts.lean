import Warehouse.Proofs.RangeIndex.Replays

/-! # Starting recovery again

Recovery may be stopped at any time and started again from the front of the log. This holds
of every log and of all pages, whatever is on them: a change that was made once leaves its page
with a log position that is not below that of the record, no later change takes the position
back, and so the change is passed over from then on. `replay_restart` says that the relation
is then the one that a single run of recovery leaves. -/

namespace Warehouse.RangeIndex.Recovery

/-- The block has a page that is not older than the log position. -/
def Settled (relation : Relation) (lsn : Lsn) (block : BlockNumber) : Prop :=
  block < relation.blockCount ∧ ∃ page, relation.page? block = some page ∧ lsn ≤ page.lsn

/-- Nobody else acts on the later relation, and what is settled stays so. -/
structure Keeps (relation after : Relation) : Prop where
  name_eq : after.name = relation.name
  alone : after.interference = .none
  settled : ∀ lsn block, Settled relation lsn block → Settled after lsn block

namespace Keeps

variable {relation middle after : Relation}

theorem refl (alone : relation.interference = .none) : Keeps relation relation :=
  ⟨rfl, alone, fun _ _ settled => settled⟩

theorem trans (h : Keeps relation middle) (h' : Keeps middle after) : Keeps relation after :=
  ⟨h'.name_eq.trans h.name_eq, h'.alone, fun lsn block settled => h'.settled lsn block (h.settled lsn block settled)⟩

end Keeps

section Pages

variable {relation after : Relation} {block other : BlockNumber} {page before : Page} {lsn : Lsn}

theorem page?_grow_old (h : relation.page? block = some page) : relation.grow.page? block = some page := by
  rw [← page?_pagesOf] at h ⊢
  rw [pagesOf_grow, Image.page?_push_old (Image.lt_of_page? h), h]

theorem page?_setPage_same (page : Page) (h : relation.page? block = some before) :
    (relation.setPage block page).page? block = some page := by
  rw [← page?_pagesOf] at h ⊢
  rw [pagesOf_setPage, Image.page?_put_same page h]

theorem page?_setPage_other (ne : other ≠ block) :
    (relation.setPage block page).page? other = relation.page? other := by
  rw [← page?_pagesOf, ← page?_pagesOf, pagesOf_setPage, Image.page?_put_other ne]

theorem page?_markDirty : (relation.markDirty other).page? block = relation.page? block := by
  rw [← page?_pagesOf, ← page?_pagesOf, pagesOf_markDirty]

theorem blockCount_setPage : (relation.setPage block page).blockCount = relation.blockCount := by
  rw [Relation.blockCount, Relation.setPage, Array.size_modify, Relation.blockCount]

theorem blockCount_markDirty : (relation.markDirty block).blockCount = relation.blockCount := by
  rw [Relation.blockCount, Relation.markDirty, Array.size_modify, Relation.blockCount]

/-- Adding a page keeps the others, as long as the number of pages is that of a block. -/
theorem keeps_grow (alone : relation.interference = .none) (room : relation.grow.buffers.size < 2 ^ 32) :
    Keeps relation relation.grow := by
  refine ⟨rfl, alone, fun lsn block settled => ?_⟩
  obtain ⟨inside, page, at_block, le⟩ := settled
  refine ⟨?_, page, page?_grow_old at_block, le⟩
  have size : relation.grow.buffers.size = relation.buffers.size + 1 := Array.size_push _
  rw [Relation.blockCount, UInt32.lt_iff_toNat_lt,
    UInt32.toNat_ofNat_of_lt' (by simp only [UInt32.size]; omega)] at inside ⊢
  omega

/-- Replacing a page by one that is not older. -/
theorem keeps_change (alone : relation.interference = .none) (at_block : relation.page? block = some before)
    (le : before.lsn ≤ page.lsn) : Keeps relation ((relation.setPage block page).markDirty block) := by
  refine ⟨rfl, alone, fun lsn other settled => ?_⟩
  obtain ⟨inside, old, at_other, newer⟩ := settled
  refine ⟨by rw [blockCount_markDirty, blockCount_setPage]; exact inside, ?_⟩
  rw [page?_markDirty]
  by_cases same : other = block
  · subst same
    obtain rfl := Option.some.inj (at_block.symm.trans at_other)
    exact ⟨page, page?_setPage_same page at_block, UInt64.le_trans newer le⟩
  · exact ⟨old, by rw [page?_setPage_other same, at_other], newer⟩

end Pages

section Changes

variable {relation after : Relation} {block : BlockNumber} {lsn : Lsn} {change : PageChange}
  {changes : List PageChange}

/-- A block that exists does not need more pages. -/
theorem growTo_of_lt {rounds : Nat} (inside : block < relation.blockCount) :
    relation.growTo block (rounds + 1) = (.ok (), relation) := by
  rw [Relation.growTo, if_pos inside]

/-- When all block numbers are taken, no page can be added. -/
theorem growTo_full {rounds : Nat} (alone : relation.interference = .none) (full : 2 ^ 32 ≤ relation.buffers.size)
    (outside : ¬ block < relation.blockCount) : relation.growTo block rounds ≠ (.ok (), after) := by
  intro h
  cases rounds with
  | zero => cases h
  | succ rounds =>
      have growth : relation.interference.growth = none := by rw [alone]; rfl
      have taken : invalidBlock.toNat < relation.buffers.size := Nat.lt_of_lt_of_le (by decide) full
      rw [Relation.growTo, if_neg outside] at h
      simp only [Relation.allocate, growth, Option.getD_none, Relation.growBy, if_pos taken] at h
      cases h

/-- Adding pages until a block exists keeps what is settled. The number of pages stays that of
a block, because the search ends at a block below it. -/
theorem keeps_growTo {rounds : Nat} (alone : relation.interference = .none)
    (h : relation.growTo block rounds = (.ok (), after)) : Keeps relation after ∧ block < after.blockCount := by
  induction rounds generalizing relation with
  | zero => cases (Prod.mk.inj h).1
  | succ rounds ih =>
      by_cases inside : block < relation.blockCount
      · rw [growTo_of_lt inside] at h
        obtain rfl := (Prod.mk.inj h).2
        exact ⟨.refl alone, inside⟩
      · by_cases room : relation.buffers.size < 2 ^ 32
        · rw [Relation.growTo, if_neg inside, allocate_alone alone room] at h
          have size : relation.grow.buffers.size = relation.buffers.size + 1 := Array.size_push _
          have alone' : relation.grow.interference = .none := alone
          by_cases full : relation.grow.buffers.size < 2 ^ 32
          · obtain ⟨keeps, inside⟩ := ih alone' h
            exact ⟨(keeps_grow alone full).trans keeps, inside⟩
          · -- all block numbers are taken now, and the count of blocks is back at zero
            have count : relation.grow.blockCount = 0 := by
              rw [Relation.blockCount, show relation.grow.buffers.size = 2 ^ 32 by omega]
              rfl
            exact absurd h (growTo_full alone' (Nat.not_lt.mp full)
              (by rw [count]; exact UInt32.not_lt.mpr UInt32.zero_le))
        · exact absurd h (growTo_full alone (Nat.not_lt.mp room) inside)

/-- A change that is made leaves its page settled. -/
theorem settled_of_applyAt (alone : relation.interference = .none)
    (h : applyAt relation lsn change = (.ok (), after)) : Keeps relation after ∧ Settled after lsn change.block := by
  rw [applyAt, Relation.readExtending] at h
  cases grown : relation.growTo change.block (change.block.toNat + 2) with
  | mk outcome middle =>
      cases outcome with
      | error failure =>
          rw [grown] at h
          cases h
      | ok =>
          obtain ⟨keeps, inside⟩ := keeps_growTo alone grown
          simp only [grown, read_alone keeps.alone] at h
          cases at_block : middle.page? change.block with
          | none =>
              simp only [page?_pagesOf, at_block] at h
              cases h
          | some page =>
              simp only [page?_pagesOf, at_block] at h
              split at h
              · rename_i newer
                obtain rfl := (Prod.mk.inj h).2
                exact ⟨keeps, inside, page, at_block, newer⟩
              · rename_i older
                split at h
                · cases h
                · rename_i changed _
                  obtain rfl := (Prod.mk.inj h).2
                  have stamped : (changed.setLsn lsn).lsn = lsn := Page.lsn_setLsn _ _
                  have le : page.lsn ≤ (changed.setLsn lsn).lsn := by
                    rw [stamped]
                    exact UInt64.le_of_lt (UInt64.not_le.mp older)
                  refine ⟨keeps.trans (keeps_change keeps.alone at_block le), ?_, changed.setLsn lsn, ?_, ?_⟩
                  · rw [blockCount_markDirty, blockCount_setPage]
                    exact inside
                  · rw [page?_markDirty, page?_setPage_same _ at_block]
                  · rw [stamped]
                    exact UInt64.le_refl lsn

/-- A change is passed over when its page is settled. -/
theorem applyAt_of_settled (alone : relation.interference = .none) (settled : Settled relation lsn change.block) :
    applyAt relation lsn change = (.ok (), relation) := by
  obtain ⟨inside, page, at_block, newer⟩ := settled
  simp only [applyAt, Relation.readExtending, growTo_of_lt inside, read_alone alone,
    page?_pagesOf, at_block, if_pos newer]

theorem settled_of_applyAll (alone : relation.interference = .none)
    (h : applyAll relation lsn changes = (.ok (), after)) :
    Keeps relation after ∧ ∀ change ∈ changes, Settled after lsn change.block := by
  induction changes generalizing relation with
  | nil =>
      obtain rfl := (Prod.mk.inj h).2
      exact ⟨.refl alone, fun _ mem => absurd mem List.not_mem_nil⟩
  | cons change changes ih =>
      rw [applyAll] at h
      split at h
      · rename_i middle made
        obtain ⟨keeps, settled⟩ := settled_of_applyAt alone made
        obtain ⟨keeps', settled'⟩ := ih keeps.alone h
        refine ⟨keeps.trans keeps', fun other mem => ?_⟩
        rcases List.mem_cons.mp mem with rfl | mem
        · exact keeps'.settled _ _ settled
        · exact settled' other mem
      · cases (Prod.mk.inj h).1

theorem applyAll_of_settled (alone : relation.interference = .none)
    (settled : ∀ change ∈ changes, Settled relation lsn change.block) :
    applyAll relation lsn changes = (.ok (), relation) := by
  induction changes with
  | nil => rfl
  | cons change changes ih =>
      rw [applyAll, applyAt_of_settled alone (settled change List.mem_cons_self)]
      exact ih fun other mem => settled other (List.mem_cons_of_mem _ mem)

end Changes

section Logs

variable {relation middle after : Relation} {records front back : List (Lsn × Log.Record)}

/-- All changes of the records are passed over. -/
def Reflects (relation : Relation) (records : List (Lsn × Log.Record)) : Prop :=
  ∀ entry ∈ records, ∀ change ∈ changesOf relation.name entry.2, Settled relation entry.1 change.block

/-- What recovery made again it passes over from then on. -/
theorem reflects_of_replay (alone : relation.interference = .none) (h : replay relation records = (.ok (), after)) :
    Keeps relation after ∧ Reflects after records := by
  induction records generalizing relation with
  | nil =>
      obtain rfl := (Prod.mk.inj h).2
      exact ⟨.refl alone, fun _ mem => absurd mem List.not_mem_nil⟩
  | cons entry records ih =>
      rw [replay] at h
      split at h
      · rename_i middle made
        obtain ⟨keeps, settled⟩ := settled_of_applyAll alone made
        obtain ⟨keeps', reflects⟩ := ih keeps.alone h
        refine ⟨keeps.trans keeps', fun other mem => ?_⟩
        rcases List.mem_cons.mp mem with rfl | mem
        · rw [keeps'.name_eq, keeps.name_eq]
          exact fun change mem => keeps'.settled _ _ (settled change mem)
        · exact reflects other mem
      · cases (Prod.mk.inj h).1

theorem replay_of_reflects (alone : relation.interference = .none) (reflects : Reflects relation records) :
    replay relation records = (.ok (), relation) := by
  induction records with
  | nil => rfl
  | cons entry records ih =>
      have first := applyAll_of_settled alone (reflects entry List.mem_cons_self)
      rw [replay, redo, first]
      exact ih fun other mem => reflects other (List.mem_cons_of_mem _ mem)

/-- Recovery may be stopped after any part of the log and started again from the front, and it
may be done again as a whole: if it succeeds on all records, whatever they are and whatever the
pages are, then it ends with the same relation. -/
theorem replay_restart (relation after : Relation) (front back : List (Lsn × Log.Record))
    (alone : relation.interference = .none) (h : replay relation (front ++ back) = (.ok (), after)) :
    (∃ middle, replay relation front = (.ok (), middle) ∧ replay middle (front ++ back) = (.ok (), after)) ∧
      replay after (front ++ back) = (.ok (), after) := by
  refine ⟨?_, ?_⟩
  · rw [replay_append] at h
    cases first : replay relation front with
    | mk outcome middle =>
        rw [first] at h
        cases outcome with
        | error failure => cases (Prod.mk.inj h).1
        | ok =>
            obtain ⟨keeps, reflects⟩ := reflects_of_replay alone first
            exact ⟨middle, rfl, by rw [replay_append, replay_of_reflects keeps.alone reflects]; exact h⟩
  · obtain ⟨keeps, reflects⟩ := reflects_of_replay alone h
    exact replay_of_reflects keeps.alone reflects

theorem redoLog_singleton (index : String) (lsn : Lsn) (record : Log.Record) (image : Image) :
    redoLog index [(lsn, record)] image = redoAll lsn (changesOf index record) image :=
  Option.bind_fun_some _

/-- Recovery succeeds on a relation if it does on its pages. -/
theorem replay_of_redoLog {image : Image} (alone : relation.interference = .none)
    (small : relation.buffers.size < 2 ^ 32)
    (made : redoLog relation.name records (pagesOf relation) = some image) :
    replay relation records = (.ok (), (replay relation records).2) := by
  have yields : Yields relation (replay relation records) _ := replay_spec alone small
  rw [made] at yields
  exact Prod.ext yields.1 rfl

/-- Recovery of a log whose second record is older than the page that the first one left. -/
theorem replay_restart_older_record :
    (Relation.empty "index" none).interference = .none ∧
      ∃ after, replay (.empty "index" none) ([(5, .createIndex 1 false)] ++ [(3, .createIndex 2 true)]) =
        (.ok (), after) ∧
        replay after ([(5, .createIndex 1 false)] ++ [(3, .createIndex 2 true)]) = (.ok (), after) := by
  have made (lsn : Lsn) (pagesPerRange : UInt32) (appendOnly : Bool) (image : Image) : ∃ after,
      redoAll lsn (changesOf "index" (.createIndex pagesPerRange appendOnly)) image = some after := by
    refine exists_redoAll (List.nodup_singleton metaBlock) fun change mem => ?_
    obtain rfl := List.mem_singleton.mp mem
    refine ⟨(show metaBlock ≠ invalidBlock by decide), ?_⟩
    rw [redoPage]
    split
    · exact ⟨_, rfl⟩
    · exact ⟨_, rfl⟩
  obtain ⟨first, eq⟩ := made 5 1 false #[]
  obtain ⟨second, eq'⟩ := made 3 2 true first
  have log : redoLog "index" ([(5, .createIndex 1 false)] ++ [(3, .createIndex 2 true)]) #[] = some second := by
    refine redoLog_append.trans ?_
    rw [redoLog_singleton, eq, Option.bind_some]
    exact (redoLog_singleton _ _ _ _).trans eq'
  rw [← (Array.map_empty : pagesOf (.empty "index" none) = #[])] at log
  have once := replay_of_redoLog rfl (show (Relation.empty "index" none).buffers.size < 2 ^ 32 by decide) log
  exact ⟨rfl, _, once, (replay_restart (.empty "index" none) _ _ _ rfl once).2⟩

end Logs

end Warehouse.RangeIndex.Recovery
