import Warehouse.Proofs.RangeIndex.Care

/-! # Room for summaries

The places that decide whether a summary fits compute room in different ways: the limit on its length, the
test of a page that is about to take it, and the change of the page itself. Here they are shown to agree:
`careful_lockSite` locks only pages that take a summary, and `careful_addTo` needs no more than that. All
operations are careful, one after the other in the order in which they call each other. -/

namespace Warehouse.RangeIndex

/-! ## Computing addresses -/

section Computations

variable {addressing : Addressing} {start heapBlock : BlockNumber} {index : Nat} {fault : Fault}

/-- A computation whose last step cannot fail fails in its first one. -/
theorem error_of_bind_pure {α β : Type} {first : Except Fault α} {last : α → β}
    (failed : (first >>= fun value => pure (last value)) = .error fault) : first = .error fault := by
  cases first with
  | ok value => cases failed
  | error cause =>
      cases failed
      rfl

/-- Ranges can only be counted in vain because they have no length. -/
theorem Addressing.innocent_rangesFrom (failed : addressing.rangesFrom start heapBlock = .error fault) :
    Innocent (.fault fault) := by
  rw [rangesFrom] at failed
  split at failed
  · cases failed
    exact trivial
  · cases failed

theorem Addressing.innocent_rangeStart (failed : addressing.rangeStart heapBlock = .error fault) :
    Innocent (.fault fault) :=
  innocent_rangesFrom (error_of_bind_pure failed)

theorem Addressing.innocent_entryIndex (failed : addressing.entryIndex heapBlock = .error fault) :
    Innocent (.fault fault) :=
  innocent_rangesFrom (error_of_bind_pure failed)

theorem Addressing.innocent_mapBlock (failed : addressing.mapBlock heapBlock = .error fault) :
    Innocent (.fault fault) :=
  innocent_rangesFrom (error_of_bind_pure failed)

theorem Addressing.innocent_logicalPage (failed : addressing.logicalPage heapBlock = .error fault) :
    Innocent (.fault fault) :=
  innocent_rangesFrom (error_of_bind_pure failed)

/-- An entry lies on its page. -/
theorem Addressing.entryIndex_lt (eq : addressing.entryIndex heapBlock = .ok index) : index < entriesPerPage := by
  simp only [entryIndex] at eq
  cases ranges : addressing.rangesFrom (addressing.origin heapBlock) heapBlock with
  | error cause =>
      rw [ranges] at eq
      cases eq
  | ok count =>
      rw [ranges] at eq
      obtain rfl := Except.ok.inj eq
      exact Nat.mod_lt _ (by decide)

/-- There is no chain beyond the last sequence. -/
theorem Accessor.innocent_chain {accessor : Accessor} {sequence : Nat} {cause : Error}
    (failed : accessor.chain sequence = .error cause) : Innocent (.error cause) := by
  rw [chain] at failed
  split at failed
  · cases failed
  · cases failed
    exact trivial

theorem Metapage.innocent_read {page : Page} {name : String} {at_block : BlockNumber} {cause : Error}
    (failed : read page name at_block = .error cause) : Innocent (.error cause) := by
  rw [read] at failed
  split at failed
  · cases failed
    exact trivial
  · dsimp only at failed
    split at failed
    · cases failed
      exact trivial
    · cases failed

end Computations

/-! ## Pages with room -/

/-- A site takes every summary of a length. -/
structure Placement.Site.Takes (site : Site) (length : Nat) : Prop where
  regular : Regular site.page
  fits : site.page.fits length = true

/-- On a page that was locked for a summary there is room for it. -/
theorem Placement.Site.Takes.addItem {site : Site} {tuple : List UInt8} (takes : site.Takes tuple.length)
    (nonempty : 0 < tuple.length) : ∃ offset page, site.page.addItem tuple none = .ok (some (offset, page)) ∧
      Regular page := by
  obtain ⟨offset, page, added, -, -, -, stored⟩ := Page.addItem_of_fits takes.regular.packed takes.fits nonempty
  exact ⟨offset, page, added, takes.regular.of_frame stored.packed stored.frame⟩

theorem map_of_sameOn {page other : Page} (map : isMap page = true) (same : Page.SameOn 32766 pageSize other page) :
    isMap other = true :=
  isMap_iff.mpr ((same.word16_eq (Nat.le_refl _) (Nat.le_refl _) _).trans (isMap_iff.mp map))

theorem trusted_withEntry {page : Page} {index : Nat} (map : isMap page = true) (bound : index < entriesPerPage)
    (place : ItemPointer) : Trusted (withEntry page index place) :=
  .of_map (map_of_sameOn map ((withEntry_frame page bound place).2.mono (by decide) (Nat.le_refl _)))

/-- A page that the range map grows into is flagged only if it is a regular one. -/
theorem startEvacuating_flags {page : Page} (suits : page.isNew = true ∨ Regular page) :
    startEvacuating page = .ok none ∨ (Regular page ∧ startEvacuating page = .ok (some (flagged page))) := by
  rcases suits with blank | regular
  · left
    simp only [startEvacuating, blank, if_true]
    rfl
  · rcases regular.startEvacuating_eq with ⟨flag, -⟩ | ⟨free, -⟩
    · exact .inr ⟨regular, flag⟩
    · exact .inl free

/-- If the task is to insert a summary, an empty page takes it. -/
def Task.Fits (task : Task) : Prop :=
  ∀ heapBlock payload, task = .use (.insert heapBlock payload) → 4 + payload.length ≤ maxTupleSize

/-! ## The operations are careful -/

namespace Procedure

variable {rule : Addressing → Prop} {rounds limit index : Nat} {heapBlock block : BlockNumber} {addressing : Addressing}

/-- The page is one of the range map. -/
def OnMap (located : BlockNumber × Page) : Prop := isMap located.2 = true

theorem careful_toStart (sequence : Nat) : (Chains.toStart sequence).Careful rule fun _ => True := by
  rw [Chains.toStart]
  apply Careful.accessor
  intro accessor known
  apply Careful.lift_error fun _ failed => Accessor.innocent_chain failed
  intro chain _
  apply Careful.remember known
  apply Careful.choice
  · intro _
    exact Careful.remember_last known trivial
  · intro _
    apply Careful.pin
    apply Careful.view
    intro page _
    apply Careful.choice
    · intro _
      exact Careful.remember_last known trivial
    · intro _
      exact Careful.report_last trivial

theorem careful_toEnd (sequence : Nat) : (Chains.toEnd sequence).Careful rule fun _ => True := by
  rw [Chains.toEnd]
  apply Careful.accessor
  intro accessor known
  apply Careful.lift_error fun _ failed => Accessor.innocent_chain failed
  intro chain _
  exact Careful.remember_last known trivial

theorem careful_follow (target : UInt32) (next : BlockNumber) :
    (Chains.follow target next rounds).Careful rule fun _ => True := by
  induction rounds generalizing next with
  | zero => exact trivial
  | succ rounds ih =>
      rw [Chains.follow]
      apply Careful.accessor
      intro accessor known
      apply Careful.choice
      · intro _
        exact trivial
      · intro _
        apply Careful.poll
        apply Careful.pin
        apply Careful.view
        intro page _
        apply Careful.choice
        · intro _
          exact Careful.report trivial
        · intro _
          apply Careful.choice
          · intro _
            exact Careful.report trivial
          · intro _
            apply Careful.remember known
            exact ih _

theorem careful_advance (target : UInt32) : (Chains.advance rounds target).Careful rule fun _ => True := by
  rw [Chains.advance]
  apply Careful.accessor
  intro accessor known
  apply Careful.choice
  · intro _
    exact trivial
  · intro _
    apply (careful_follow target _).andThen
    intro _ _
    apply Careful.accessor
    intro accessor _
    exact trivial

theorem careful_lookup (heapBlock : BlockNumber) : (RangeMap.lookup rounds heapBlock).Careful rule fun _ => True := by
  rw [RangeMap.lookup]
  apply Careful.accessor
  intro accessor known
  apply Careful.choice
  · intro _
    apply Careful.lift_fault fun _ => Addressing.innocent_logicalPage
    intro target _
    apply Careful.choice
    · intro _
      apply (careful_toStart _).andThen
      intro _ _
      exact careful_advance target
    · intro _
      exact careful_advance target
  · intro _
    apply Careful.lift_fault fun _ => Addressing.innocent_mapBlock
    intro target _
    exact trivial

theorem careful_pinCurrent (block : BlockNumber) : (RangeMap.pinCurrent block).Careful rule fun _ => True := by
  rw [RangeMap.pinCurrent]
  apply Careful.accessor
  intro accessor known
  apply Careful.choice
  · intro _
    apply Careful.pin
    exact Careful.remember_last known trivial
  · intro _
    exact trivial

theorem careful_lockPage (heapBlock : BlockNumber) : (RangeMap.lockPage rounds heapBlock).Careful rule OnMap := by
  rw [RangeMap.lockPage]
  apply (careful_lookup heapBlock).andThen
  intro found _
  cases found with
  | none => exact Careful.report_last trivial
  | some block =>
      apply (careful_pinCurrent block).andThen
      intro _ _
      apply Careful.acquire
      intro page _
      apply Careful.choice
      · intro map
        exact map
      · intro _
        apply Careful.accessor
        intro accessor _
        exact Careful.report_last trivial

theorem careful_readEntry (bound : index < entriesPerPage) :
    (RangeMap.readEntry block index).Careful rule fun _ => True := by
  rw [RangeMap.readEntry]
  apply (careful_pinCurrent block).andThen
  intro _ _
  apply Careful.view
  intro page _
  apply Careful.choice
  · intro _
    rw [entry_eq page bound]
    exact trivial
  · intro _
    apply Careful.accessor
    intro accessor _
    exact Careful.report_last trivial

theorem careful_findFrom (bound : index < entriesPerPage) (previous : Option ItemPointer) :
    (RangeMap.findFrom heapBlock block index previous rounds).Careful rule fun _ => True := by
  induction rounds generalizing previous with
  | zero => exact trivial
  | succ rounds ih =>
      rw [RangeMap.findFrom]
      apply Careful.poll
      apply (careful_readEntry bound).andThen
      intro place _
      apply Careful.choice
      · intro _
        exact trivial
      · intro _
        apply Careful.choice
        · intro _
          apply Careful.accessor
          intro accessor _
          exact Careful.report trivial
        · intro _
          apply Careful.pin
          apply Careful.view
          intro page trusted
          apply Careful.choice
          · intro regular
            apply Careful.choice
            · intro _
              exact trivial
            · intro _
              apply Careful.lift_ok ((trusted.regular regular).summaryAt_eq place.offset)
              cases summaryOn page place.offset with
              | none => exact ih _
              | some summary =>
                  apply Careful.choice
                  · intro _
                    exact trivial
                  · intro _
                    exact ih _
          · intro _
            exact ih _

theorem careful_find (heapBlock : BlockNumber) : (RangeMap.find rounds heapBlock).Careful rule fun _ => True := by
  rw [RangeMap.find]
  apply Careful.accessor
  intro accessor _
  apply Careful.lift_fault fun _ => Addressing.innocent_rangeStart
  intro start _
  apply (careful_lookup start).andThen
  intro found _
  cases found with
  | none => exact trivial
  | some block =>
      apply Careful.lift_fault fun _ => Addressing.innocent_entryIndex
      intro index eq
      exact careful_findFrom (Addressing.entryIndex_lt eq) none

/-- What was found is as it should be, if anything was. -/
def IfAny {α : Type} (post : α → Prop) : Option α → Prop
  | none => True
  | some value => post value

theorem careful_lockLast (excluded : Option BlockNumber) (length : Nat) :
    (Placement.lockLast excluded length).Careful rule (IfAny fun site => site.Takes length) := by
  rw [Placement.lockLast]
  apply Careful.countBlocks
  intro count
  apply Careful.choice
  · intro _
    exact trivial
  · intro _
    apply Careful.pin
    apply Careful.acquire
    intro page trusted
    apply Careful.choice
    · intro suits
      simp only [Bool.and_eq_true] at suits
      exact ⟨trusted.regular suits.1.1, suits.2⟩
    · intro _
      apply Careful.release
      exact trivial

/-- A page that is locked for a summary has room for it, be it the last one or a fresh one. -/
theorem careful_lockSite {length : Nat} (short : length ≤ maxTupleSize) (excluded : Option BlockNumber) :
    (Placement.lockSite excluded length rounds).Careful rule fun site => site.Takes length := by
  induction rounds with
  | zero => exact trivial
  | succ rounds ih =>
      rw [Placement.lockSite]
      apply (careful_lockLast excluded length).andThen
      intro found takes
      cases found with
      | some site => exact takes
      | none =>
          apply Careful.allocate
          intro block
          apply Careful.acquire
          intro page _
          apply Careful.choice
          · intro _
            apply Careful.write (.of_regular regular_freshPage)
            exact ⟨regular_freshPage, fits_freshPage short⟩
          · intro _
            apply Careful.release
            exact ih

/-- Storing a summary on a page that takes it. -/
theorem careful_addTo {site : Placement.Site} {tuple : List UInt8} (takes : site.Takes tuple.length)
    (nonempty : 0 < tuple.length) : (Placement.addTo site tuple).Careful rule fun added => Regular added.2 := by
  obtain ⟨offset, page, added, regular⟩ := takes.addItem nonempty
  rw [Placement.addTo]
  apply Careful.lift_ok added
  apply Careful.write (.of_regular regular)
  exact regular

theorem careful_move {tuple : List UInt8} (short : tuple.length ≤ maxTupleSize) (nonempty : 0 < tuple.length)
    (heapBlock : BlockNumber) (old : ItemPointer) :
    (Placement.move rounds heapBlock old tuple).Careful rule fun _ => True := by
  rw [Placement.move]
  apply Careful.accessor
  intro accessor _
  apply Careful.pin
  apply Careful.acquire
  intro oldPage trusted
  dsimp only
  apply Careful.choice
  case no =>
    intro _
    apply Careful.pure_bind
    apply Careful.choice
    · intro _
      exact Careful.released trivial
    · intro here
      exact absurd rfl here
  intro kind
  have regular := trusted.regular kind
  apply Careful.map_lift_ok (regular.summaryAt_eq old.offset)
  apply Careful.choice
  · intro _
    exact Careful.released trivial
  intro _
  apply (careful_lockSite short (some old.block)).andThen
  intro site takes
  apply (careful_lockPage heapBlock).andThen
  intro located map
  apply Careful.lift_fault fun _ => Addressing.innocent_entryIndex
  intro index eq
  have bound := Addressing.entryIndex_lt eq
  apply Careful.lift_ok (entry_eq located.2 bound)
  apply Careful.choice
  · intro _
    exact Careful.released trivial
  intro _
  apply (careful_addTo takes nonempty).andThen
  intro added new
  obtain ⟨remaining, deleted, spec⟩ := Page.deleteItem_spec regular.packed old.offset.toNat
  have left : Trusted remaining := .of_regular (regular.of_frame spec.packed spec.frame)
  apply Careful.lift_ok deleted
  apply Careful.write left
  apply Careful.lift_ok (setEntry_eq located.2 bound _)
  have redirected := trusted_withEntry map bound ⟨site.block, added.1⟩
  apply Careful.write redirected
  apply Careful.markDirty
  apply Careful.markDirty
  apply Careful.markDirty
  apply Careful.logged
  · exact List.forall_mem_cons.mpr ⟨left,
      List.forall_mem_cons.mpr ⟨.of_regular new, List.forall_mem_singleton.mpr redirected⟩⟩
  · exact Careful.released trivial

/-- Tuples that a page may hold. -/
def Short (items : List (Nat × List UInt8)) : Prop := ∀ item ∈ items, item.2.length ≤ maxTupleSize

theorem careful_evacuate {items : List (Nat × List UInt8)} (short : Short items) :
    (Placement.evacuate rounds block items).Careful rule fun _ => True := by
  induction items with
  | nil => exact trivial
  | cons item items ih =>
      obtain ⟨offset, bytes⟩ := item
      rw [Placement.evacuate]
      apply Careful.poll
      cases decoded : Summary.decode bytes with
      | none =>
          apply Careful.accessor
          intro accessor _
          exact Careful.report_last trivial
      | some summary =>
          have nonempty : 0 < bytes.length := by
            rw [Summary.decode] at decoded
            split at decoded
            · cases decoded
            · omega
          apply (careful_move (short _ List.mem_cons_self) nonempty summary.heapBlock _).andThen
          intro _ _
          exact ih fun item mem => short item (List.mem_cons_of_mem _ mem)

theorem careful_reachBlock (block : BlockNumber) : (Coverage.reachBlock block).Careful rule fun _ => True := by
  rw [Coverage.reachBlock]
  apply Careful.countBlocks
  intro count
  apply Careful.choice
  · intro _
    apply Careful.pin
    exact trivial
  · intro _
    apply Careful.allocate
    intro added
    exact trivial

theorem careful_extendPlain : (Coverage.extendPlain rounds).Careful rule fun _ => True := by
  rw [Coverage.extendPlain]
  apply Careful.accessor
  intro accessor known
  apply Careful.acquire
  intro metapage trusted
  apply Careful.lift_error fun _ failed => Metapage.innocent_read failed
  intro contents read
  have valid := trusted.valid_of_read read
  have holds := Metapage.holds_of_read read
  apply Careful.choice
  · intro _
    apply Careful.remember known
    exact Careful.released trivial
  intro _
  apply Careful.choice
  · intro _
    exact trivial
  intro _
  apply (careful_reachBlock _).andThen
  intro reached _
  apply Careful.choice
  · intro _
    exact Careful.released trivial
  intro _
  apply Careful.acquire
  intro page trusted'
  apply Careful.choice
  · intro _
    exact Careful.report trivial
  intro suits
  have blank_or_regular : page.isNew = true ∨ Regular page := by
    by_cases blank : page.isNew = true
    · exact .inl blank
    · exact .inr (trusted'.regular (by simpa [blank] using suits))
  rcases startEvacuating_flags blank_or_regular with start | ⟨regular, start⟩
  · apply Careful.lift_ok start
    have map : Trusted (freshPage mapType) := .of_map (isMap_iff.mpr (pageType_freshPage _))
    have grown : Trusted ({ contents with lastMapPage := contents.lastMapPage + 1 }.write metapage) :=
      .write holds rfl valid
    apply Careful.change map
    apply Careful.change grown
    apply Careful.logged
    · exact List.forall_mem_cons.mpr ⟨grown, List.forall_mem_singleton.mpr map⟩
    · apply Careful.remember known
      exact Careful.released trivial
  · apply Careful.lift_ok start
    obtain ⟨flagged_regular, -⟩ := regular_flagged regular
    obtain ⟨items, listed, -, mem⟩ := flagged_regular.packed.items_eq
    apply Careful.change (.of_regular flagged_regular)
    apply Careful.lift_ok listed
    apply Careful.releaseAll
    have short : Short items := fun item inside => flagged_regular.length_le ((mem item.1 item.2).mp inside)
    apply (careful_evacuate short).andThen
    intro _ _
    exact trivial

theorem careful_ensurePlain (target : BlockNumber) :
    (Coverage.ensurePlain limit target rounds).Careful rule fun _ => True := by
  induction rounds with
  | zero => exact trivial
  | succ rounds ih =>
      rw [Coverage.ensurePlain]
      apply Careful.accessor
      intro accessor _
      apply Careful.choice
      · intro _
        exact trivial
      · intro _
        apply Careful.poll
        apply careful_extendPlain.andThen
        intro _ _
        exact ih

theorem careful_lockTail (accessor : Accessor) (tail : BlockNumber) :
    (Chains.lockTail accessor tail).Careful rule (IfAny fun page => isMap page = true) := by
  rw [Chains.lockTail]
  apply Careful.choice
  · intro _
    exact trivial
  · intro _
    apply Careful.pin
    apply Careful.acquire
    intro page _
    apply Careful.choice
    · intro map
      exact map
    · intro _
      exact Careful.report_last trivial

theorem careful_extend (sequence : Nat) (target : UInt32) :
    (Chains.extend sequence target).Careful rule fun _ => True := by
  rw [Chains.extend]
  apply Careful.accessor
  intro accessor known
  apply Careful.lift_error fun _ failed => Accessor.innocent_chain failed
  intro chain _
  apply Careful.acquire
  intro metapage trusted
  apply Careful.lift_error fun _ failed => Metapage.innocent_read failed
  intro contents read
  have valid := trusted.valid_of_read read
  have holds := Metapage.holds_of_read read
  dsimp only
  apply Careful.choice
  · intro _
    apply Careful.remember known
    exact Careful.released trivial
  intro _
  apply Careful.choice
  · intro _
    exact trivial
  intro _
  apply Careful.allocate
  intro block
  apply Careful.acquire
  intro page _
  apply Careful.choice
  · intro _
    exact Careful.report trivial
  intro _
  apply (careful_lockTail accessor _).andThen
  intro tail tail_map
  have number : isMap (setLogicalPage (freshPage mapType) target) = true :=
    map_of_sameOn (isMap_iff.mpr (pageType_freshPage _)) (Page.sameOn_setWord32 _ _ _ _ (.inr (by decide)))
  apply Careful.change (.of_map number)
  have grown : ∀ chain,
      Trusted ({ contents with chains := Chains.setChain contents.chains sequence chain }.write metapage) :=
    fun _ => .write holds rfl valid
  cases tail with
  | none =>
      apply Careful.pure_bind
      apply Careful.change (grown _)
      apply Careful.remember known
      apply Careful.logged
      · exact List.forall_mem_cons.mpr ⟨grown _, List.forall_mem_singleton.mpr (.of_map number)⟩
      · exact Careful.released trivial
  | some tailPage =>
      have linked : isMap (setNextMapPage tailPage block) = true :=
        map_of_sameOn tail_map (Page.sameOn_setWord32 _ _ _ _ (.inr (by decide)))
      apply Careful.change (.of_map linked)
      apply Careful.pure_bind
      apply Careful.change (grown _)
      apply Careful.remember known
      apply Careful.logged
      · exact List.forall_mem_cons.mpr ⟨grown _,
          List.forall_mem_cons.mpr ⟨.of_map number, List.forall_mem_singleton.mpr (.of_map linked)⟩⟩
      · exact Careful.released trivial

theorem careful_extendChainTo (sequence : Nat) (target : UInt32) :
    (Coverage.extendChainTo sequence target rounds).Careful rule fun _ => True := by
  induction rounds with
  | zero => exact trivial
  | succ rounds ih =>
      rw [Coverage.extendChainTo]
      apply Careful.accessor
      intro accessor _
      apply Careful.choice
      · intro _
        exact trivial
      · intro _
        apply Careful.poll
        apply (careful_extend sequence _).andThen
        intro _ _
        apply (careful_toEnd sequence).andThen
        intro _ _
        exact ih

theorem careful_ensureChained (heapBlock : BlockNumber) :
    (Coverage.ensureChained rounds addressing heapBlock).Careful rule fun _ => True := by
  rw [Coverage.ensureChained]
  apply (careful_lookup heapBlock).andThen
  intro found _
  cases found with
  | some block => exact trivial
  | none =>
      apply Careful.lift_fault fun _ => Addressing.innocent_logicalPage
      intro target _
      apply (careful_toEnd _).andThen
      intro _ _
      apply (careful_extendChainTo _ target).andThen
      intro _ _
      apply (careful_lookup heapBlock).andThen
      intro found _
      cases found with
      | some block => exact trivial
      | none =>
          apply Careful.accessor
          intro accessor _
          exact Careful.report_last trivial

theorem careful_ensure (heapBlock : BlockNumber) : (Coverage.ensure rounds heapBlock).Careful rule fun _ => True := by
  rw [Coverage.ensure]
  apply Careful.accessor
  intro accessor _
  apply Careful.choice
  · intro _
    exact careful_ensureChained heapBlock
  · intro _
    apply Careful.lift_fault fun _ => Addressing.innocent_mapBlock
    intro target _
    exact careful_ensurePlain target

theorem careful_store {tuple : List UInt8} (short : tuple.length ≤ maxTupleSize) (nonempty : 0 < tuple.length)
    (bound : index < entriesPerPage) (heapBlock : BlockNumber) :
    (store rounds addressing heapBlock index tuple).Careful rule fun _ => True := by
  rw [store]
  apply (careful_lockSite short none).andThen
  intro site takes
  apply (careful_lockPage heapBlock).andThen
  intro located map
  apply Careful.lift_ok (entry_eq located.2 bound)
  apply Careful.choice
  · intro _
    exact Careful.released trivial
  intro _
  apply (careful_addTo takes nonempty).andThen
  intro added new
  have bound_entry := trusted_withEntry map bound ⟨site.block, added.1⟩
  apply Careful.lift_ok (setEntry_eq located.2 bound _)
  apply Careful.write bound_entry
  apply Careful.markDirty
  apply Careful.markDirty
  apply Careful.logged
  · exact List.forall_mem_cons.mpr ⟨.of_regular new, List.forall_mem_singleton.mpr bound_entry⟩
  · exact Careful.released trivial

theorem careful_bind {tuple : List UInt8} (short : tuple.length ≤ maxTupleSize) (nonempty : 0 < tuple.length)
    (bound : index < entriesPerPage) (heapBlock : BlockNumber) :
    (RangeIndex.bind limit addressing heapBlock index tuple rounds).Careful rule fun _ => True := by
  induction rounds with
  | zero => exact trivial
  | succ rounds ih =>
      rw [RangeIndex.bind]
      apply Careful.poll
      apply (careful_find heapBlock).andThen
      intro found _
      cases found with
      | some found =>
          apply (careful_move short nonempty heapBlock found.place).andThen
          intro stored _
          cases stored with
          | some place => exact trivial
          | none => exact ih
      | none =>
          apply (careful_store short nonempty bound heapBlock).andThen
          intro stored _
          cases stored with
          | some place => exact trivial
          | none => exact ih

/-- Inserting a summary is careful if the summary is short enough. -/
theorem careful_insert {payload : List UInt8} (short : 4 + payload.length ≤ maxTupleSize) (heapBlock : BlockNumber) :
    (insert rounds heapBlock payload).Careful rule fun _ => True := by
  have length : ∀ start, (Summary.encode ⟨start, payload⟩).length = 4 + payload.length := by
    intro start
    rw [Summary.length_encode, Nat.add_comm]
  rw [insert]
  apply Careful.accessor
  intro accessor _
  apply Careful.lift_fault fun _ => Addressing.innocent_rangeStart
  intro start _
  dsimp only
  rw [if_neg (by rw [length]; exact Nat.not_lt.mpr short)]
  apply (careful_ensure start).andThen
  intro _ _
  apply Careful.lift_fault fun _ => Addressing.innocent_entryIndex
  intro index eq
  apply careful_bind
  · rw [length]
    exact short
  · rw [length]
    omega
  · exact Addressing.entryIndex_lt eq

theorem careful_unbind (bound : index < entriesPerPage) (heapBlock : BlockNumber) (place : ItemPointer) :
    (unbind rounds heapBlock index place).Careful rule fun _ => True := by
  rw [unbind]
  apply Careful.pin
  apply Careful.acquire
  intro page trusted
  apply Careful.choice
  · intro _
    exact Careful.released trivial
  intro kind
  have regular : Regular page := trusted.regular (by simpa using kind)
  apply (careful_lockPage heapBlock).andThen
  intro located map
  apply Careful.lift_ok (entry_eq located.2 bound)
  apply Careful.choice
  · intro _
    exact Careful.released trivial
  intro _
  apply Careful.accessor
  intro accessor _
  dsimp only
  apply Careful.choice
  · intro _
    apply Careful.pure_bind
    exact Careful.report trivial
  intro _
  apply Careful.map_lift_ok (regular.packed.pointer_eq place.offset.toNat)
  apply Careful.choice
  · intro _
    exact Careful.report trivial
  intro _
  have cleared := trusted_withEntry map bound .invalid
  obtain ⟨remaining, deleted, spec⟩ := Page.deleteItem_spec regular.packed place.offset.toNat
  have left : Trusted remaining := .of_regular (regular.of_frame spec.packed spec.frame)
  apply Careful.lift_ok (setEntry_eq located.2 bound _)
  apply Careful.write cleared
  apply Careful.lift_ok deleted
  apply Careful.write left
  apply Careful.markDirty
  apply Careful.markDirty
  apply Careful.logged
  · exact List.forall_mem_cons.mpr ⟨cleared, List.forall_mem_singleton.mpr left⟩
  · exact Careful.released trivial

theorem careful_openIndex (index : String) (admits : ∀ addressing : Addressing, addressing.Valid → rule addressing) :
    (openIndex index).Careful rule fun _ => True := by
  rw [openIndex]
  apply Careful.pin
  apply Careful.view
  intro page trusted
  apply Careful.lift_error fun _ failed => Metapage.innocent_read failed
  intro contents read
  exact Careful.remember_last (admits _ (trusted.valid_of_read read)) trivial

theorem careful_desummarize (index : String) (heapBlock : BlockNumber)
    (admits : ∀ addressing : Addressing, addressing.Valid → rule addressing) :
    (desummarize rounds index heapBlock).Careful rule fun _ => True := by
  rw [desummarize]
  apply (careful_openIndex index admits).andThen
  intro _ _
  apply Careful.accessor
  intro accessor _
  apply Careful.lift_fault fun _ => Addressing.innocent_rangeStart
  intro start _
  apply Careful.optional
  · intro _
    exact careful_toStart _
  apply (careful_lookup start).andThen
  intro found _
  cases found with
  | none => exact trivial
  | some block =>
      apply Careful.lift_fault fun _ => Addressing.innocent_entryIndex
      intro index eq
      have bound := Addressing.entryIndex_lt eq
      apply (careful_readEntry bound).andThen
      intro place _
      apply Careful.choice
      · intro _
        exact careful_unbind bound start place
      · intro _
        exact trivial

theorem careful_create (index : String) (pagesPerRange : UInt32) (appendOnly : Bool) :
    (create index pagesPerRange appendOnly).Careful rule fun _ => True := by
  rw [create]
  apply Careful.choice
  · intro _
    exact Careful.report trivial
  intro bounds
  have valid : (Metapage.new pagesPerRange appendOnly).addressing.Valid := by
    rw [not_or] at bounds
    refine ⟨Nat.pos_of_ne_zero fun zero => bounds.1 (UInt32.toNat_inj.mp zero), Nat.not_lt.mp bounds.2⟩
  have metapage : Trusted (Metapage.initial pagesPerRange appendOnly) :=
    .of_holds (Metapage.holds_initial pagesPerRange appendOnly) valid
  apply Careful.countBlocks
  intro count
  apply Careful.choice
  · intro _
    exact Careful.report trivial
  intro _
  apply Careful.allocate
  intro block
  apply Careful.choice
  · intro _
    exact Careful.report trivial
  intro _
  apply Careful.acquire
  intro page _
  apply Careful.change metapage
  apply Careful.logged
  · exact List.forall_mem_singleton.mpr metapage
  · exact Careful.releaseAll_last

/-- Everything that is done with an accessor is careful, except for inserting a summary that is too long. -/
theorem careful_task {task : Task} (fits : task.Fits) : task.procedure.Careful rule fun _ => True := by
  cases task with
  | use use =>
      cases use with
      | insert heapBlock payload => exact (careful_insert (fits _ _ rfl) heapBlock).returning.returning
      | ensure heapBlock => exact (careful_ensure heapBlock).returning.returning
      | find heapBlock => exact (careful_find heapBlock).returning.returning
  | extendPlain => exact careful_extendPlain.returning
  | extendChain sequence number => exact (careful_extend sequence number).returning

end Procedure

end Warehouse.RangeIndex
