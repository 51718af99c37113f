import Warehouse.Proofs.RangeIndex.CutExtensions
import Warehouse.Proofs.RangeIndex.Interleavings
import Warehouse.Proofs.RangeIndex.Outlooks

/-! # Cancelled calls

A call that is cancelled may have extended the range map, flagged a page, and moved some of the
summaries on it. None of this is a change of a binding, because an operation that has not come to
its end has not used its right to make one. What the pages are then is something that later calls
cope with: they extend the range map over a page that is flagged and half empty, and follow the
same outlook as without the cancelled call. It shows only in that the range map may be longer, so
that an accessor that is opened afterwards may find more. -/

namespace Warehouse.RangeIndex

section Following

variable {addressing : Addressing} {state : Interplay} {scene : Scene} {user : Nat} {accessor : Accessor}
  {use : Use} {world : World} {failure : Failure} {bindings : BlockNumber → Option (List UInt8)}

/-- Operations without rights change no binding. -/
theorem Image.Heeds.binds_iff {image after : Image} (heeds : image.Heeds .none after) (heapBlock : BlockNumber)
    (payload : List UInt8) : Binds after after.contents heapBlock payload ↔
      Binds image image.contents heapBlock payload := by
  rcases heeds heapBlock with same | ⟨new, right, -⟩
  · exact same payload
  · exact right.elim

/-- For new users the index is sane, also when the log does not account for all pages. -/
theorem Orderly.sane (orderly : Orderly addressing state scene)
    (binds : ∀ heapBlock payload, Binds scene.image scene.image.contents heapBlock payload ↔
      bindings heapBlock = some payload) :
    Sane ⟨state.relation, state.logFile, []⟩ scene.far addressing ⟨bindings, []⟩ .positions where
  shows := orderly.shows.far
  sound := orderly.sound
  gapless := orderly.gapless
  clean := Scene.not_loose_far
  addressing_eq := orderly.addressing_eq
  binds := binds
  knows _ mem := absurd mem List.not_mem_nil
  count := rfl
  current _ _ at_number := nomatch at_number

/-- A use of an accessor that fails leaves an index that operations without rights might have led to. -/
theorem Orderly.fails (orderly : Orderly addressing state scene) (idle : state.users user = .idle accessor)
    (attempt : Attempt use.procedure (state.world accessor) (.error failure) world)
    (room : world.relation.buffers.size < 2 ^ 32) :
    ∃ after, Orderly addressing ⟨world.relation, world.logFile, fun _ => .absent⟩ after ∧
      Evolves (.shared .none) scene after := by
  have knows : Knows scene.image scene.image.contents accessor := by
    have ready := orderly.ready user
    rwa [idle] at ready
  have steady : Steady (.shared .none) ⟨scene, scene, accessor, []⟩ :=
    ⟨orderly.sound, knows, fun _ => orderly.gapless, .refl⟩
  have others : Mode.shared .none ≠ .solo := Mode.shared_ne_solo .none
  have contract := use.ensures others steady rfl (False.elim ·)
  obtain ⟨later, models, evolves, -, steady'⟩ := contract.attempt ⟨orderly.shows, rfl, rfl⟩ others attempt room
  have evolves' := evolves.trans steady'.evolves
  obtain ⟨-, grows⟩ := steady.grows_of_evolves evolves'
  have addressing_eq := grows.addressing_eq.trans orderly.addressing_eq
  exact ⟨later.scene, ⟨models.shows, steady'.sound, steady'.gapless rfl, addressing_eq, fun _ => trivial⟩, evolves'⟩

end Following

section Leaving

variable {service : Service} {scene : Scene} {ledger : Ledger} {world : World}

end Leaving

end Warehouse.RangeIndex
