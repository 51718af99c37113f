import Warehouse.RangeIndex.Placement

/-! # Extending the range map

The range map of a plain table fills the blocks that follow the metapage. When it grows
into a block that holds summaries, these are moved away first. The range map of an
append-only table grows chain by chain. -/

namespace Warehouse.RangeIndex.Coverage

/-- Bring the block into memory that the range map grows into, adding it to the
relation if it does not exist. Nothing is done when another operation added it first. -/
def reachBlock (block : BlockNumber) : Procedure Bool := do
  if block < (← Procedure.countBlocks) then
    Procedure.pin block
    return true
  else
    return (← Procedure.allocate) = block

/-- Add the next range map page of a plain table, provided that the metapage agrees with
the accessor about the last one. -/
def extendPlain (rounds : Nat) : Procedure Growth := do
  let accessor ← Procedure.accessor
  let metapage ← Procedure.acquire metaBlock
  let contents ← Metapage.read metapage accessor.index metaBlock
  if contents.lastMapPage ≠ accessor.lastMapPage then
    Procedure.remember { accessor with lastMapPage := contents.lastMapPage }
    Procedure.releaseAll
    return .retry
  if contents.lastMapPage = invalidBlock then Procedure.fail (.fault .overflow)
  let block := contents.lastMapPage + 1
  if !(← reachBlock block) then
    Procedure.releaseAll
    return .retry
  let page ← Procedure.acquire block
  if !page.isNew && !isRegular page then Procedure.report (accessor.unexpectedPage block page)
  match ← startEvacuating page with
  | some page =>
      Procedure.change block page
      let items ← page.items
      Procedure.releaseAll
      Placement.evacuate rounds block items
      return .retry
  | none =>
      let page := freshPage mapType
      Procedure.change block page
      let metapage := { contents with lastMapPage := block }.write metapage
      Procedure.change metaBlock metapage
      Procedure.logged (.extendMap block false 0 0 invalidBlock) [(metaBlock, metapage), (block, page)]
      Procedure.remember { accessor with lastMapPage := block }
      Procedure.releaseAll
      return .extended block

/-- Extend the range map of a plain table until it has the page `target`. -/
def ensurePlain (limit : Nat) (target : BlockNumber) : (rounds : Nat) → Procedure BlockNumber
  | 0 => Procedure.fail .exhausted
  | rounds + 1 => do
      if target ≤ (← Procedure.accessor).lastMapPage then return target
      Procedure.poll
      let _ ← extendPlain limit
      ensurePlain limit target rounds

/-- Extend a chain page by page until its last page has at least the number `target`. -/
def extendChainTo (sequence : Nat) (target : UInt32) : (rounds : Nat) → Procedure Unit
  | 0 => Procedure.fail .exhausted
  | rounds + 1 => do
      let reached := (← Procedure.accessor).position.logical
      if target ≤ reached then return ()
      Procedure.poll
      let _ ← Chains.extend sequence (reached + 1)
      Chains.toEnd sequence
      extendChainTo sequence target rounds

/-- Extend the chain of the block's sequence until it has the page with the block's
entry. -/
def ensureChained (rounds : Nat) (addressing : Addressing) (heapBlock : BlockNumber) :
    Procedure BlockNumber := do
  match ← RangeMap.lookup rounds heapBlock with
  | some block => return block
  | none =>
      let sequence := sequenceOf heapBlock
      let target ← addressing.logicalPage heapBlock
      Chains.toEnd sequence
      extendChainTo sequence target rounds
      match ← RangeMap.lookup rounds heapBlock with
      | some block => return block
      | none =>
          let accessor ← Procedure.accessor
          Procedure.report (accessor.corrupted accessor.position.page
            s!"revmap chain of block sequence {sequence} has no logical page {target.toNat}")

/-- Extend the range map until it has the entry of a table block, and give the page of
that entry. -/
def ensure (rounds : Nat) (heapBlock : BlockNumber) : Procedure BlockNumber := do
  let addressing := (← Procedure.accessor).addressing
  if addressing.appendOnly then ensureChained rounds addressing heapBlock
  else
    let target ← addressing.mapBlock heapBlock
    ensurePlain rounds target rounds

end Warehouse.RangeIndex.Coverage
