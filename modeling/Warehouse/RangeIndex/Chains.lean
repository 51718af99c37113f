import Warehouse.RangeIndex.Procedure

/-! # Chains of an append-only index

Every block sequence of an append-only table has a linked list of range map pages. A
page is added at the end of the relation, whatever its chain, and carries a number that
grows strictly along the chain. Indexes that only ever extend chains to cover a table
block number their pages without gaps, starting at one. -/

namespace Warehouse.RangeIndex

/-- What an attempt to extend the range map came to. -/
inductive Growth where
  /-- A range map page was added. -/
  | extended (block : BlockNumber)
  /-- The accessor was out of date, or the page was in use; it may be tried again. -/
  | retry
  deriving DecidableEq, Repr

namespace Chains

/-- Replace the element at an index of a vector if there is one. -/
def setChain (chains : Vector Chain sequenceCount) (sequence : Nat) (chain : Chain) :
    Vector Chain sequenceCount :=
  chains.setIfInBounds sequence chain

/-- Go to the first page of a chain. -/
def toStart (sequence : Nat) : Procedure Unit := do
  let accessor ← Procedure.accessor
  let chain ← accessor.chain sequence
  let accessor := { accessor with current := none }
  Procedure.remember accessor
  if chain.first = invalidBlock then
    Procedure.remember { accessor with position := ⟨some sequence, chain.first, 0⟩ }
  else
    Procedure.pin chain.first
    let page ← Procedure.view chain.first
    if isMap page then
      Procedure.remember { accessor with position := ⟨some sequence, chain.first, logicalPageOf page⟩ }
    else Procedure.report (accessor.unexpectedPage chain.first page)

/-- Go to where the last page of a chain is as far as known. -/
def toEnd (sequence : Nat) : Procedure Unit := do
  let accessor ← Procedure.accessor
  let chain ← accessor.chain sequence
  Procedure.remember { accessor with position := ⟨some sequence, chain.last, chain.lastLogical⟩ }

/-- Follow the links from `next` on until the page with the number `target` is reached
or passed, visiting at most `rounds` pages. -/
def follow (target : UInt32) (next : BlockNumber) : (rounds : Nat) → Procedure Unit
  | 0 => Procedure.fail .exhausted
  | rounds + 1 => do
      let accessor ← Procedure.accessor
      let position := accessor.position
      if target ≤ position.logical ∨ next = invalidBlock then return ()
      Procedure.poll
      Procedure.pin next
      let page ← Procedure.view next
      if !isMap page then Procedure.report (accessor.unexpectedPage next page)
      let logical := logicalPageOf page
      if next ≠ position.page ∧ logical ≤ position.logical then
        Procedure.report (accessor.corrupted next
          s!"revmap chain goes from logical page {position.logical.toNat} to {logical.toNat}")
      Procedure.remember { accessor with position := { position with page := next, logical } }
      follow target (nextMapPage page) rounds

/-- Walk forward to the page with the number `target`. There is no result when the
chain ends before it or skips it. -/
def advance (rounds : Nat) (target : UInt32) : Procedure (Option BlockNumber) := do
  let start := (← Procedure.accessor).position
  if start.logical = 0 then return none
  follow target start.page rounds
  let position := (← Procedure.accessor).position
  return if position.logical = target then some position.page else none

/-- Lock the last page of a chain, if the chain has one. -/
def lockTail (accessor : Accessor) (tail : BlockNumber) : Procedure (Option Page) := do
  if tail = invalidBlock then return none
  Procedure.pin tail
  let page ← Procedure.acquire tail
  if isMap page then return some page
  else Procedure.report (accessor.unexpectedPage tail page)

/-- Add a page with the number `target` to a chain, provided that the metapage agrees
with the accessor about the end of the chain. -/
def extend (sequence : Nat) (target : UInt32) : Procedure Growth := do
  let accessor ← Procedure.accessor
  let known ← accessor.chain sequence
  let metapage ← Procedure.acquire metaBlock
  let contents ← Metapage.read metapage accessor.index metaBlock
  let actual := contents.chains[sequence]?.getD .empty
  if actual.last ≠ known.last then
    Procedure.remember { accessor with chains := setChain accessor.chains sequence actual }
    Procedure.releaseAll
    return .retry
  if target ≤ actual.lastLogical then Procedure.fail (.fault .failedAssertion)
  let block ← Procedure.allocate
  let page ← Procedure.acquire block
  if !page.isNew then Procedure.report (accessor.unexpectedPage block page)
  let tail ← lockTail accessor actual.last
  let page := setLogicalPage (freshPage mapType) target
  Procedure.change block page
  let linked ← match tail with
    | some tailPage => do
        let tailPage := setNextMapPage tailPage block
        Procedure.change actual.last tailPage
        pure [(actual.last, tailPage)]
    | none => pure []
  let grown : Chain :=
    ⟨if actual.last = invalidBlock then block else actual.first, block, target⟩
  let metapage := { contents with chains := setChain contents.chains sequence grown }.write metapage
  Procedure.change metaBlock metapage
  Procedure.remember { accessor with chains := setChain accessor.chains sequence grown }
  Procedure.logged (.extendMap block true (UInt32.ofNat sequence) target actual.last)
    ([(metaBlock, metapage), (block, page)] ++ linked)
  Procedure.releaseAll
  return .extended block

end Chains

end Warehouse.RangeIndex
