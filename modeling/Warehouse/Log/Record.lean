import Warehouse.Block

/-! # Redo records

One record stands for one change of an index: what is needed to make the change
again on pages that do not have it yet. -/

namespace Warehouse.Log

/-- The changes that are logged. Records that touch an entry of the range map name
the table block together with the rule that assigns it to its range. -/
inductive Record where
  /-- The metapage of a new index was written. -/
  | createIndex (pagesPerRange : UInt32) (appendOnly : Bool)
  /-- A range map page was added; in an append-only index at the end of a chain. -/
  | extendMap (target : BlockNumber) (appendOnly : Bool) (sequence : UInt32)
      (logicalPage : UInt32) (previousTail : BlockNumber)
  /-- A summary was stored on a regular page and linked from the range map. -/
  | insert (heapBlock : BlockNumber) (pagesPerRange : UInt32) (appendOnly : Bool)
      (mapBlock : BlockNumber) (block : BlockNumber) (offset : OffsetNumber)
      (tuple : List UInt8) (freshPage : Bool)
  /-- A summary was stored at a new place and taken from the old one. -/
  | update (heapBlock : BlockNumber) (pagesPerRange : UInt32) (appendOnly : Bool)
      (mapBlock : BlockNumber) (oldBlock : BlockNumber) (oldOffset : OffsetNumber)
      (newBlock : BlockNumber) (newOffset : OffsetNumber) (tuple : List UInt8) (freshPage : Bool)
  /-- The summary of a range was removed. -/
  | desummarize (pagesPerRange : UInt32) (appendOnly : Bool) (heapBlock : BlockNumber)
      (mapBlock : BlockNumber) (block : BlockNumber) (offset : OffsetNumber)
  deriving DecidableEq, Repr

/-- The name of the kind of change. -/
def Record.kind : Record → String
  | .createIndex .. => "create_index"
  | .extendMap .. => "revmap_extend"
  | .insert .. => "insert"
  | .update .. => "update"
  | .desummarize .. => "desummarize"

end Warehouse.Log
