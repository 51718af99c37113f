/-! # Names for places in a relation

A relation is a sequence of pages. A block number names one of them and an
offset number names a slot of the line pointer array on a page, counted from
one. -/

namespace Warehouse

/-- Position of a page in its relation. -/
abbrev BlockNumber := UInt32

/-- Position in the line pointer array of a page, counted from one. -/
abbrev OffsetNumber := UInt16

/-- Position in the redo log: the end of the record that changed a page last. -/
abbrev Lsn := UInt64

/-- The block number that stands for no block. -/
def invalidBlock : BlockNumber := 0xFFFFFFFF

end Warehouse
