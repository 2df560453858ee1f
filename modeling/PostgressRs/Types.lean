import PostgressRs.Lib.ByteBuffer

/-!
Core types (`src/types/mod.rs`).
-/

namespace PostgressRs.Types

open PostgressRs.Lib.ByteBuffer

structure Oid where
  val : UInt32
deriving DecidableEq

structure PageId where
  val : UInt32
deriving DecidableEq

structure SlotId where
  val : UInt16
deriving DecidableEq

structure ItemPointerData where
  pageId : PageId
  offset : UInt16
deriving DecidableEq

/-- A heap tuple version.  `xmin` and `xmax` are the xids that created and
deleted it; `xmax = 0` means not deleted. -/
structure Tuple where
  slots : List SlotId
  data : Bytes
  xmin : UInt64
  xmax : UInt64
  cmin : UInt32
  cmax : UInt32
  xvac : UInt64
deriving DecidableEq

structure Attribute where
  name : String
  typeOid : Oid
  attnum : Int16
  typmod : Int32
deriving DecidableEq

structure TupleDesc where
  fields : List Attribute
deriving DecidableEq

structure Relation where
  relOid : Oid
  name : String
  tupleDesc : TupleDesc
  pages : List PageId
deriving DecidableEq

end PostgressRs.Types
