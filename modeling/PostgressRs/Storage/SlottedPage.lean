import PostgressRs.Types

/-!
Slotted heap pages (`src/storage/heap_page.rs`).  Tuple lengths are not stored:
`deserialize` ends a tuple where the nearest earlier normal slot starts.  A
`none` of `serialize`, `deserialize`, `addTuple` or `hotUpdate` is a panic.
-/

namespace PostgressRs.Storage.SlottedPage

open PostgressRs.Lib.ByteBuffer

def pageSize : Nat := 8192
def pageHeaderSize : Nat := 26
def linePointerSize : Nat := 4

structure PageHeader where
  pdLsn : UInt64
  pdChecksum : UInt32
  pdFlags : UInt16
  pdLower : UInt16
  pdUpper : UInt16
  pdSpecial : UInt16
  pdPagesizeVersion : UInt16
  pdPruneXid : UInt32
deriving DecidableEq

namespace PageHeader

def new : PageHeader where
  pdLsn := 0
  pdChecksum := 0
  pdFlags := 0
  pdLower := UInt16.ofNat pageHeaderSize
  pdUpper := UInt16.ofNat pageSize
  pdSpecial := UInt16.ofNat pageSize
  pdPagesizeVersion := 0x0802
  pdPruneXid := 0

def serialize (header : PageHeader) : Bytes :=
  toLeBytes 8 header.pdLsn.toNat ++ toLeBytes 4 header.pdChecksum.toNat ++
    toLeBytes 2 header.pdFlags.toNat ++ toLeBytes 2 header.pdLower.toNat ++
    toLeBytes 2 header.pdUpper.toNat ++ toLeBytes 2 header.pdSpecial.toNat ++
    toLeBytes 2 header.pdPagesizeVersion.toNat ++ toLeBytes 4 header.pdPruneXid.toNat

def deserialize (data : Bytes) : Option PageHeader := do
  let pdLsn ← slice data 0 8
  let pdChecksum ← slice data 8 12
  let pdFlags ← slice data 12 14
  let pdLower ← slice data 14 16
  let pdUpper ← slice data 16 18
  let pdSpecial ← slice data 18 20
  let pdPagesizeVersion ← slice data 20 22
  let pdPruneXid ← slice data 22 26
  pure
    { pdLsn := UInt64.ofNat (fromLeBytes pdLsn)
      pdChecksum := UInt32.ofNat (fromLeBytes pdChecksum)
      pdFlags := UInt16.ofNat (fromLeBytes pdFlags)
      pdLower := UInt16.ofNat (fromLeBytes pdLower)
      pdUpper := UInt16.ofNat (fromLeBytes pdUpper)
      pdSpecial := UInt16.ofNat (fromLeBytes pdSpecial)
      pdPagesizeVersion := UInt16.ofNat (fromLeBytes pdPagesizeVersion)
      pdPruneXid := UInt32.ofNat (fromLeBytes pdPruneXid) }

end PageHeader

structure LinePointer where
  lpOffset : UInt16
  lpFlags : UInt16
deriving DecidableEq

def lpNormal : UInt16 := 0
def lpRedirect : UInt16 := 1
def lpDead : UInt16 := 2

namespace LinePointer

def new (offset : UInt16) : LinePointer := ⟨offset, lpNormal⟩

def serialize (lp : LinePointer) : Bytes :=
  toLeBytes 2 lp.lpOffset.toNat ++ toLeBytes 2 lp.lpFlags.toNat

def deserialize (data : Bytes) : Option LinePointer := do
  let lpOffset ← slice data 0 2
  let lpFlags ← slice data 2 4
  pure ⟨UInt16.ofNat (fromLeBytes lpOffset), UInt16.ofNat (fromLeBytes lpFlags)⟩

end LinePointer

/-- `tuples` runs parallel to `linePointers`. -/
structure HeapPage where
  header : PageHeader
  linePointers : List LinePointer
  tuples : List Bytes
deriving DecidableEq

namespace HeapPage

def new : HeapPage := ⟨PageHeader.new, [], []⟩

/-- The tuple loop of `serialize`: normal tuples are written from `tupleOffset`
downwards and their line pointers moved there.  `tuples` is walked along with
the line pointers, which is `self.tuples.get(i)`. -/
def writeTuples : List LinePointer → List Bytes → Bytes → Nat →
    Option (List LinePointer × Bytes × Nat)
  | [], _, page, tupleOffset => some ([], page, tupleOffset)
  | lp :: lps, tuples, page, tupleOffset => do
      if lp.lpFlags = lpNormal then
        match tuples.head? with
        | some tupleData =>
            if tupleData.isEmpty then
              let (lps, page, tupleOffset) ← writeTuples lps tuples.tail page tupleOffset
              pure (lp :: lps, page, tupleOffset)
            else
              let tupleOffset ← checkedSub tupleOffset tupleData.length
              let page ← copyFromSlice page tupleOffset tupleData
              let lp := { lp with lpOffset := UInt16.ofNat tupleOffset }
              let (lps, page, tupleOffset) ← writeTuples lps tuples.tail page tupleOffset
              pure (lp :: lps, page, tupleOffset)
        | none =>
            let (lps, page, tupleOffset) ← writeTuples lps tuples.tail page tupleOffset
            pure (lp :: lps, page, tupleOffset)
      else
        let lp := { lp with lpOffset := 0 }
        let (lps, page, tupleOffset) ← writeTuples lps tuples.tail page tupleOffset
        pure (lp :: lps, page, tupleOffset)

def writeLinePointers : List LinePointer → Bytes → Nat → Option Bytes
  | [], page, _ => some page
  | lp :: lps, page, offset => do
      let page ← copyFromSlice page offset lp.serialize
      writeLinePointers lps page (offset + linePointerSize)

def serialize (self : HeapPage) : Option Bytes := do
  let page := List.replicate pageSize 0
  let (linePointers, page, tupleOffset) ←
    writeTuples self.linePointers self.tuples page pageSize
  let header :=
    { self.header with
      pdLower := UInt16.ofNat (pageHeaderSize + linePointers.length * linePointerSize)
      pdUpper := UInt16.ofNat tupleOffset }
  let page ← copyFromSlice page 0 header.serialize
  writeLinePointers linePointers page pageHeaderSize

def readLinePointers (data : Bytes) : Nat → Nat → Option (List LinePointer)
  | 0, _ => some []
  | count + 1, offset => do
      let lp ← LinePointer.deserialize (← slice data offset (offset + linePointerSize))
      let lps ← readLinePointers data count (offset + linePointerSize)
      pure (lp :: lps)

/-- Where a tuple ends: the start of the nearest earlier normal slot.  `seen`
holds the earlier slots, the nearest first. -/
def tupleEnd (header : PageHeader) (seen : List LinePointer) : Nat :=
  match seen.find? (fun lp => lp.lpFlags = lpNormal) with
  | some lp => lp.lpOffset.toNat
  | none => header.pdSpecial.toNat

def readTuples (data : Bytes) (header : PageHeader) :
    List LinePointer → List LinePointer → Option (List Bytes)
  | _, [] => some []
  | seen, lp :: lps => do
      let tuple ←
        if lp.lpFlags = lpNormal then
          let tupleStart := lp.lpOffset.toNat
          let tupleEnd := tupleEnd header seen
          if tupleStart < tupleEnd ∧ tupleEnd ≤ pageSize then slice data tupleStart tupleEnd
          else some []
        else some []
      let tuples ← readTuples data header (lp :: seen) lps
      pure (tuple :: tuples)

def deserialize (data : Bytes) : Option HeapPage := do
  let header ← PageHeader.deserialize data
  let numLinePointers :=
    (← checkedSub header.pdLower.toNat pageHeaderSize) / linePointerSize
  let linePointers ← readLinePointers data numLinePointers pageHeaderSize
  let tuples ← readTuples data header [] linePointers
  pure ⟨header, linePointers, tuples⟩

/-- The page after the call, and the slot used, if there was room. -/
def addTuple (self : HeapPage) (tupleData : Bytes) : Option (HeapPage × Option UInt16) := do
  let slotIndex :=
    (self.linePointers.findIdx? fun lp => lp.lpFlags = lpDead).map UInt16.ofNat
  let newLower :=
    if slotIndex.isNone then self.header.pdLower.toNat + linePointerSize
    else self.header.pdLower.toNat
  let newUpper ← checkedSub self.header.pdUpper.toNat tupleData.length
  if newUpper < newLower then
    pure (self, none)
  else
    let lp := LinePointer.new (UInt16.ofNat newUpper)
    match slotIndex with
    | some idx =>
        pure
          ({ header := { self.header with pdUpper := UInt16.ofNat newUpper }
             linePointers := self.linePointers.set idx.toNat lp
             tuples := self.tuples.set idx.toNat tupleData },
            some idx)
    | none =>
        pure
          ({ header :=
              { self.header with
                pdLower := UInt16.ofNat newLower
                pdUpper := UInt16.ofNat newUpper }
             linePointers := self.linePointers ++ [lp]
             tuples := self.tuples ++ [tupleData] },
            some (UInt16.ofNat self.linePointers.length))

/-- The slots `compact` keeps, each with its tuple; a missing tuple becomes empty. -/
def liveSlots : List LinePointer → List Bytes → List (LinePointer × Bytes)
  | [], _ => []
  | lp :: lps, tuples =>
      if lp.lpFlags ≠ lpDead then
        (lp, tuples.head?.getD []) :: liveSlots lps tuples.tail
      else liveSlots lps tuples.tail

/-- Total length of the tuples in normal slots. -/
def totalLen : List LinePointer → List Bytes → Nat
  | lp :: lps, tuple :: tuples =>
      (if lp.lpFlags = lpNormal then tuple.length else 0) + totalLen lps tuples
  | _, _ => 0

def compact (self : HeapPage) : Option HeapPage := do
  let live := liveSlots self.linePointers self.tuples
  let linePointers := live.map Prod.fst
  let tuples := live.map Prod.snd
  let pdUpper ← checkedSub pageSize (totalLen linePointers tuples)
  pure
    { header :=
        { self.header with
          pdLower := UInt16.ofNat (pageHeaderSize + linePointers.length * linePointerSize)
          pdUpper := UInt16.ofNat pdUpper }
      linePointers := linePointers
      tuples := tuples }

/-- Whether `prune` takes a slot's tuple.  A tuple of exactly 23 bytes passes the
length check and panics in the slice. -/
def prunable (cutoffXid : UInt32) (lp : LinePointer) (tupleData : Option Bytes) : Option Bool :=
  if lp.lpFlags ≠ lpNormal then some false
  else
    match tupleData with
    | none => some false
    | some tupleData =>
        if tupleData.length < 23 then some false
        else do
          let xmax := UInt64.ofNat (fromLeBytes (← slice tupleData 16 24))
          pure (xmax ≠ 0 && decide (xmax.toUInt32 < cutoffXid))

/-- The marking loop of `prune`: the line pointers after it and the number of
slots marked dead. -/
def markPrunable (cutoffXid : UInt32) :
    List LinePointer → List Bytes → Option (List LinePointer × Nat)
  | [], _ => some ([], 0)
  | lp :: lps, tuples => do
      let prunes ← prunable cutoffXid lp tuples.head?
      let (rest, count) ← markPrunable cutoffXid lps tuples.tail
      if prunes then pure ({ lp with lpFlags := lpDead } :: rest, count + 1)
      else pure (lp :: rest, count)

structure PruneResult where
  tuplesPruned : Nat
  chainsFollowed : Nat
  pagePruned : Bool

def prune (self : HeapPage) (cutoffXid : UInt32) : Option (HeapPage × PruneResult) := do
  let (linePointers, count) ← markPrunable cutoffXid self.linePointers self.tuples
  let result : PruneResult := ⟨count, 0, decide (0 < count)⟩
  if 0 < count then
    let header := { self.header with pdPruneXid := cutoffXid }
    let page ← compact { self with header := header, linePointers := linePointers }
    pure (page, result)
  else pure (self, result)

def hotUpdate (self : HeapPage) (oldSlot : UInt16) (newTupleData : Bytes) :
    Option (HeapPage × Option UInt16) :=
  match self.linePointers[oldSlot.toNat]? with
  | none => some (self, none)
  | some old =>
      if old.lpFlags ≠ lpNormal then some (self, none)
      else do
        let newLower := self.header.pdLower.toNat + linePointerSize
        let newUpper ← checkedSub self.header.pdUpper.toNat newTupleData.length
        if newUpper < newLower then
          pure (self, none)
        else
          let newSlot := UInt16.ofNat self.linePointers.length
          let linePointers := self.linePointers ++ [LinePointer.new (UInt16.ofNat newUpper)]
          pure
            ({ header :=
                { self.header with
                  pdLower := UInt16.ofNat newLower
                  pdUpper := UInt16.ofNat newUpper }
               linePointers := linePointers.set oldSlot.toNat ⟨newSlot, lpRedirect⟩
               tuples := self.tuples ++ [newTupleData] },
              some newSlot)

/-- The loop of `follow_chain`, which takes at most `budget` redirects. -/
def followFrom (lps : List LinePointer) (budget : Nat) (current : UInt16) : Option UInt16 :=
  match lps[current.toNat]? with
  | none => none
  | some lp =>
      if lp.lpFlags = lpNormal then some current
      else if lp.lpFlags = lpRedirect then
        match budget with
        | 0 => none
        | budget + 1 => followFrom lps budget lp.lpOffset
      else none

def followChain (self : HeapPage) (startSlot : UInt16) : Option UInt16 :=
  followFrom self.linePointers self.linePointers.length startSlot

def getTuple (self : HeapPage) (slot : UInt16) : Option Bytes :=
  match self.linePointers[slot.toNat]? with
  | some lp => if lp.lpFlags = lpNormal then self.tuples[slot.toNat]? else none
  | none => none

/-- `line_pointers[slot].lp_flags = LP_DEAD`. -/
def markDead (self : HeapPage) (slot : Nat) : HeapPage :=
  match self.linePointers[slot]? with
  | some lp =>
      { self with linePointers := self.linePointers.set slot { lp with lpFlags := lpDead } }
  | none => self

/-- `tuples[slot] = tuple_data`. -/
def setTuple (self : HeapPage) (slot : Nat) (tupleData : Bytes) : HeapPage :=
  { self with tuples := self.tuples.set slot tupleData }

end HeapPage

end PostgressRs.Storage.SlottedPage
