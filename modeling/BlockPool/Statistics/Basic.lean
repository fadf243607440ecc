import BlockPool.Statistics.FixedPlaces

/-!
# Statistics of a pool

The sizes and the block counts describe the layout of the moment; the other
fields count operations since the pool was set up.
-/

namespace BlockPool

structure Statistics where
  poolSize : Nat := 0
  usedBytes : Nat := 0
  freeBytes : Nat := 0
  largestFreeBlock : Nat := 0
  blockCount : Nat := 0
  freeBlockCount : Nat := 0
  allocationCount : Nat := 0
  deallocationCount : Nat := 0
  resizeCount : Nat := 0
  failedAllocations : Nat := 0
  peakUsedBytes : Nat := 0
  deriving DecidableEq, Repr

namespace Statistics

def ratio (part whole : Nat) : Float :=
  part.toUInt64.toFloat / whole.toUInt64.toFloat

def fragmentation (s : Statistics) : Float :=
  if s.freeBytes = 0 then 0 else 1 - ratio s.largestFreeBlock s.freeBytes

def utilization (s : Statistics) : Float :=
  if s.poolSize = 0 then 0 else ratio s.usedBytes s.poolSize

/-- Whether some block is allocated, one of size zero included. -/
def hasActiveAllocations (s : Statistics) : Bool :=
  0 < s.usedBytes || s.freeBlockCount < s.blockCount

/-! ## Text -/

def percent (share : Float) : String := FixedPlaces.text 1 (share * 100)

def lines (s : Statistics) : List String :=
  [ "Pool Statistics:",
    s!"  Pool size: {s.poolSize} bytes",
    s!"  Used: {s.usedBytes} bytes ({percent s.utilization}%)",
    s!"  Free: {s.freeBytes} bytes",
    s!"  Largest free block: {s.largestFreeBlock} bytes",
    s!"  Blocks: {s.blockCount} ({s.freeBlockCount} free)",
    s!"  Fragmentation: {percent s.fragmentation}%",
    s!"  Allocations: {s.allocationCount}",
    s!"  Deallocations: {s.deallocationCount}",
    s!"  Resizes: {s.resizeCount}",
    s!"  Failed allocations: {s.failedAllocations}",
    s!"  Peak used: {s.peakUsedBytes} bytes" ]

def text (s : Statistics) : String := "\n".intercalate s.lines

end Statistics

end BlockPool
