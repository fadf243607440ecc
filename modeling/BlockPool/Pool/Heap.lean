import BlockPool.Memory.Buffer
import BlockPool.Pool.Error
import BlockPool.Statistics.Basic

/-!
# Heaps

A heap is a buffer, the layout that cuts it into blocks, and the accounts of
its use.  Blocks are named by handles.  An operation that fails leaves the heap
as it was, except that a request which finds no room is counted.
-/

namespace BlockPool

structure Counters where
  allocations : Nat := 0
  deallocations : Nat := 0
  resizes : Nat := 0
  failures : Nat := 0
  peakUsed : Nat := 0
  deriving DecidableEq, Repr

structure Heap where
  buffer : Buffer
  layout : Layout
  config : Config
  /-- Number of bytes in used blocks. -/
  used : Nat
  counters : Counters
  deriving DecidableEq, Repr

namespace Heap

def ofSize (size : Nat) (config : Config) : Heap :=
  { buffer := .zeros size
    layout := .spanning size
    config
    used := 0
    counters := {} }

def size (heap : Heap) : Nat := heap.buffer.size

def count (heap : Heap) (change : Counters → Counters) : Heap :=
  if heap.config.trackStats then
    { heap with counters := change heap.counters }
  else
    heap

def paint (heap : Heap) (pattern : Option UInt8) (start length : Nat) : Heap :=
  match pattern with
  | none => heap
  | some byte => { heap with buffer := heap.buffer.fill start length byte }

/-! ## Claiming and releasing records -/

def claimAt (heap : Heap) (index size : Nat) : Heap :=
  match heap.layout.get? index with
  | none => heap
  | some record =>
      let keepEmpty := heap.config.recordEmptyRemainder
      let pattern := heap.config.allocPattern
      let heap :=
        { heap with
          layout := heap.layout.claim keepEmpty index size
          used := heap.used + size }
      let used := heap.used
      let heap := heap.count fun counters =>
        { counters with peakUsed := max counters.peakUsed used }
      heap.paint pattern record.offset size

def claim (heap : Heap) (size : Nat) : Option Nat × Heap :=
  match heap.layout.firstFit? size with
  | none => (none, heap)
  | some index => (some index, heap.claimAt index size)

/-- Frees a record and merges it; returns the index that its bytes belong to then. -/
def release (heap : Heap) (index : Nat) : Nat × Heap :=
  match heap.layout.get? index with
  | none => (index, heap)
  | some record =>
      let policy := heap.config.coalesce
      let pattern := heap.config.deallocPattern
      let (survivor, layout) := heap.layout.release policy index
      let heap := { heap with layout, used := heap.used - record.size }
      (survivor, heap.paint pattern record.offset record.size)

/-! ## Looking up blocks -/

def largestFree (heap : Heap) : Nat := heap.layout.largestFree

def handleAt (heap : Heap) (index : Nat) : Except PoolError Handle :=
  match heap.layout.handle? index with
  | none => .error (.corruption (.vacantSlot index))
  | some handle => .ok handle

def usedRecord (heap : Heap) (handle : Handle) :
    Except PoolError (Nat × Record) :=
  match heap.layout.resolve? handle with
  | none => .error (.notFound handle)
  | some index =>
      match heap.layout.get? index with
      | none => .error (.notFound handle)
      | some record =>
          if record.free then .error (.notFound handle) else .ok (index, record)

/-! ## Operations -/

def noRoom (heap : Heap) (size : Nat) : PoolError :=
  .allocationFailed size heap.largestFree

def countFailure (heap : Heap) : Heap :=
  heap.count fun counters => { counters with failures := counters.failures + 1 }

def allocate (heap : Heap) (size : Nat) : Except PoolError Handle × Heap :=
  match heap.layout.firstFit? size with
  | none => (.error (heap.noRoom size), heap.countFailure)
  | some index =>
      let heap := (heap.claimAt index size).count fun counters =>
        { counters with allocations := counters.allocations + 1 }
      (heap.handleAt index, heap)

def deallocate (heap : Heap) (handle : Handle) : Except PoolError Unit × Heap :=
  match heap.usedRecord handle with
  | .error error => (.error error, heap)
  | .ok (index, _) =>
      let heap := (heap.release index).2.count fun counters =>
        { counters with deallocations := counters.deallocations + 1 }
      (.ok (), heap)

def copy (heap : Heap) (source target length : Nat) : Heap :=
  { heap with
    buffer := heap.buffer.overwrite target (heap.buffer.slice source length) }

def resize (heap : Heap) (handle : Handle) (size : Nat) :
    Except PoolError Handle × Heap :=
  match heap.usedRecord handle with
  | .error error => (.error error, heap)
  | .ok (index, record) =>
      if size ≤ record.size then
        (.ok handle, heap)
      else
        match heap.layout.firstFit? size with
        | none => (.error (heap.noRoom size), heap.countFailure)
        | some target =>
            let heap := heap.claimAt target size
            match heap.layout.get? target with
            | none => (.error (.corruption .claimLost), heap)
            | some claimed =>
                let heap := heap.copy record.offset claimed.offset record.size
                let heap := (heap.release index).2.count fun counters =>
                  { counters with resizes := counters.resizes + 1 }
                (heap.handleAt target, heap)

/-! ## Access to the bytes of a block -/

def block (heap : Heap) (handle : Handle) : Except PoolError Block :=
  (heap.usedRecord handle).map fun found => found.2.block

def read (heap : Heap) (handle : Handle) : Except PoolError (List UInt8) :=
  (heap.block handle).map fun block => heap.buffer.slice block.offset block.size

def readAt (heap : Heap) (handle : Handle) (offset length : Nat) :
    Except PoolError (List UInt8) :=
  match heap.block handle with
  | .error error => .error error
  | .ok block =>
      if offset + length ≤ block.size then
        .ok (heap.buffer.slice (block.offset + offset) length)
      else
        .error (.outOfBounds offset length block.size)

def write (heap : Heap) (handle : Handle) (offset : Nat) (data : List UInt8) :
    Except PoolError Unit × Heap :=
  match heap.block handle with
  | .error error => (.error error, heap)
  | .ok block =>
      if offset + data.length ≤ block.size then
        (.ok (),
          { heap with
            buffer := heap.buffer.overwrite (block.offset + offset) data })
      else
        (.error (.outOfBounds offset data.length block.size), heap)

/-! ## Accounts -/

def statistics (heap : Heap) : Statistics :=
  { poolSize := heap.size
    usedBytes := heap.used
    freeBytes := heap.layout.freeBytes
    largestFreeBlock := heap.largestFree
    blockCount := heap.layout.live
    freeBlockCount := heap.layout.freeSizes.length
    allocationCount := heap.counters.allocations
    deallocationCount := heap.counters.deallocations
    resizeCount := heap.counters.resizes
    failedAllocations := heap.counters.failures
    peakUsedBytes := heap.counters.peakUsed }

def check (heap : Heap) : Except PoolError Unit :=
  match heap.layout.audit heap.size with
  | .error fault => .error (.corruption (.layout fault))
  | .ok () =>
      let allocated := heap.layout.usedBytes
      if allocated = heap.used then
        .ok ()
      else
        .error (.corruption (.accounting allocated heap.used))

end Heap

end BlockPool
