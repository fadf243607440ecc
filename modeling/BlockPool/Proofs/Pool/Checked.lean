import BlockPool.Proofs.Layout.Checked
import BlockPool.Proofs.Pool.Accounts
import BlockPool.Proofs.Pool.Partition

/-!
# Checked heaps

The operations on a heap with words that do not wrap and ranges that have to
exist.  On a sound heap they are the plain operations: the used bytes are those
of the used cells, so they neither pass the size of the buffer nor fall below
what is given back, and every cell lies in the buffer.
-/

namespace BlockPool

structure Counters.Below (c : Counters) (n : Nat) : Prop where
  allocations : c.allocations < n
  deallocations : c.deallocations < n
  resizes : c.resizes < n
  failures : c.failures < n

theorem Counters.Below.reach {c : Counters} {n : Nat} (few : c.Below n) (used : Nat) :
    (c.reach used).Below n :=
  ⟨few.allocations, few.deallocations, few.resizes, few.failures⟩

theorem Counters.Grows.below {c c' : Counters} {history : List Pool.Entry}
    {demands : List Nat} {n : Nat} (grows : c.Grows c' history demands)
    (few : c.Below n) : c'.Below (n + history.length) := by
  have counted (kind : Pool.Entry → Bool) {count : Nat} (low : count < n) :
      count + history.countP kind < n + history.length :=
    Nat.add_lt_add_of_lt_of_le low List.countP_le_length
  constructor
  · exact grows.allocations ▸ counted _ few.allocations
  · exact grows.deallocations ▸ counted _ few.deallocations
  · exact grows.resizes ▸ counted _ few.resizes
  · exact grows.failures ▸ counted _ few.failures

namespace Heap

open Layout

variable {heap : Heap} {cells : List Cell} {handle : Handle} {i n size : Nat} {b : Block}

/-! ## Operations -/

def count? (heap : Heap) (counter : Counters → Nat) (set : Nat → Counters → Counters) :
    Option Heap :=
  if heap.config.trackStats then do
    let value ← Word.add? (counter heap.counters) 1
    return { heap with counters := set value heap.counters }
  else
    some heap

def countFailure? (heap : Heap) : Option Heap :=
  heap.count? Counters.failures fun failures c => { c with failures }

def paint? (heap : Heap) (pattern : Option UInt8) (start length : Nat) : Option Heap :=
  match pattern with
  | none => some heap
  | some byte => do
      let stop ← Word.add? start length
      let buffer ← heap.buffer.fill? start stop byte
      return { heap with buffer }

/-- What is put to use, and filled, is as long as the record is then. -/
def claimAt? (heap : Heap) (index size : Nat) : Option Heap :=
  match heap.layout.get? index with
  | none => some heap
  | some record => do
      let layout ← heap.layout.claim? heap.config.recordEmptyRemainder index size
      let length := ((layout.get? index).map Record.size).getD size
      let used ← Word.add? heap.used length
      let heap := ({ heap with layout, used } : Heap).count fun counters =>
        { counters with peakUsed := max counters.peakUsed used }
      heap.paint? heap.config.allocPattern record.offset length

def release? (heap : Heap) (index : Nat) : Option (Nat × Heap) :=
  match heap.layout.get? index with
  | none => some (index, heap)
  | some record => do
      let used ← Word.sub? heap.used record.size
      let heap ← ({ heap with used } : Heap).paint? heap.config.deallocPattern
        record.offset record.size
      let (survivor, layout) ← heap.layout.release? heap.config.coalesce index
      return (survivor, { heap with layout })

def allocate? (heap : Heap) (size : Nat) : Option (Except PoolError Handle × Heap) :=
  match heap.layout.firstFit? size with
  | none => do
      let failed ← heap.countFailure?
      return (.error (heap.noRoom size), failed)
  | some index => do
      let heap ← heap.claimAt? index size
      let heap ← heap.count? Counters.allocations fun allocations c =>
        { c with allocations }
      return (heap.handleAt index, heap)

def deallocate? (heap : Heap) (handle : Handle) : Option (Except PoolError Unit × Heap) :=
  match heap.usedRecord handle with
  | .error error => some (.error error, heap)
  | .ok (index, _) => do
      let (_, heap) ← heap.release? index
      let heap ← heap.count? Counters.deallocations fun deallocations c =>
        { c with deallocations }
      return (.ok (), heap)

def move? (heap : Heap) (index : Nat) (record : Record) (target : Nat) :
    Option (Except PoolError Handle × Heap) :=
  match heap.layout.get? target with
  | none => some (.error (.corruption .claimLost), heap)
  | some claimed => do
      let stop ← Word.add? record.offset record.size
      let buffer ← heap.buffer.copy? record.offset stop claimed.offset
      let (_, heap) ← ({ heap with buffer } : Heap).release? index
      let heap ← heap.count? Counters.resizes fun resizes c => { c with resizes }
      return (heap.handleAt target, heap)

def resize? (heap : Heap) (handle : Handle) (size : Nat) :
    Option (Except PoolError Handle × Heap) :=
  match heap.usedRecord handle with
  | .error error => some (.error error, heap)
  | .ok (index, record) =>
      if size ≤ record.size then
        some (.ok handle, heap)
      else
        match heap.layout.firstFit? size with
        | none => do
            let failed ← heap.countFailure?
            return (.error (heap.noRoom size), failed)
        | some target => do
            let heap ← heap.claimAt? target size
            heap.move? index record target

def read? (heap : Heap) (handle : Handle) : Option (Except PoolError (List UInt8)) :=
  match heap.block handle with
  | .error error => some (.error error)
  | .ok block => do
      let stop ← Word.add? block.offset block.size
      let bytes ← heap.buffer.slice? block.offset stop
      return .ok bytes

def accessEnd? (offset length size : Nat) : Option Nat :=
  (Word.add? offset length).filter (· ≤ size)

def readAt? (heap : Heap) (handle : Handle) (offset length : Nat) :
    Option (Except PoolError (List UInt8)) := do
  match ← heap.read? handle with
  | .error error => return .error error
  | .ok bytes =>
      match accessEnd? offset length bytes.length with
      | none => return .error (.outOfBounds offset length bytes.length)
      | some stop =>
          let part ← Buffer.part? bytes offset stop
          return .ok part

/-- The bytes are copied only over as many places as there are bytes. -/
def write? (heap : Heap) (handle : Handle) (offset : Nat) (data : List UInt8) :
    Option (Except PoolError Unit × Heap) :=
  match heap.block handle with
  | .error error => some (.error error, heap)
  | .ok block => do
      let stop ← Word.add? block.offset block.size
      let size ← Word.span? block.offset stop heap.size
      match accessEnd? offset data.length size with
      | none => return (.error (.outOfBounds offset data.length size), heap)
      | some stop =>
          let length ← Word.span? offset stop size
          if length = data.length then
            return (.ok (), heap.written (block.offset + offset) data)
          else
            none

def tally? : List Nat → Nat → Nat → Option (Nat × Nat)
  | [], bytes, count => some (bytes, count)
  | size :: rest, bytes, count => do
      let bytes ← Word.add? bytes size
      let count ← Word.add? count 1
      tally? rest bytes count

def statistics? (heap : Heap) : Option Statistics := do
  let (freeBytes, freeBlockCount) ← tally? heap.layout.freeSizes 0 0
  return { heap.statistics with freeBytes, freeBlockCount }

def check? (heap : Heap) : Option (Except PoolError Unit) := do
  match ← heap.layout.audit? heap.size with
  | .error fault => return .error (.corruption (.layout fault))
  | .ok () =>
      let allocated ← Word.sum? heap.layout.usedSizes
      if allocated = heap.used then
        return .ok ()
      else
        return .error (.corruption (.accounting allocated heap.used))

/-! ## The parts of the operations -/

theorem count?_eq {counter : Counters → Nat} {set : Nat → Counters → Counters}
    (small : counter heap.counters + 1 < UInt64.size) :
    heap.count? counter set = some (heap.count fun c => set (counter c + 1) c) := by
  unfold count? count
  split
  · rw [Word.add?_eq small]
    rfl
  · rfl

theorem countFailure?_eq (few : heap.counters.Below n) (room : n < UInt64.size) :
    heap.countFailure? = some heap.countFailure :=
  count?_eq (Nat.lt_of_le_of_lt few.failures room)

theorem paint?_eq (bounded : heap.size < UInt64.size) (pattern : Option UInt8)
    {start length : Nat} (inside : start + length ≤ heap.size) :
    heap.paint? pattern start length = some (heap.paint pattern start length) := by
  cases pattern with
  | none => rfl
  | some byte =>
      simp only [paint?, Word.add?_eq (Nat.lt_of_le_of_lt inside bounded),
        Option.bind_eq_bind, Option.bind_some, Buffer.fill?_eq inside, Option.pure_def]
      rfl

theorem Sound.used_le (h : heap.Sound cells) : heap.used ≤ heap.size :=
  Nat.le_of_add_right_le (Nat.le_of_eq h.describes.total)

theorem Sound.claimAt?_eq (h : heap.Sound cells) (bounded : heap.size < UInt64.size)
    (member : (i, b) ∈ cells) (fit : fits size b = true)
    (slots : (heap.claimAt i size).layout.slotCount < UInt32.size) :
    heap.claimAt? i size = some (heap.claimAt i size) := by
  obtain ⟨cells', claimed⟩ := h.exists_claimAt member fit
  obtain ⟨now, _⟩ := h.claimAt_used member fit claimed
  obtain ⟨_, _, after⟩ := claimed.chains.get?_of_mem (mem_usedCells.mp now).1
  have used := claimed.used_le
  have whole := h.inside member
  have room := (fits_iff.mp fit).2
  rw [h.used_claimAt member, size_claimAt] at used
  obtain ⟨before, rest, rfl⟩ := List.append_of_mem member
  have found := h.chains.get?_of_split
  rw [layout_claimAt] at slots after
  simp only [claimAt?, found, Option.bind_eq_bind, Option.bind_some, after,
    h.chains.claim?_eq room (Nat.lt_of_le_of_lt whole bounded) slots, Option.map_some,
    Block.size_record, Option.getD_some, Word.add?_eq (Nat.lt_of_le_of_lt used bounded),
    claimAt_eq found, Block.offset_record, config_count]
  refine paint?_eq ?_ _ ?_
  · rw [size_count]
    exact bounded
  · rw [size_count]
    exact Nat.le_trans (Nat.add_le_add_left room _) whole

theorem Sound.release?_eq (h : heap.Sound cells) (bounded : heap.size < UInt64.size)
    (used : (i, b) ∈ usedCells cells) : heap.release? i = some (heap.release i) := by
  obtain ⟨member, inUse⟩ := mem_usedCells.mp used
  have whole := h.inside member
  obtain ⟨before, rest, rfl⟩ := List.append_of_mem member
  have found := h.chains.get?_of_split
  have enough : b.size ≤ heap.used := by
    rw [h.used_eq, List.map_append, usedTotal_append, List.map_cons, usedTotal, inUse]
    simp only [Bool.false_eq_true, if_false]
    omega
  have paint := @paint?_eq { heap with used := heap.used - b.size } bounded
    heap.config.deallocPattern b.offset b.size whole
  simp only [release?, found, Option.bind_eq_bind, Option.bind_some, Block.size_record,
    Block.offset_record, Word.sub?_eq enough, paint, layout_paint, config_paint,
    h.chains.release?_eq h.covers bounded, Option.pure_def, release_eq found]
  cases heap.config.deallocPattern <;> rfl

/-- A block that the books have lost cannot be given back. -/
example : ({ (Heap.ofSize 8 .debug).claimAt 0 8 with used := 0 } : Heap).release? 0 = none := by
  decide

theorem Sound.below_claimAt (h : heap.Sound cells) (few : heap.counters.Below n)
    (member : (i, b) ∈ cells) (size : Nat) : (heap.claimAt i size).counters.Below n := by
  rw [h.counters_claimAt member]
  split
  · exact few.reach _
  · exact few

theorem below_release (heap : Heap) (few : heap.counters.Below n) (i : Nat) :
    (heap.release i).2.counters.Below n := by
  rw [counters_release]
  exact few

theorem accessEnd?_eq {offset length : Nat} (small : size < UInt64.size) :
    accessEnd? offset length size =
      if offset + length ≤ size then some (offset + length) else none := by
  rw [accessEnd?, Word.add?]
  split
  · simp [Option.filter_some]
  · next large =>
      rw [if_neg (by omega)]
      rfl

/-! ## The operations -/

theorem Sound.allocate?_eq (h : heap.Sound cells) (bounded : heap.size < UInt64.size)
    (few : heap.counters.Below n) (room : n < UInt64.size)
    (slots : (heap.allocate size).2.layout.slotCount < UInt32.size) :
    heap.allocate? size = some (heap.allocate size) := by
  rw [allocate] at slots ⊢
  rw [allocate?]
  cases found : heap.layout.firstFit? size with
  | none =>
      simp only [countFailure?_eq few room]
      rfl
  | some i =>
      obtain ⟨b, member, fit⟩ := h.fit_of_firstFit? found
      simp only [found, layout_count] at slots
      have low := (h.below_claimAt few member size).allocations
      simp only [h.claimAt?_eq bounded member fit slots, Option.bind_eq_bind, Option.bind_some,
        count?_eq (Nat.lt_of_le_of_lt low room)]
      rfl

theorem Sound.deallocate?_eq (h : heap.Sound cells) (bounded : heap.size < UInt64.size)
    (few : heap.counters.Below n) (room : n < UInt64.size) (handle : Handle) :
    heap.deallocate? handle = some (heap.deallocate handle) := by
  rw [deallocate?, deallocate]
  cases named : heap.range? handle with
  | none => rw [usedRecord_of_range?_eq_none named]
  | some b =>
      obtain ⟨record, read, rfl⟩ := exists_usedRecord_of_range? named
      have used := (h.range?_eq_some_iff.mp named).1
      have low := (below_release heap few handle.index.toNat).deallocations
      simp only [read, h.release?_eq bounded used, Option.bind_eq_bind, Option.bind_some,
        count?_eq (Nat.lt_of_le_of_lt low room)]
      rfl

theorem Sound.move?_eq (h : heap.Sound cells) (bounded : heap.size < UInt64.size)
    (few : heap.counters.Below n) (room : n < UInt64.size) {target : Nat}
    {record claimed : Record} (source : (i, record.block) ∈ usedCells cells)
    (found : heap.layout.get? target = some claimed) (larger : record.size ≤ claimed.size) :
    heap.move? i record target =
      let copied := heap.copy record.offset claimed.offset record.size
      let moved := (copied.release i).2.count Counters.addResize
      some (moved.handleAt target, moved) := by
  have inside : record.offset + record.size ≤ heap.buffer.size :=
    h.inside (mem_usedCells.mp source).1
  have whole : claimed.offset + claimed.size ≤ heap.buffer.size :=
    h.inside (h.chains.mem_of_get? found)
  have copied : (heap.copy record.offset claimed.offset record.size).Sound cells :=
    h.congr rfl (size_copy ..) rfl
  have copy := Buffer.copy?_eq inside (Nat.le_trans (Nat.add_le_add_left larger _) whole)
  have release := copied.release?_eq (lt_of_eq_of_lt (size_copy ..) bounded) source
  have low := (below_release (heap.copy record.offset claimed.offset record.size) few i).resizes
  simp only [move?, found, Word.add?_eq (Nat.lt_of_le_of_lt inside bounded),
    Option.bind_eq_bind, Option.bind_some, copy]
  change (Heap.release? (heap.copy record.offset claimed.offset record.size) i).bind _ = _
  simp only [release, Option.bind_some, count?_eq (Nat.lt_of_le_of_lt low room)]
  rfl

theorem Sound.resize?_eq (h : heap.Sound cells) (bounded : heap.size < UInt64.size)
    (few : heap.counters.Below n) (room : n < UInt64.size) (handle : Handle)
    (slots : (heap.resize handle size).2.layout.slotCount < UInt32.size) :
    heap.resize? handle size = some (heap.resize handle size) := by
  cases named : heap.range? handle with
  | none => rw [resize?, resize, usedRecord_of_range?_eq_none named]
  | some b =>
      obtain ⟨record, read, rfl⟩ := exists_usedRecord_of_range? named
      by_cases large : size ≤ record.size
      · rw [resize_of_le named large, resize?, read]
        exact if_pos large
      · have larger := Nat.lt_of_not_le large
        cases found : heap.layout.firstFit? size with
        | none =>
            rw [resize_of_noRoom named larger found]
            simp only [resize?, read, found, countFailure?_eq few room]
            exact if_neg large
        | some target =>
            obtain ⟨c, member, fit⟩ := h.fit_of_firstFit? found
            rw [h.resize_of_fit named larger member fit found, moved, layout_count,
              slotCount_release] at slots
            obtain ⟨_, cells₂, copied, source⟩ := h.exists_copied named member fit
            obtain ⟨cells₁, claimed⟩ := h.exists_claimAt member fit
            obtain rfl := claimed.chains.unique copied.chains
            obtain ⟨now, _⟩ := h.claimAt_used member fit claimed
            obtain ⟨prev, next, there⟩ := claimed.chains.get?_of_mem (mem_usedCells.mp now).1
            have move := claimed.move?_eq (lt_of_eq_of_lt (size_claimAt ..) bounded)
              (h.below_claimAt few member size) room source there (Nat.le_of_lt larger)
            simp only [resize?, resize, read, found, there,
              h.claimAt?_eq bounded member fit slots, Option.bind_eq_bind, Option.bind_some]
            rw [if_neg large, if_neg large]
            exact move

theorem Sound.read?_eq (h : heap.Sound cells) (bounded : heap.size < UInt64.size)
    (handle : Handle) : heap.read? handle = some (heap.read handle) := by
  rw [read?, read, block_eq]
  cases named : heap.range? handle with
  | none => rfl
  | some b =>
      have inside : b.offset + b.size ≤ heap.buffer.size := h.range?_inside named
      simp only [Word.add?_eq (Nat.lt_of_le_of_lt inside bounded), Option.bind_eq_bind,
        Option.bind_some, Buffer.slice?_eq inside]
      rfl

theorem Sound.readAt?_eq (h : heap.Sound cells) (bounded : heap.size < UInt64.size)
    (handle : Handle) (offset length : Nat) :
    heap.readAt? handle offset length = some (heap.readAt handle offset length) := by
  rw [readAt?, h.read?_eq bounded, read, readAt, block_eq]
  cases named : heap.range? handle with
  | none => rfl
  | some b =>
      have inside : b.offset + b.size ≤ heap.buffer.size := h.range?_inside named
      have small : b.size < UInt64.size :=
        Nat.lt_of_le_of_lt (Nat.le_trans (Nat.le_add_left ..) inside) bounded
      simp only [Except.map, Option.bind_eq_bind, Option.bind_some, Buffer.length_slice inside,
        accessEnd?_eq small]
      by_cases within : offset + length ≤ b.size
      · simp only [if_pos within, Buffer.part?_slice inside within, Option.bind_some,
          Option.pure_def]
      · simp only [if_neg within, Option.pure_def]

theorem Sound.write?_eq (h : heap.Sound cells) (bounded : heap.size < UInt64.size)
    (handle : Handle) (offset : Nat) (data : List UInt8) :
    heap.write? handle offset data = some (heap.write handle offset data) := by
  rw [write?, write_eq, block_eq]
  cases named : heap.range? handle with
  | none => rfl
  | some b =>
      have inside : b.offset + b.size ≤ heap.size := h.range?_inside named
      have small : b.size < UInt64.size :=
        Nat.lt_of_le_of_lt (Nat.le_trans (Nat.le_add_left ..) inside) bounded
      simp only [Word.add?_eq (Nat.lt_of_le_of_lt inside bounded), Word.span?_eq inside,
        Option.bind_eq_bind, Option.bind_some, accessEnd?_eq small]
      by_cases within : offset + data.length ≤ b.size
      · simp only [if_pos within, Word.span?_eq within, Option.bind_some, if_true,
          Option.pure_def]
      · simp only [if_neg within, Option.pure_def]

theorem tally?_eq (sizes : List Nat) {bytes count : Nat}
    (room : bytes + sizes.sum < UInt64.size) (few : count + sizes.length < UInt64.size) :
    tally? sizes bytes count = some (bytes + sizes.sum, count + sizes.length) := by
  induction sizes generalizing bytes count with
  | nil => rfl
  | cons size rest ih =>
      rw [List.sum_cons, ← Nat.add_assoc] at room ⊢
      rw [List.length_cons, Nat.add_comm rest.length, ← Nat.add_assoc] at few ⊢
      simp only [tally?, Option.bind_eq_bind, Option.bind_some,
        Word.add?_eq (show bytes + size < UInt64.size by omega),
        Word.add?_eq (show count + 1 < UInt64.size by omega)]
      exact ih room few

theorem Sound.live_lt (h : heap.Sound cells) (slots : heap.layout.slotCount < UInt32.size) :
    heap.layout.live + 1 < UInt64.size := by
  have live : heap.layout.live ≤ heap.layout.slotCount := h.chains.sound.live_le
  have words : UInt32.size < UInt64.size := by decide
  omega

theorem Sound.statistics?_eq (h : heap.Sound cells) (bounded : heap.size < UInt64.size)
    (slots : heap.layout.slotCount < UInt32.size) :
    heap.statistics? = some heap.statistics := by
  have total : heap.used + heap.layout.freeSizes.sum = heap.size := h.describes.total
  have live := h.chains.live_eq
  have few := h.live_lt slots
  have tally : tally? heap.layout.freeSizes 0 0 =
      some (0 + heap.layout.freeSizes.sum, 0 + heap.layout.freeSizes.length) :=
    tally?_eq _ (by omega) (by omega)
  simp only [statistics?, tally, Option.bind_eq_bind, Option.bind_some, Nat.zero_add]
  rfl

theorem Sound.check?_eq (h : heap.Sound cells) (bounded : heap.size < UInt64.size)
    (slots : heap.layout.slotCount < UInt32.size) : heap.check? = some heap.check := by
  have used : heap.layout.usedSizes.sum = heap.used := h.layout_usedBytes
  have total : heap.layout.usedSizes.sum < UInt64.size :=
    Nat.lt_of_le_of_lt (Nat.le_trans (Nat.le_of_eq used) h.used_le) bounded
  rw [h.check_eq bounded]
  simp only [check?, audit?_eq (h.live_lt slots), h.chains.audit_eq h.covers bounded,
    Word.sum?_eq total, Option.bind_eq_bind, Option.bind_some]
  exact if_pos used

end Heap

end BlockPool
