import BlockPool.Proofs.Pool.Range

/-!
# How the operations on a heap end

Each operation fails and leaves the layout and the buffer as they were, or
claims and releases cells of a sound heap.  A handle that an operation gives
out is the one of the cell that it claimed.
-/

namespace BlockPool

namespace Counters

def addAllocation (c : Counters) : Counters := { c with allocations := c.allocations + 1 }

def addDeallocation (c : Counters) : Counters :=
  { c with deallocations := c.deallocations + 1 }

def addResize (c : Counters) : Counters := { c with resizes := c.resizes + 1 }

end Counters

namespace Heap

open Layout

variable {heap : Heap} {cells : List Cell} {handle : Handle} {i target size : Nat}
  {b c : Block}

/-! ## What operations leave behind -/

def placed (heap : Heap) (index size : Nat) : Heap :=
  (heap.claimAt index size).count Counters.addAllocation

def freed (heap : Heap) (index : Nat) : Heap :=
  (heap.release index).2.count Counters.addDeallocation

def copied (heap : Heap) (source : Block) (target : Cell) (size : Nat) : Heap :=
  (heap.claimAt target.1 size).copy source.offset target.2.offset source.size

def moved (heap : Heap) (index : Nat) (source : Block) (target : Cell) (size : Nat) :
    Heap :=
  ((heap.copied source target size).release index).2.count Counters.addResize

def written (heap : Heap) (start : Nat) (data : List UInt8) : Heap :=
  { heap with buffer := heap.buffer.overwrite start data }

@[simp] theorem layout_written (heap : Heap) (start : Nat) (data : List UInt8) :
    (heap.written start data).layout = heap.layout := rfl

@[simp] theorem config_placed (heap : Heap) (i size : Nat) :
    (heap.placed i size).config = heap.config := by
  rw [placed, config_count, config_claimAt]

@[simp] theorem config_copied (heap : Heap) (source : Block) (target : Cell) (size : Nat) :
    (heap.copied source target size).config = heap.config :=
  config_claimAt ..

theorem Sound.exists_claimAt (h : heap.Sound cells) (member : (i, b) ∈ cells)
    (fit : fits size b = true) : ∃ cells', (heap.claimAt i size).Sound cells' := by
  obtain ⟨before, after, rfl⟩ := List.append_of_mem member
  exact ⟨_, h.claimAt fit⟩

theorem Sound.exists_release (h : heap.Sound cells) (used : (i, b) ∈ usedCells cells) :
    ∃ cells', (heap.release i).2.Sound cells' := by
  obtain ⟨member, inUse⟩ := mem_usedCells.mp used
  obtain ⟨before, after, rfl⟩ := List.append_of_mem member
  exact ⟨_, h.release inUse⟩

theorem Sound.exists_placed (h : heap.Sound cells) (member : (i, b) ∈ cells)
    (fit : fits size b = true) : ∃ cells', (heap.placed i size).Sound cells' := by
  obtain ⟨cells', claimed⟩ := h.exists_claimAt member fit
  exact ⟨cells', claimed.congr (layout_count ..) (size_count ..) (used_count ..)⟩

theorem Sound.placed_cells {before after : List Cell}
    (h : heap.Sound (before ++ (i, b) :: after)) (fit : fits size b = true) :
    (heap.placed i size).Sound
      (before ++ claimed heap.config.recordEmptyRemainder heap.layout.nextIndex size (i, b) ++
        after) :=
  (h.claimAt fit).congr (layout_count ..) (size_count ..) (used_count ..)

theorem Sound.freed_cells {before after : List Cell}
    (h : heap.Sound (before ++ (i, b) :: after)) (inUse : b.free = false) :
    (heap.freed i).Sound (released heap.config.coalesce before i b after) :=
  (h.release inUse).congr (layout_count ..) (size_count ..) (used_count ..)

theorem Sound.exists_freed (h : heap.Sound cells) (used : (i, b) ∈ usedCells cells) :
    ∃ cells', (heap.freed i).Sound cells' := by
  obtain ⟨cells', released⟩ := h.exists_release used
  exact ⟨cells', released.congr (layout_count ..) (size_count ..) (used_count ..)⟩

theorem Sound.written (h : heap.Sound cells) (start : Nat) (data : List UInt8) :
    (heap.written start data).Sound cells :=
  h.congr rfl (Buffer.size_overwrite ..) rfl

theorem Sound.exists_copied (h : heap.Sound cells)
    (named : heap.range? handle = some b) (member : (target, c) ∈ cells)
    (fit : fits size c = true) :
    handle.index.toNat ≠ target ∧
      ∃ cells', (heap.copied b (target, c) size).Sound cells' ∧
        (handle.index.toNat, b) ∈ usedCells cells' := by
  -- The claim takes a free cell, so it is not the one that is to be moved.
  have free := (fits_iff.mp fit).1
  have distinct : handle.index.toNat ≠ target := by
    intro own
    have unnamed := h.range?_eq_none member free own
    simp [named] at unnamed
  obtain ⟨cells', claimed⟩ := h.exists_claimAt member fit
  have kept : (heap.claimAt target size).range? handle = some b := by
    rw [h.range?_claimAt member fit, if_neg (fun own => distinct own.1), named]
  refine ⟨distinct, cells', claimed.congr rfl (size_copy ..) rfl, ?_⟩
  exact (claimed.range?_eq_some_iff.mp kept).1

theorem Sound.exists_moved (h : heap.Sound cells)
    (named : heap.range? handle = some b) (member : (target, c) ∈ cells)
    (fit : fits size c = true) :
    ∃ cells', (heap.moved handle.index.toNat b (target, c) size).Sound cells' := by
  obtain ⟨_, cells', copied, used⟩ := h.exists_copied named member fit
  obtain ⟨cells'', released⟩ := copied.exists_release used
  exact ⟨cells'', released.congr (layout_count ..) (size_count ..) (used_count ..)⟩

/-! ## Results -/

theorem handleAt_eq {record : Record} (found : heap.layout.get? i = some record) :
    heap.handleAt i = .ok (heap.layout.handleOf i) := by
  rw [handleAt, handle?_eq found]

theorem Sound.fit_of_firstFit? (h : heap.Sound cells)
    (found : heap.layout.firstFit? size = some i) :
    ∃ b, (i, b) ∈ cells ∧ fits size b = true := by
  obtain ⟨before, b, after, rfl, fit, _⟩ := h.chains.split_of_firstFit? found
  exact ⟨b, by simp, fit⟩

theorem Sound.release_used (h : heap.Sound cells) (used : (i, b) ∈ usedCells cells)
    (other : (target, c) ∈ usedCells cells) (distinct : target ≠ i) {cells' : List Cell}
    (released : (heap.release i).2.Sound cells') :
    (target, c) ∈ usedCells cells' := by
  obtain ⟨member, inUse⟩ := mem_usedCells.mp used
  obtain ⟨before, after, rfl⟩ := List.append_of_mem member
  rw [released.chains.unique (h.release inUse).chains, usedCells_released]
  simpa [usedCells_cons, show b.free = false from inUse, distinct] using other

theorem Sound.claimAt_used (h : heap.Sound cells) (member : (i, b) ∈ cells)
    (fit : fits size b = true) {cells' : List Cell}
    (claimed : (heap.claimAt i size).Sound cells') :
    (i, ⟨b.offset, size, false⟩) ∈ usedCells cells' ∧
      (heap.claimAt i size).layout.generation i = heap.layout.generation i := by
  obtain ⟨before, after, rfl⟩ := List.append_of_mem member
  constructor
  · rw [claimed.chains.unique (h.claimAt fit).chains]
    simp [usedCells_claimed]
  · rw [layout_claimAt, generation_claim h.chains]

theorem allocate_of_none (none : heap.layout.firstFit? size = none) :
    heap.allocate size = (.error (heap.noRoom size), heap.countFailure) := by
  rw [allocate, none]

theorem Sound.allocate_of_fit (h : heap.Sound cells) (member : (i, b) ∈ cells)
    (fit : fits size b = true) (found : heap.layout.firstFit? size = some i) :
    heap.allocate size = (.ok (heap.layout.handleOf i), heap.placed i size) := by
  obtain ⟨cells', claimed⟩ := h.exists_claimAt member fit
  obtain ⟨used, generation⟩ := h.claimAt_used member fit claimed
  obtain ⟨prev, next, read⟩ := claimed.chains.get?_of_mem (mem_usedCells.mp used).1
  have result : (heap.placed i size).handleAt i = .ok (heap.layout.handleOf i) := by
    have same : (heap.placed i size).layout = (heap.claimAt i size).layout :=
      layout_count ..
    rw [handleAt_eq (same ▸ read), same, handleOf, generation, handleOf]
  rw [allocate, found]
  exact congrArg (·, heap.placed i size) result

theorem block_eq (heap : Heap) (handle : Handle) :
    heap.block handle =
      match heap.range? handle with
      | none => .error (.notFound handle)
      | some b => .ok b := by
  rw [block]
  cases named : heap.range? handle with
  | none => rw [usedRecord_of_range?_eq_none named]; rfl
  | some b =>
      obtain ⟨record, read, rfl⟩ := exists_usedRecord_of_range? named
      rw [read]
      rfl

theorem deallocate_eq (heap : Heap) (handle : Handle) :
    heap.deallocate handle =
      match heap.range? handle with
      | none => (.error (.notFound handle), heap)
      | some _ => (.ok (), heap.freed handle.index.toNat) := by
  rw [deallocate]
  cases named : heap.range? handle with
  | none => rw [usedRecord_of_range?_eq_none named]
  | some b =>
      obtain ⟨record, read, rfl⟩ := exists_usedRecord_of_range? named
      rw [read]
      rfl

theorem resize_of_none (unnamed : heap.range? handle = none) (size : Nat) :
    heap.resize handle size = (.error (.notFound handle), heap) := by
  rw [resize, usedRecord_of_range?_eq_none unnamed]

theorem resize_of_le (named : heap.range? handle = some b) (room : size ≤ b.size) :
    heap.resize handle size = (.ok handle, heap) := by
  obtain ⟨record, read, rfl⟩ := exists_usedRecord_of_range? named
  rw [resize, read]
  exact if_pos room

theorem resize_of_noRoom (named : heap.range? handle = some b) (larger : b.size < size)
    (none : heap.layout.firstFit? size = none) :
    heap.resize handle size = (.error (heap.noRoom size), heap.countFailure) := by
  obtain ⟨record, read, rfl⟩ := exists_usedRecord_of_range? named
  simp only [resize, read, none]
  exact if_neg (Nat.not_le.mpr larger)

theorem Sound.resize_of_fit (h : heap.Sound cells) (named : heap.range? handle = some b)
    (larger : b.size < size) (member : (target, c) ∈ cells) (fit : fits size c = true)
    (found : heap.layout.firstFit? size = some target) :
    heap.resize handle size =
      (.ok (heap.layout.handleOf target),
        heap.moved handle.index.toNat b (target, c) size) := by
  obtain ⟨distinct, cells₁, copied, source⟩ := h.exists_copied named member fit
  obtain ⟨cells', claimed⟩ := h.exists_claimAt member fit
  obtain ⟨used, generation⟩ := h.claimAt_used member fit claimed
  obtain rfl := claimed.chains.unique copied.chains
  obtain ⟨cells'', released⟩ := copied.exists_release source
  have kept := copied.release_used source used (Ne.symm distinct) released
  obtain ⟨prev, next, read⟩ := claimed.chains.get?_of_mem (mem_usedCells.mp used).1
  obtain ⟨prev', next', reread⟩ := released.chains.get?_of_mem (mem_usedCells.mp kept).1
  have same : (heap.moved handle.index.toNat b (target, c) size).layout.handleOf target =
      heap.layout.handleOf target := by
    rw [handleOf, moved, layout_count, generation_release copied source used
      (Ne.symm distinct)]
    exact congrArg (Handle.mk _) generation
  have result : (heap.moved handle.index.toNat b (target, c) size).handleAt target =
      .ok (heap.layout.handleOf target) := by
    rw [← same]
    apply handleAt_eq
    rw [moved, layout_count]
    exact reread
  obtain ⟨record, found', rfl⟩ := exists_usedRecord_of_range? named
  have tooSmall : ¬ size ≤ record.size := Nat.not_le.mpr larger
  simp only [resize, found', found, read]
  rw [if_neg tooSmall]
  exact congrArg (·, heap.moved handle.index.toNat record.block (target, c) size) result

theorem write_eq (heap : Heap) (handle : Handle) (offset : Nat) (data : List UInt8) :
    heap.write handle offset data =
      match heap.range? handle with
      | none => (.error (.notFound handle), heap)
      | some b =>
          if offset + data.length ≤ b.size then
            (.ok (), heap.written (b.offset + offset) data)
          else
            (.error (.outOfBounds offset data.length b.size), heap) := by
  rw [write, block_eq]
  cases heap.range? handle <;> rfl

/-! ## The ways in which requests for room end -/

inductive Allocation (heap : Heap) (cells : List Cell) (size : Nat) : Prop where
  | noRoom (none : heap.layout.firstFit? size = none)
      (result : heap.allocate size = (.error (heap.noRoom size), heap.countFailure))
  | placed (i : Nat) (b : Block) (member : (i, b) ∈ cells) (fit : fits size b = true)
      (found : heap.layout.firstFit? size = some i)
      (result : heap.allocate size = (.ok (heap.layout.handleOf i), heap.placed i size))

inductive Resizing (heap : Heap) (cells : List Cell) (handle : Handle) (size : Nat) :
    Prop where
  | unnamed (unnamed : heap.range? handle = none)
      (result : heap.resize handle size = (.error (.notFound handle), heap))
  | kept (b : Block) (named : heap.range? handle = some b) (room : size ≤ b.size)
      (result : heap.resize handle size = (.ok handle, heap))
  | noRoom (b : Block) (named : heap.range? handle = some b) (larger : b.size < size)
      (none : heap.layout.firstFit? size = none)
      (result : heap.resize handle size =
        (.error (heap.noRoom size), heap.countFailure))
  | moved (b : Block) (target : Nat) (c : Block)
      (named : heap.range? handle = some b) (larger : b.size < size)
      (member : (target, c) ∈ cells) (fit : fits size c = true)
      (found : heap.layout.firstFit? size = some target)
      (result : heap.resize handle size =
        (.ok (heap.layout.handleOf target),
          heap.moved handle.index.toNat b (target, c) size))

theorem Sound.allocation (h : heap.Sound cells) (size : Nat) :
    heap.Allocation cells size := by
  cases found : heap.layout.firstFit? size with
  | none => exact .noRoom found (allocate_of_none found)
  | some i =>
      obtain ⟨b, member, fit⟩ := h.fit_of_firstFit? found
      exact .placed i b member fit found (h.allocate_of_fit member fit found)

theorem Sound.resizing (h : heap.Sound cells) (handle : Handle) (size : Nat) :
    heap.Resizing cells handle size := by
  cases named : heap.range? handle with
  | none => exact .unnamed named (resize_of_none named size)
  | some b =>
      by_cases room : size ≤ b.size
      · exact .kept b named room (resize_of_le named room)
      · have larger : b.size < size := Nat.lt_of_not_le room
        cases found : heap.layout.firstFit? size with
        | none =>
            exact .noRoom b named larger found (resize_of_noRoom named larger found)
        | some target =>
            obtain ⟨c, member, fit⟩ := h.fit_of_firstFit? found
            exact .moved b target c named larger member fit found
              (h.resize_of_fit named larger member fit found)

theorem Sound.allocates_iff (h : heap.Sound cells) (size : Nat) :
    (∃ handle, (heap.allocate size).1 = .ok handle) ↔
      ∃ b ∈ heap.layout.blocks, b.free = true ∧ size ≤ b.size := by
  rw [h.chains.blocks_eq]
  cases h.allocation size with
  | noRoom none result =>
      rw [h.chains.firstFit?_eq_none_iff] at none
      rw [result]
      refine ⟨fun ⟨_, given⟩ => (nomatch given), fun ⟨b, member, room⟩ => ?_⟩
      obtain ⟨cell, there, rfl⟩ := List.mem_map.mp member
      have unfit := none cell there
      rw [fits_iff.mpr room] at unfit
      cases unfit
  | placed i b member fit _ result =>
      rw [result]
      exact ⟨fun _ => ⟨b, List.mem_map_of_mem member, fits_iff.mp fit⟩, fun _ => ⟨_, rfl⟩⟩

/-! ## What handles name afterwards -/

theorem range?_congr {heap' : Heap} (same : heap'.layout = heap.layout)
    (handle : Handle) : heap'.range? handle = heap.range? handle := by
  rw [range?, range?, usedRecord_eq, usedRecord_eq, same]

theorem range?_count (heap : Heap) (change : Counters → Counters) (handle : Handle) :
    (heap.count change).range? handle = heap.range? handle :=
  range?_congr (layout_count heap change) handle

theorem Sound.range?_copied (h : heap.Sound cells) (named : heap.range? handle = some b)
    (member : (target, c) ∈ cells) (fit : fits size c = true) :
    (heap.copied b (target, c) size).range? handle = some b := by
  have distinct := (h.exists_copied named member fit).1
  have same : (heap.copied b (target, c) size).range? handle =
    (heap.claimAt target size).range? handle := range?_congr rfl handle
  rw [same, h.range?_claimAt member fit, if_neg fun own => distinct own.1, named]

/-- Handles of one slot do not name anything at the same time. -/
theorem Sound.eq_of_index (h : heap.Sound cells) (named : heap.range? handle = some b)
    {other : Handle} (also : heap.range? other = some c)
    (same : other.index.toNat = handle.index.toNat) : other = handle := by
  have current := (h.range?_eq_some_iff.mp named).2
  have current' := (h.range?_eq_some_iff.mp also).2
  obtain ⟨index, generation⟩ := handle
  obtain ⟨index', generation'⟩ := other
  have slot : index' = index := UInt32.toNat_inj.mp same
  subst slot
  exact congrArg (Handle.mk index') (current'.symm.trans current)

theorem Sound.range?_without (h : heap.Sound cells)
    (named : heap.range? handle = some b) (other : Handle) :
    (if other.index.toNat = handle.index.toNat then none else heap.range? other) =
      if other = handle then none else heap.range? other := by
  by_cases own : other = handle
  · rw [if_pos own, if_pos (congrArg (·.index.toNat) own)]
  · rw [if_neg own]
    split
    · next slot =>
        cases also : heap.range? other with
        | none => rfl
        | some c => exact absurd (h.eq_of_index named also slot) own
    · rfl

theorem Sound.range?_placed (h : heap.Sound cells) (member : (i, b) ∈ cells)
    (fit : fits size b = true) (small : i < UInt32.size) (other : Handle) :
    (heap.placed i size).range? other =
      if other = heap.layout.handleOf i then some ⟨b.offset, size, false⟩
      else heap.range? other := by
  rw [placed, range?_count, h.range?_claimAt member fit]
  simp only [eq_handleOf_iff small]

theorem Sound.range?_freed (h : heap.Sound cells) (named : heap.range? handle = some b)
    (other : Handle) :
    (heap.freed handle.index.toNat).range? other =
      if other = handle then none else heap.range? other := by
  rw [freed, range?_count, h.range?_release (h.range?_eq_some_iff.mp named).1,
    h.range?_without named]

theorem Sound.range?_moved (h : heap.Sound cells) (named : heap.range? handle = some b)
    (member : (target, c) ∈ cells) (fit : fits size c = true)
    (small : target < UInt32.size) (other : Handle) :
    (heap.moved handle.index.toNat b (target, c) size).range? other =
      if other = heap.layout.handleOf target then some ⟨c.offset, size, false⟩
      else if other = handle then none else heap.range? other := by
  obtain ⟨distinct, cells', copied, used⟩ := h.exists_copied named member fit
  have claimed : (heap.copied b (target, c) size).range? other =
      if other = heap.layout.handleOf target then some ⟨c.offset, size, false⟩
      else heap.range? other := by
    have same : (heap.copied b (target, c) size).range? other =
      (heap.claimAt target size).range? other := range?_congr rfl other
    rw [same, h.range?_claimAt member fit]
    simp only [eq_handleOf_iff small]
  rw [moved, range?_count, copied.range?_release used, claimed]
  by_cases new : other = heap.layout.handleOf target
  · have slot : other.index.toNat = target := ((eq_handleOf_iff small other).mp new).1
    rw [if_pos new, if_pos new, if_neg (slot ▸ Ne.symm distinct)]
  · rw [if_neg new, if_neg new, h.range?_without named]

end Heap

end BlockPool
