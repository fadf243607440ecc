import BlockPool.Pool.Heap
import BlockPool.Proofs.Layout.Retirement

/-!
# Sound heaps

The cells of a sound heap cover its buffer, and the number of used bytes is
the sum of the used cells.  Every operation on a heap is put together from
claiming a record, releasing one, writing into the buffer and counting; each
of these keeps a heap sound.
-/

namespace BlockPool.Heap

open Layout

variable {heap : Heap} {cells before after : List Cell} {i : Nat} {b : Block}
  {size : Nat}

structure Sound (heap : Heap) (cells : List Cell) : Prop where
  chains : heap.layout.Chains cells
  covers : Covers 0 (cells.map Prod.snd) heap.size
  used_eq : heap.used = usedTotal (cells.map Prod.snd)

theorem Sound.covers_blocks (h : heap.Sound cells) :
    Covers 0 heap.layout.blocks heap.size := by
  rw [h.chains.blocks_eq]
  exact h.covers

/-! ## What the parts of an operation leave alone -/

section Frame

variable (heap) (change : Counters → Counters) (pattern : Option UInt8)
  (start length : Nat)

@[simp] theorem layout_count : (heap.count change).layout = heap.layout := by
  unfold count
  split <;> rfl

@[simp] theorem buffer_count : (heap.count change).buffer = heap.buffer := by
  unfold count
  split <;> rfl

@[simp] theorem used_count : (heap.count change).used = heap.used := by
  unfold count
  split <;> rfl

@[simp] theorem config_count : (heap.count change).config = heap.config := by
  unfold count
  split <;> rfl

@[simp] theorem size_count : (heap.count change).size = heap.size := by
  simp [Heap.size]

@[simp] theorem layout_paint :
    (heap.paint pattern start length).layout = heap.layout := by
  cases pattern <;> rfl

@[simp] theorem used_paint :
    (heap.paint pattern start length).used = heap.used := by
  cases pattern <;> rfl

@[simp] theorem config_paint :
    (heap.paint pattern start length).config = heap.config := by
  cases pattern <;> rfl

@[simp] theorem size_paint :
    (heap.paint pattern start length).size = heap.size := by
  cases pattern with
  | none => rfl
  | some byte => exact Buffer.size_fill ..

@[simp] theorem size_copy (source target : Nat) :
    (heap.copy source target length).size = heap.size :=
  Buffer.size_overwrite ..

end Frame

/-! ## Claims and releases -/

theorem claimAt_eq (found : heap.layout.get? i = some record) :
    heap.claimAt i size =
      (({ heap with
          layout := heap.layout.claim heap.config.recordEmptyRemainder i size
          used := heap.used + size } : Heap).count fun counters =>
        { counters with
          peakUsed := max counters.peakUsed (heap.used + size) }).paint
        heap.config.allocPattern record.offset size := by
  rw [claimAt, found]

theorem release_eq (found : heap.layout.get? i = some record) :
    heap.release i =
      ((heap.layout.release heap.config.coalesce i).1,
        ({ heap with
          layout := (heap.layout.release heap.config.coalesce i).2
          used := heap.used - record.size } : Heap).paint
            heap.config.deallocPattern record.offset record.size) := by
  rw [release, found]

@[simp] theorem layout_claimAt (heap : Heap) (i size : Nat) :
    (heap.claimAt i size).layout =
      heap.layout.claim heap.config.recordEmptyRemainder i size := by
  cases found : heap.layout.get? i with
  | none => simp [Heap.claimAt, Layout.claim, found]
  | some record => simp [claimAt_eq found]

@[simp] theorem config_claimAt (heap : Heap) (i size : Nat) :
    (heap.claimAt i size).config = heap.config := by
  cases found : heap.layout.get? i with
  | none => simp [Heap.claimAt, found]
  | some record => simp [claimAt_eq found]

@[simp] theorem size_claimAt (heap : Heap) (i size : Nat) :
    (heap.claimAt i size).size = heap.size := by
  cases found : heap.layout.get? i with
  | none => simp [Heap.claimAt, found]
  | some record =>
      rw [claimAt_eq found, size_paint, size_count]
      rfl

@[simp] theorem layout_release (heap : Heap) (i : Nat) :
    (heap.release i).2.layout =
      (heap.layout.release heap.config.coalesce i).2 := by
  cases found : heap.layout.get? i with
  | none => simp [Heap.release, Layout.release, found]
  | some record => simp [release_eq found]

@[simp] theorem config_release (heap : Heap) (i : Nat) :
    (heap.release i).2.config = heap.config := by
  cases found : heap.layout.get? i with
  | none => simp [Heap.release, found]
  | some record => simp [release_eq found]

@[simp] theorem size_release (heap : Heap) (i : Nat) :
    (heap.release i).2.size = heap.size := by
  cases found : heap.layout.get? i with
  | none => simp [Heap.release, found]
  | some record =>
      rw [release_eq found, size_paint]
      rfl

@[simp] theorem size_ofSize (size : Nat) (config : Config) :
    (Heap.ofSize size config).size = size :=
  Buffer.size_zeros size

theorem sound_ofSize (size : Nat) (config : Config) :
    (Heap.ofSize size config).Sound [(0, ⟨0, size, true⟩)] where
  chains := chains_spanning size
  covers := by simp [Covers, Heap.size, Heap.ofSize]
  used_eq := rfl

theorem Sound.congr {heap' : Heap} (h : heap.Sound cells)
    (layout : heap'.layout = heap.layout) (size : heap'.size = heap.size)
    (used : heap'.used = heap.used) : heap'.Sound cells where
  chains := layout ▸ h.chains
  covers := size ▸ h.covers
  used_eq := used ▸ h.used_eq

theorem Sound.claimAt (h : heap.Sound (before ++ (i, b) :: after))
    (fit : fits size b = true) :
    (heap.claimAt i size).Sound
      (before ++
        claimed heap.config.recordEmptyRemainder heap.layout.nextIndex size (i, b) ++
        after) := by
  obtain ⟨free, room⟩ := fits_iff.mp fit
  have total : usedTotal ((before ++
      claimed heap.config.recordEmptyRemainder heap.layout.nextIndex size (i, b) ++
      after).map Prod.snd) = heap.used + size := by
    rw [h.used_eq, ← usedTotal_usedCells, ← usedTotal_usedCells (before ++ _ :: after)]
    simp [usedCells_claimed, usedCells_cons, free, usedTotal]
    omega
  constructor
  · rw [layout_claimAt]
    exact h.chains.claim heap.config.recordEmptyRemainder room
  · rw [size_claimAt]
    exact covers_claimed room h.covers
  · rw [total, claimAt_eq h.chains.get?_of_split, used_paint, used_count]

theorem Sound.release (h : heap.Sound (before ++ (i, b) :: after))
    (inUse : b.free = false) :
    (heap.release i).2.Sound (released heap.config.coalesce before i b after) := by
  have total : usedTotal ((released heap.config.coalesce before i b after).map
      Prod.snd) = heap.used - b.size := by
    rw [h.used_eq, ← usedTotal_usedCells, ← usedTotal_usedCells (before ++ _ :: after)]
    simp [usedCells_released, usedCells_cons, inUse, usedTotal]
    omega
  constructor
  · rw [layout_release]
    exact h.chains.release heap.config.coalesce
  · rw [size_release]
    exact covers_released h.covers
  · rw [total, release_eq h.chains.get?_of_split, used_paint]
    rfl

end BlockPool.Heap
