import BlockPool.Proofs.Pool.Accounts

/-!
# Pools that nothing was freed in

As long as blocks are only taken, what is left of a pool is one free block in
the slot behind those of all others.  So the blocks are numbered in the order
in which they were taken, and a request finds room just if there are as many
unused bytes.
-/

namespace BlockPool

theorem Layout.Chains.nextIndex_of_full {l : Layout} {cells : List Cell} (h : l.Chains cells)
    (full : l.live = l.slotCount) : l.nextIndex = l.slotCount := by
  have total := h.sound.live_add_vacant
  have none : l.arena.vacant = [] := by
    rw [← List.length_eq_zero_iff]
    simp only [live, slotCount] at full
    omega
  rw [nextIndex, Arena.nextIndex, none]
  rfl

namespace Heap

open Layout

variable {heap heap' : Heap} {count size : Nat}

structure Filled (heap : Heap) (count : Nat) : Prop where
  cells : ∃ taken rest, heap.Sound (taken ++ rest) ∧ taken.length = count ∧
    (∀ cell ∈ taken, cell.2.free = false) ∧
    (rest = [] ∨ ∃ b : Block, b.free = true ∧ rest = [(count, b)])
  full : heap.layout.live = heap.layout.slotCount
  fresh : ∀ i, heap.layout.generation i = 0

theorem filled_ofSize (size : Nat) (config : Config) : (Heap.ofSize size config).Filled 0 where
  cells := ⟨[], _, sound_ofSize size config, rfl, nofun, .inr ⟨_, rfl, rfl⟩⟩
  full := rfl
  fresh i := by cases i <;> rfl

theorem Filled.congr (h : heap.Filled count) (layout : heap'.layout = heap.layout)
    (size : heap'.size = heap.size) (used : heap'.used = heap.used) : heap'.Filled count where
  cells := by
    obtain ⟨taken, rest, sound, kinds⟩ := h.cells
    exact ⟨taken, rest, sound.congr layout size used, kinds⟩
  full := layout ▸ h.full
  fresh := layout ▸ h.fresh

theorem Filled.slotCount_le (h : heap.Filled count) : heap.layout.slotCount ≤ count + 1 := by
  obtain ⟨taken, rest, sound, length, _, kind⟩ := h.cells
  rw [← h.full, ← sound.chains.length_eq_live, List.length_append, length]
  rcases kind with rfl | ⟨b, _, rfl⟩ <;> simp

theorem Filled.largestFree_eq (h : heap.Filled count) :
    heap.largestFree = heap.size - heap.used := by
  obtain ⟨taken, rest, sound, _, inUse, kind⟩ := h.cells
  have total : heap.used + heap.layout.freeBytes = heap.size := sound.describes.total
  have none : (taken.map Prod.snd).filter Block.free = [] := by
    rw [List.filter_eq_nil_iff]
    intro b member
    obtain ⟨cell, there, rfl⟩ := List.mem_map.mp member
    simp [inUse cell there]
  have sizes : heap.layout.freeSizes = ((rest.map Prod.snd).filter Block.free).map Block.size := by
    rw [freeSizes, sound.chains.blocks_eq, List.map_append, List.filter_append]
    exact congrArg (fun front => List.map Block.size (front ++ _)) none
  rw [Heap.largestFree, Layout.largestFree, ← total, freeBytes, sizes]
  rcases kind with rfl | ⟨b, free, rfl⟩ <;> simp [*]

theorem Filled.allocate_of_lt (h : heap.Filled count) (positive : 0 < size)
    (lack : heap.size < heap.used + size) :
    heap.allocate size =
      (.error (.allocationFailed size (heap.size - heap.used)), heap.countFailure) := by
  have largest := h.largestFree_eq
  obtain ⟨taken, rest, sound, _⟩ := h.cells
  have none : heap.layout.firstFit? size = none := by
    rw [sound.chains.firstFit?_eq_none_iff_largestFree_lt positive]
    change heap.largestFree < size
    omega
  rw [allocate_of_none none, noRoom, largest]

theorem Filled.exists_left (h : heap.Filled count) (positive : 0 < size)
    (room : heap.used + size ≤ heap.size) :
    ∃ taken b, heap.Sound (taken ++ [(count, b)]) ∧ taken.length = count ∧
      (∀ cell ∈ taken, cell.2.free = false) ∧ fits size b = true ∧
      heap.allocate size = (.ok (heap.layout.handleOf count), heap.placed count size) := by
  have largest := h.largestFree_eq
  obtain ⟨taken, rest, sound, length, inUse, kind⟩ := h.cells
  cases sound.allocation size with
  | noRoom none result =>
      rw [sound.chains.firstFit?_eq_none_iff_largestFree_lt positive] at none
      change heap.largestFree < size at none
      omega
  | placed i c member fit found result =>
      have free := (fits_iff.mp fit).1
      have behind : (i, c) ∈ rest := by
        rcases List.mem_append.mp member with before | behind
        · rw [inUse _ before] at free
          cases free
        · exact behind
      rcases kind with rfl | ⟨b, _, rfl⟩
      · cases behind
      · cases List.mem_singleton.mp behind
        exact ⟨taken, c, sound, length, inUse, fit, result⟩

theorem Filled.claimAt {taken : List Cell} {b : Block} (h : heap.Filled count)
    (sound : heap.Sound (taken ++ [(count, b)])) (length : taken.length = count)
    (inUse : ∀ cell ∈ taken, cell.2.free = false) (fit : fits size b = true) :
    (heap.claimAt count size).Filled (count + 1) := by
  have next : heap.layout.nextIndex = count + 1 := by
    rw [sound.chains.nextIndex_of_full h.full, ← h.full, ← sound.chains.length_eq_live]
    simp [length]
  have claimed := sound.claimAt fit
  rw [next, Layout.claimed, List.append_nil, List.append_cons] at claimed
  have live := claimed.chains.length_eq_live
  constructor
  · refine ⟨_, _, claimed, by simp [length], ?_, ?_⟩
    · intro cell member
      rcases List.mem_append.mp member with before | own
      · exact inUse cell before
      · rw [List.mem_singleton.mp own]
    · split
      · exact .inr ⟨_, rfl, rfl⟩
      · exact .inl rfl
  · rw [← live, layout_claimAt, slotCount_claim sound.chains, h.full, ← h.full,
      ← sound.chains.length_eq_live]
    cases (0 < b.size - size || heap.config.recordEmptyRemainder) <;> simp
  · intro i
    rw [layout_claimAt, generation_claim sound.chains, h.fresh i]

theorem Filled.allocate_of_le (h : heap.Filled count) (positive : 0 < size)
    (room : heap.used + size ≤ heap.size) :
    heap.allocate size = (.ok ⟨UInt32.ofNat count, 0⟩, heap.placed count size) ∧
      (heap.placed count size).Filled (count + 1) ∧
      (heap.placed count size).used = heap.used + size := by
  obtain ⟨taken, b, sound, length, inUse, fit, result⟩ := h.exists_left positive room
  have member : (count, b) ∈ taken ++ [(count, b)] := by simp
  rw [handleOf, h.fresh count] at result
  refine ⟨result, ?_, (used_count ..).trans (sound.used_claimAt member size)⟩
  exact (h.claimAt sound length inUse fit).congr (layout_count ..) (size_count ..)
    (used_count ..)

end Heap

end BlockPool
