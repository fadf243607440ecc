import BlockPool.Proofs.Pool.Merging
import BlockPool.Proofs.Pool.Recut

/-!
# What the largest free block tells

A request for room succeeds if the largest free block that the statistics
report has this size or more.  Where no block is free the statistics report the
same number as where the free ones are empty, so there a request for nothing,
which would fit into an empty block, is the one that they do not decide.
-/

namespace BlockPool

namespace Layout

variable {l : Layout} {cells before after : List Cell} {i size : Nat} {b : Block}

def Stocked (cells : List Cell) : Prop := ∃ cell ∈ cells, cell.2.free = true

theorem stocked_claimed (new size : Nat) (cell : Cell) :
    Stocked (before ++ claimed true new size cell ++ after) :=
  ⟨(new, ⟨cell.2.offset + size, cell.2.size - size, true⟩), by simp [claimed], rfl⟩

theorem stocked_released (policy : Coalescing) :
    Stocked (released policy before i b after) := by
  rw [released_eq]
  exact ⟨_, List.mem_append_right _ List.mem_cons_self, holder_free ..⟩

theorem Chains.stocked_iff (h : l.Chains cells) : Stocked cells ↔ 0 < l.freeSizes.length := by
  rw [freeSizes, List.length_map, h.blocks_eq, List.length_pos_iff_exists_mem]
  simp only [Stocked, List.mem_filter, List.mem_map]
  constructor
  · rintro ⟨cell, member, free⟩
    exact ⟨cell.2, ⟨cell, member, rfl⟩, free⟩
  · rintro ⟨_, ⟨cell, member, rfl⟩, free⟩
    exact ⟨cell, member, free⟩

theorem Chains.firstFit?_zero_eq_none_iff (h : l.Chains cells) :
    l.firstFit? 0 = none ↔ ¬Stocked cells := by
  rw [h.firstFit?_eq_none_iff]
  simp [Stocked, fits]

theorem Chains.firstFit?_eq_none_iff_of_stocked (h : l.Chains cells)
    (some : 0 < size ∨ 0 < l.freeSizes.length) :
    l.firstFit? size = none ↔ l.largestFree < size := by
  rcases Nat.eq_zero_or_pos size with rfl | positive
  · have stocked : Stocked cells := h.stocked_iff.mpr (by omega)
    rw [h.firstFit?_zero_eq_none_iff]
    exact ⟨fun empty => absurd stocked empty, fun less => absurd less (Nat.not_lt_zero _)⟩
  · exact h.firstFit?_eq_none_iff_largestFree_lt positive

end Layout

namespace Heap

open Layout

variable {heap : Heap} {cells cells' : List Cell} {request : Pool.Request}
  {size requested largest : Nat}

/-- Empty rests that are kept are free blocks, so that there always is one. -/
theorem Recut.stocked (recut : heap.Recut cells request cells')
    (keeps : heap.config.recordEmptyRemainder = true) (h : Stocked cells) :
    Stocked cells' := by
  cases recut with
  | same => exact h
  | claimed size before i b after _ _ _ =>
      rw [keeps]
      exact stocked_claimed _ size (i, b)
  | released => exact stocked_released _
  | moved => exact stocked_released _

theorem Sound.stocked_run (h : heap.Sound cells)
    (keeps : heap.config.recordEmptyRemainder = true) (stocked : Stocked cells)
    (requests : List Pool.Request) :
    0 < (requests.foldl Heap.serve heap).layout.freeSizes.length := by
  induction requests generalizing heap cells with
  | nil => exact h.chains.stocked_iff.mp stocked
  | cons request rest ih =>
      obtain ⟨cells', recut, next⟩ := h.recut request
      have same := (h.change request).config_eq
      exact ih next (same ▸ keeps) (recut.stocked keeps stocked)

theorem Sound.allocate_iff (h : heap.Sound cells)
    (some : 0 < size ∨ 0 < heap.layout.freeSizes.length) :
    (∃ handle, (heap.allocate size).1 = .ok handle) ↔ size ≤ heap.largestFree := by
  have none_iff := h.chains.firstFit?_eq_none_iff_of_stocked some
  change _ ↔ heap.largestFree < size at none_iff
  cases h.allocation size with
  | noRoom none refused =>
      have less := none_iff.mp none
      rw [refused]
      exact ⟨nofun, fun room => absurd less (Nat.not_lt_of_le room)⟩
  | placed i b _ _ found given =>
      rw [given]
      refine ⟨fun _ => Nat.le_of_not_lt fun less => ?_, fun _ => ⟨_, rfl⟩⟩
      rw [none_iff.mpr less] at found
      cases found

theorem Sound.noRoom_of_allocate (h : heap.Sound cells) {error : PoolError}
    (failed : (heap.allocate size).1 = .error error) :
    error = heap.noRoom size ∧ heap.layout.firstFit? size = none := by
  cases h.allocation size with
  | noRoom none refused =>
      rw [refused] at failed
      cases failed
      exact ⟨rfl, none⟩
  | placed _ _ _ _ _ given =>
      rw [given] at failed
      cases failed

/-- Only two requests can fail for a lack of room, and both look for the first fit. -/
theorem Sound.noRoom_of_perform {config : Config} (h : heap.Sound cells)
    (same : heap.config = config)
    (failed : ((⟨config, .ready heap⟩ : Pool).perform request).1 =
      .error (.allocationFailed requested largest)) :
    (⟨config, .ready heap⟩ : Pool).Wants requested request ∧ largest = heap.largestFree ∧
      heap.layout.firstFit? requested = none ∧
      (0 < requested ∨ request = .allocate requested) := by
  have wants := (Pool.failed_ready h same failed).wants _ _ rfl
  refine ⟨wants, ?_⟩
  cases request with
  | allocate size =>
      have answer : (heap.allocate size).1 = .error (.allocationFailed requested largest) :=
        eq_error_of_map failed
      obtain ⟨refused, none⟩ := h.noRoom_of_allocate answer
      cases refused
      exact ⟨rfl, none, .inr rfl⟩
  | resize handle size =>
      have answer : (heap.resize handle size).1 =
          .error (.allocationFailed requested largest) := eq_error_of_map failed
      cases h.resizing handle size with
      | unnamed _ refused =>
          rw [refused] at answer
          cases answer
      | kept _ _ _ given =>
          rw [given] at answer
          cases answer
      | noRoom b _ larger none refused =>
          rw [refused] at answer
          cases answer
          exact ⟨rfl, none, .inl (Nat.zero_lt_of_lt larger)⟩
      | moved _ _ _ _ _ _ _ _ given =>
          rw [given] at answer
          cases answer
  | _ => exact wants.elim

end Heap

namespace Pool

open Heap Layout

variable {config : Config} {heap : Heap} {cells : List Cell}

structure RoomTold (p : Pool) (s : Statistics) : Prop where
  accepts : ∀ size, 0 < size ∨ 0 < s.freeBlockCount →
    ((∃ handle, (p.allocate size).1 = .ok handle) ↔ size ≤ s.largestFreeBlock)
  exhausted : s.freeBlockCount = 0 → (p.allocate 0).1 = .error (.allocationFailed 0 0)
  refused : ∀ size error, (p.allocate size).1 = .error error →
    error = .allocationFailed size s.largestFreeBlock
  lacking : ∀ request requested largest,
    (p.perform request).1 = .error (.allocationFailed requested largest) →
      p.Wants requested request ∧ largest = s.largestFreeBlock ∧
        (largest < requested ∨ request = .allocate 0 ∧ s.freeBlockCount = 0)
  stocked : p.config.recordEmptyRemainder = true → 0 < s.freeBlockCount

theorem room_told_ready (same : heap.config = config) (h : heap.Sound cells)
    (stocked : config.recordEmptyRemainder = true → 0 < heap.layout.freeSizes.length) :
    (⟨config, .ready heap⟩ : Pool).RoomTold heap.statistics where
  accepts size some := h.allocate_iff some
  exhausted empty := by
    have none : heap.layout.firstFit? 0 = none := by
      rw [h.chains.firstFit?_zero_eq_none_iff, h.chains.stocked_iff, Nat.not_lt]
      exact Nat.le_of_eq empty
    have largest : heap.largestFree = 0 := by
      have sizes : heap.layout.freeSizes = [] := List.length_eq_zero_iff.mp empty
      rw [Heap.largestFree, Layout.largestFree, sizes, List.foldr_nil]
    rw [allocate, onHeap_of_ok _ rfl, allocate_of_none none, noRoom, largest]
  refused size error failed := by
    rw [allocate, onHeap_of_ok _ rfl] at failed
    exact (h.noRoom_of_allocate failed).1
  lacking request requested largest failed := by
    obtain ⟨wants, rfl, none, kind⟩ := h.noRoom_of_perform same failed
    refine ⟨wants, rfl, ?_⟩
    by_cases some : 0 < requested ∨ 0 < heap.layout.freeSizes.length
    · exact .inl ((h.chains.firstFit?_eq_none_iff_of_stocked some).mp none)
    · -- Only a request for nothing is left, and nothing is free.
      obtain ⟨nothing, empty⟩ := not_or.mp some
      rcases kind with positive | rfl
      · exact absurd positive nothing
      · rw [Nat.eq_zero_of_not_pos nothing]
        exact .inr ⟨rfl, Nat.eq_zero_of_not_pos empty⟩
  stocked keeps := stocked keeps

/-- In whatever state a pool is ready, its statistics tell which requests find room. -/
theorem run_room_told {requests : List Request}
    (ready : ((⟨config, .uninitialized⟩ : Pool).run requests).2.isReady = true) :
    ∃ s, ((⟨config, .uninitialized⟩ : Pool).run requests).2.statistics = .ok s ∧
      ((⟨config, .uninitialized⟩ : Pool).run requests).2.RoomTold s := by
  have fresh : (⟨config, .uninitialized⟩ : Pool).Reached := nofun
  have reached := fresh.run requests
  generalize ((⟨config, .uninitialized⟩ : Pool).run requests).2 = p at ready reached ⊢
  obtain ⟨size, served, opened⟩ := reached.exists_ready ready
  have start := sound_ofSize size p.config
  obtain ⟨cells, sound, _, same, _⟩ := start.foldl_serve served
  have single : Stocked [(0, ⟨0, size, true⟩)] := ⟨_, List.mem_singleton_self _, rfl⟩
  rw [opened]
  exact ⟨_, rfl, room_told_ready same sound fun keeps =>
    start.stocked_run keeps single served⟩

theorem run_room_told_exhausted :
    ∃ s, ((⟨.production, .uninitialized⟩ : Pool).run
        [.setUp 4, .allocate 4]).2.statistics = .ok s ∧
      ((⟨.production, .uninitialized⟩ : Pool).run [.setUp 4, .allocate 4]).2.RoomTold s :=
  run_room_told (by decide +kernel)

/-- The largest free block that is reported is not smaller than nothing, but there is none. -/
theorem nothing_refused_of_exhausted :
    ∃ s, ((⟨.production, .uninitialized⟩ : Pool).run
        [.setUp 4, .allocate 4]).2.statistics = .ok s ∧
      ¬((∃ handle, (((⟨.production, .uninitialized⟩ : Pool).run
          [.setUp 4, .allocate 4]).2.allocate 0).1 = .ok handle) ↔ 0 ≤ s.largestFreeBlock) ∧
      (((⟨.production, .uninitialized⟩ : Pool).run
          [.setUp 4, .allocate 4]).2.allocate 0).1 = .error (.allocationFailed 0 0) := by
  refine ⟨_, rfl, fun decides => ?_, rfl⟩
  obtain ⟨handle, given⟩ := decides.mpr (Nat.zero_le _)
  cases given

end Pool

end BlockPool
