import Mathlib.Data.List.Nodup
import BlockPool.Proofs.Layout.Sizes
import BlockPool.Proofs.Pool.Failure
import BlockPool.Proofs.Pool.Tally

/-!
# Statistics that agree with blocks, handles and history

The statistics of a pool can be read off its blocks, off the handles that are
out, and off the requests so far with their results.
-/

namespace BlockPool

def Pool.extent (p : Pool) (handle : Handle) : Nat :=
  match p.block handle with
  | .error _ => 0
  | .ok b => b.size

namespace Statistics

def counters (s : Statistics) : Counters where
  allocations := s.allocationCount
  deallocations := s.deallocationCount
  resizes := s.resizeCount
  failures := s.failedAllocations
  peakUsed := s.peakUsedBytes

structure Describes (s : Statistics) (blocks : List Block) : Prop where
  used : s.usedBytes = ((blocks.filter fun b => !b.free).map Block.size).sum
  free : s.freeBytes = ((blocks.filter Block.free).map Block.size).sum
  total : s.usedBytes + s.freeBytes = s.poolSize
  count : s.blockCount = blocks.length
  freeCount : s.freeBlockCount = blocks.countP Block.free
  largest : s.largestFreeBlock = ((blocks.filter Block.free).map Block.size).max?.getD 0
  largest_le : s.largestFreeBlock ≤ s.freeBytes
  whole_iff : s.largestFreeBlock = s.freeBytes ↔
    blocks.countP (fun b => b.free && 0 < b.size) ≤ 1

structure Counts (s : Statistics) (p : Pool) (live : List Handle) : Prop where
  nodup : live.Nodup
  mem_iff : ∀ handle, handle ∈ live ↔ ∃ b, p.block handle = .ok b
  used : s.usedBytes = (live.map p.extent).sum
  count : s.blockCount = s.freeBlockCount + live.length
  active : s.hasActiveAllocations = true ↔ live ≠ []

structure Records (s : Statistics) (history : List Pool.Entry) (demands : List Nat) :
    Prop where
  counters : Counters.Grows {} s.counters history demands
  balance : s.allocationCount =
    s.deallocationCount + (history.foldl Pool.settle []).length
  used_le : s.usedBytes ≤ s.peakUsedBytes

end Statistics

namespace Heap

open Layout

variable {heap : Heap} {cells : List Cell} {i : Nat} {b : Block} {out : List Handle}

theorem Sound.describes (h : heap.Sound cells) :
    heap.statistics.Describes heap.layout.blocks := by
  have used : heap.used = usedTotal heap.layout.blocks := by
    rw [h.chains.blocks_eq, h.used_eq]
  constructor
  · exact used.trans (usedBytes_eq _).symm
  · rfl
  · have total := h.covers_blocks.add_sum
    have parts := usedTotal_add_freeTotal heap.layout.blocks
    change heap.used + ((heap.layout.blocks.filter Block.free).map Block.size).sum = heap.size
    omega
  · change heap.layout.live = _
    rw [h.chains.blocks_eq, List.length_map, h.chains.length_eq_live]
  · rw [List.countP_eq_length_filter]
    exact List.length_map ..
  · exact foldr_max_eq_max? _
  · exact foldr_max_le_sum _
  · rw [← countP_positive_freeSizes]
    exact foldr_max_eq_sum_iff _

theorem Sound.range?_handleOf (h : heap.Sound cells) (used : (i, b) ∈ usedCells cells)
    (small : i < UInt32.size) : heap.range? (heap.layout.handleOf i) = some b := by
  have own := (eq_handleOf_iff small (heap.layout.handleOf i)).mp rfl
  rw [h.range?_eq_some_iff, own.1]
  exact ⟨used, own.2⟩

theorem Sound.small (h : heap.Sound cells)
    (slots : heap.layout.slotCount < UInt32.size) (used : (i, b) ∈ usedCells cells) :
    i < UInt32.size :=
  Nat.lt_trans (h.chains.lt_slotCount (mem_usedCells.mp used).1) slots

theorem Sound.mem_usedHandles_iff (h : heap.Sound cells)
    (slots : heap.layout.slotCount < UInt32.size) (handle : Handle) :
    handle ∈ heap.layout.usedHandles cells ↔ ∃ b, heap.range? handle = some b := by
  constructor
  · intro member
    obtain ⟨⟨i, b⟩, used, rfl⟩ := List.mem_map.mp member
    exact ⟨b, h.range?_handleOf used (h.small slots used)⟩
  · rintro ⟨b, named⟩
    exact h.mem_usedHandles named

theorem Sound.nodup_usedHandles (h : heap.Sound cells)
    (slots : heap.layout.slotCount < UInt32.size) :
    (heap.layout.usedHandles cells).Nodup := by
  have slotsOf : (heap.layout.usedHandles cells).map (fun handle => handle.index.toNat) =
      (usedCells cells).map Prod.fst := by
    rw [usedHandles, List.map_map]
    refine List.map_congr_left fun cell used => ?_
    exact UInt32.toNat_ofNat_of_lt' (h.small slots used)
  apply List.Nodup.of_map fun handle => handle.index.toNat
  rw [slotsOf]
  exact h.chains.nodup.sublist (List.filter_sublist.map Prod.fst)

theorem Sound.map_extent (h : heap.Sound cells)
    (slots : heap.layout.slotCount < UInt32.size) (config : Config) :
    (heap.layout.usedHandles cells).map (Pool.extent ⟨config, .ready heap⟩) =
      (usedCells cells).map fun cell => cell.2.size := by
  rw [usedHandles, List.map_map]
  refine List.map_congr_left fun cell used => ?_
  have named := h.range?_handleOf used (h.small slots used)
  simp only [Function.comp_apply, Pool.extent, Pool.block_ready, named]

theorem Sound.sum_extent (h : heap.Sound cells)
    (slots : heap.layout.slotCount < UInt32.size) (config : Config) :
    ((heap.layout.usedHandles cells).map (Pool.extent ⟨config, .ready heap⟩)).sum =
      heap.used := by
  rw [h.map_extent slots config, sum_usedCells, h.used_eq]

theorem Lends.counts (lends : heap.Lends out)
    (slots : heap.layout.slotCount < UInt32.size) (config : Config) :
    heap.statistics.Counts ⟨config, .ready heap⟩ out := by
  obtain ⟨cells, sound, perm⟩ := lends
  have used : heap.used = (out.map (Pool.extent ⟨config, .ready heap⟩)).sum := by
    rw [(perm.map _).sum_nat, sound.sum_extent slots config]
  have count : heap.layout.live = heap.layout.freeSizes.length + out.length := by
    rw [perm.length_eq, length_usedHandles, sound.chains.live_eq]
  constructor
  · exact perm.nodup_iff.mpr (sound.nodup_usedHandles slots)
  · intro handle
    rw [perm.mem_iff, sound.mem_usedHandles_iff slots, Pool.block_ready]
    cases heap.range? handle <;> simp
  · exact used
  · exact count
  · have active : heap.statistics.hasActiveAllocations = true ↔
        0 < heap.used ∨ heap.layout.freeSizes.length < heap.layout.live := by
      rw [Statistics.hasActiveAllocations, Bool.or_eq_true, decide_eq_true_iff,
        decide_eq_true_iff]
      rfl
    rw [active, used, count, ← List.length_pos_iff]
    constructor
    · rintro (some | some)
      · cases out with
        | nil => simp at some
        | cons handle rest => simp
      · omega
    · intro some
      exact .inr (by omega)

end Heap

namespace Pool

variable {config : Config}

theorem run_statistics {p : Pool} {size : Nat} {requests : List Request}
    (opened : (⟨config, .uninitialized⟩ : Pool).setUp size = (.ok (), p))
    (isOpen : .close ∉ requests) (slots : (p.run requests).2.slotCount < UInt32.size) :
    ∃ s blocks, (p.run requests).2.statistics = .ok s ∧
      (p.run requests).2.blocks = .ok blocks ∧ s.poolSize = size ∧
      s.Describes blocks ∧ s.Counts (p.run requests).2 (p.outstanding requests) ∧
      (config.trackStats = true →
        s.Records (p.history requests) (p.demands requests)) ∧
      (config.trackStats = false → s.counters = ⟨0, 0, 0, 0, 0⟩) := by
  obtain ⟨_, rfl⟩ := ready_of_setUp opened
  have start := Heap.sound_ofSize size config
  have none := Heap.lends_ofSize size config
  have lends := none.run config isOpen
  obtain ⟨cells, sound, total, _⟩ := start.foldl_serve requests
  rw [run_ready isOpen] at slots ⊢
  refine ⟨_, _, rfl, rfl, total.trans (Heap.size_ofSize size config), sound.describes,
    lends.counts slots config, fun tracked => ?_, fun untracked => ?_⟩
  · have books : (Heap.ofSize size config).Balanced [] := ⟨Nat.le_refl 0, rfl⟩
    have balanced := none.balanced_run tracked books config isOpen
    exact ⟨start.grows_run tracked config isOpen slots, balanced.live, balanced.used_le⟩
  · exact none.counters_run untracked config isOpen

theorem run_statistics_moved :
    (⟨16, 9, 7, 4, 4, 2, 2, 0, 1, 1, 13⟩ : Statistics).Describes
        [⟨0, 4, true⟩, ⟨4, 0, false⟩, ⟨4, 9, false⟩, ⟨13, 3, true⟩] ∧
      (⟨16, 9, 7, 4, 4, 2, 2, 0, 1, 1, 13⟩ : Statistics).Counts
        (Pool.run ⟨.debug, .ready (.ofSize 16 .debug)⟩
          [.allocate 4, .allocate 0, .resize ⟨0, 0⟩ 9, .allocate 20]).2
        [⟨2, 0⟩, ⟨1, 0⟩] ∧
      (⟨16, 9, 7, 4, 4, 2, 2, 0, 1, 1, 13⟩ : Statistics).Records
        (Pool.history ⟨.debug, .ready (.ofSize 16 .debug)⟩
          [.allocate 4, .allocate 0, .resize ⟨0, 0⟩ 9, .allocate 20])
        [4, 4, 13] := by
  have opened : (⟨.debug, .uninitialized⟩ : Pool).setUp 16 =
      (.ok (), ⟨.debug, .ready (.ofSize 16 .debug)⟩) := setUp_of_pos (by decide)
  have isOpen : Request.close ∉
      [.allocate 4, .allocate 0, .resize ⟨0, 0⟩ 9, .allocate 20] := by decide
  obtain ⟨s, blocks, read, listed, _, describes, counts, records, _⟩ :=
    run_statistics opened isOpen (by decide +kernel)
  cases read
  cases listed
  exact ⟨describes, counts, records rfl⟩

end Pool

end BlockPool
