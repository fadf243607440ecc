import BlockPool.Proofs.Pool.FirstFit
import BlockPool.Proofs.Pool.Tally

/-!
# Growing a block

A block that grows is moved: a claim, a copy and a release follow each other
without a look at any handle in between.  A client that asks for another
block, writes the old bytes into it and gives the old one back does the same.
Counting commutes with the parts that both consist of, so the two ways end in
heaps that differ in what was counted and in nothing else.
-/

namespace BlockPool

namespace Heap

open Layout

variable {heap : Heap} {cells : List Cell} {handle : Handle} {target size : Nat} {b c : Block}

/-! ## Counting commutes with the other parts of an operation -/

theorem count_count (heap : Heap) (first second : Counters → Counters) :
    (heap.count first).count second = heap.count fun counters => second (first counters) := by
  cases tracked : heap.config.trackStats <;> simp [count, tracked]

theorem written_count (heap : Heap) (change : Counters → Counters) (start : Nat)
    (data : List UInt8) :
    (heap.count change).written start data = (heap.written start data).count change := by
  cases tracked : heap.config.trackStats <;> simp [count, written, tracked]

theorem release_count (heap : Heap) (change : Counters → Counters) (i : Nat) :
    ((heap.count change).release i).2 = (heap.release i).2.count change := by
  cases found : heap.layout.get? i with
  | none => simp [release, found]
  | some record =>
      have same : (heap.count change).layout.get? i = some record := by rwa [layout_count]
      rw [release_eq found, release_eq same]
      cases tracked : heap.config.trackStats <;>
        cases pattern : heap.config.deallocPattern <;>
        simp [count, paint, tracked, pattern]

/-! ## The two ways to a larger block -/

/-- The source of the copy lies outside the range that has just been claimed. -/
theorem Sound.copied_eq (h : heap.Sound cells) (named : heap.range? handle = some b)
    (member : (target, c) ∈ cells) (fit : fits size c = true) :
    heap.copied b (target, c) size =
      (heap.claimAt target size).written c.offset (heap.buffer.slice b.offset b.size) := by
  rw [copied, copy, h.slice_claimAt named member fit, Heap.written]

theorem Sound.write_placed (h : heap.Sound cells) (named : heap.range? handle = some b)
    (larger : b.size < size) (member : (target, c) ∈ cells) (fit : fits size c = true)
    (small : target < UInt32.size) :
    (heap.placed target size).write (heap.layout.handleOf target) 0
        (heap.buffer.slice b.offset b.size) =
      (.ok (), (heap.copied b (target, c) size).count Counters.addAllocation) := by
  have new : (heap.placed target size).range? (heap.layout.handleOf target) =
      some ⟨c.offset, size, false⟩ := by
    rw [h.range?_placed member fit small, if_pos rfl]
  have room : 0 + (heap.buffer.slice b.offset b.size).length ≤ size := by
    rw [h.length_contents named]
    omega
  rw [write_eq, new]
  simp only
  rw [if_pos room, Nat.add_zero, placed, written_count, h.copied_eq named member fit]

theorem Sound.deallocate_copied (h : heap.Sound cells) (named : heap.range? handle = some b)
    (member : (target, c) ∈ cells) (fit : fits size c = true) :
    ((heap.copied b (target, c) size).count Counters.addAllocation).deallocate handle =
      (.ok (), ((heap.copied b (target, c) size).release handle.index.toNat).2.count
        fun counters => counters.addAllocation.addDeallocation) := by
  rw [deallocate_eq, range?_count, h.range?_copied named member fit]
  simp only
  rw [freed, release_count, count_count]

/-- Until the operation is counted only the peak of the used bytes is another one. -/
theorem Sound.counters_release_copied (h : heap.Sound cells) (member : (target, c) ∈ cells)
    (b : Block) (i : Nat) :
    ((heap.copied b (target, c) size).release i).2.counters =
      { heap.counters with
        peakUsed := ((heap.copied b (target, c) size).release i).2.counters.peakUsed } := by
  rw [counters_release, counters_copied, h.counters_claimAt member]
  split <;> rfl

end Heap

namespace Pool

open Heap Layout

variable {config : Config} {heap : Heap} {cells : List Cell} {handle : Handle} {b : Block}
  {size : Nat}

/-- A resize ends as a request for a new block, a copy of the old bytes into it and the return
of the old block do, but is counted as one operation. -/
structure Relocates (p : Pool) (handle : Handle) (size : Nat) : Prop where
  refused : ∀ error q, p.allocate size = (.error error, q) →
    (∃ largest, error = .allocationFailed size largest) ∧
      p.resize handle size = (.error error, q)
  moved : ∀ new q, p.allocate size = (.ok new, q) →
    ∃ (bytes : List UInt8) (heap : Heap), p.read handle = .ok bytes ∧ heap.config = p.config ∧
      (∀ old, p.heap = .ok old →
        heap.counters = { old.counters with peakUsed := heap.counters.peakUsed }) ∧
      p.resize handle size = (.ok new, ⟨p.config, .ready (heap.count Counters.addResize)⟩) ∧
      (q.slotCount < UInt32.size → ∃ r, q.write new 0 bytes = (.ok (), r) ∧
        r.deallocate handle = (.ok (), ⟨p.config, .ready
          (heap.count fun counters => counters.addAllocation.addDeallocation)⟩))

theorem relocates_ready (h : heap.Sound cells) (named : heap.range? handle = some b)
    (larger : b.size < size) :
    (⟨heap.config, .ready heap⟩ : Pool).Relocates handle size := by
  have asked : (⟨heap.config, .ready heap⟩ : Pool).allocate size =
      ((heap.allocate size).1, ⟨heap.config, .ready (heap.allocate size).2⟩) := rfl
  have grown : (⟨heap.config, .ready heap⟩ : Pool).resize handle size =
      ((heap.resize handle size).1, ⟨heap.config, .ready (heap.resize handle size).2⟩) := rfl
  cases h.allocation size with
  | noRoom none refused =>
      rw [refused] at asked
      rw [resize_of_noRoom named larger none] at grown
      refine ⟨fun error q result => ?_, fun new q result => ?_⟩
      · cases asked.symm.trans result
        exact ⟨⟨_, rfl⟩, grown⟩
      · cases asked.symm.trans result
  | placed target c member fit found given =>
      rw [given] at asked
      rw [h.resize_of_fit named larger member fit found] at grown
      refine ⟨fun error q result => ?_, fun new q result => ?_⟩
      · cases asked.symm.trans result
      · cases asked.symm.trans result
        refine ⟨heap.buffer.slice b.offset b.size,
          ((heap.copied b (target, c) size).release handle.index.toNat).2,
          read_of_range? named, ?_, ?_, grown, fun slots => ?_⟩
        · rw [config_release, config_copied]
        · rintro _ ⟨⟩
          exact h.counters_release_copied member b handle.index.toNat
        · have small := h.small_of_placed member slots
          refine ⟨⟨heap.config, .ready
            ((heap.copied b (target, c) size).count Counters.addAllocation)⟩, ?_, ?_⟩
          · rw [write, onHeap_of_ok _ rfl, h.write_placed named larger member fit small]
          · rw [deallocate, onHeap_of_ok _ rfl, h.deallocate_copied named member fit]

theorem run_relocates {requests : List Request}
    (live : ((⟨config, .uninitialized⟩ : Pool).run requests).2.block handle = .ok b)
    (larger : b.size < size) :
    ((⟨config, .uninitialized⟩ : Pool).run requests).2.Relocates handle size := by
  have fresh : (⟨config, .uninitialized⟩ : Pool).Sound := nofun
  have sound := fresh.run requests
  generalize ((⟨config, .uninitialized⟩ : Pool).run requests).2 = p at live sound ⊢
  obtain ⟨heap, cells, rfl, h⟩ := sound.exists_ready (isReady_of_block live)
  exact relocates_ready h (range?_of_block live) larger

theorem run_relocates_between : ((⟨.debug, .uninitialized⟩ : Pool).run [.setUp 32,
    .allocate 8, .allocate 4, .allocate 4, .write ⟨1, 0⟩ 0 [1, 2, 3, 4], .deallocate ⟨0, 0⟩,
    .deallocate ⟨2, 0⟩]).2.Relocates ⟨1, 0⟩ 6 :=
  run_relocates (b := ⟨8, 4, false⟩) rfl (by decide)

end Pool

end BlockPool
