import BlockPool.Proofs.Layout.Audit
import BlockPool.Proofs.Pool.Run

/-!
# Blocks of a pool are a partition of it

As long as a pool is open its blocks lie side by side from address zero to its
size, its links are whole, its check passes, and no operation finds anything
wrong with the bookkeeping.
-/

namespace BlockPool

namespace Heap

open Layout

variable {heap : Heap} {cells : List Cell}

theorem Sound.layout_usedBytes (h : heap.Sound cells) : heap.layout.usedBytes = heap.used := by
  rw [usedBytes_eq, h.chains.blocks_eq, h.used_eq]

theorem Sound.check_eq (h : heap.Sound cells) (bounded : heap.size < addressBound) :
    heap.check = .ok () := by
  simp [check, h.chains.audit_eq h.covers bounded, h.layout_usedBytes]

theorem Sound.partition (h : heap.Sound cells) (positive : 0 < heap.size) :
    Partition heap.layout.blocks heap.size := by
  rw [h.chains.blocks_eq]
  exact h.covers.partition positive

end Heap

namespace Pool

variable {config : Config} {heap : Heap} {cells : List Cell}

theorem perform_ne_corruption (h : heap.Sound cells)
    (bounded : heap.size < Layout.addressBound) (request : Request) (damage : Damage) :
    ((⟨config, .ready heap⟩ : Pool).perform request).1 ≠
      .error (.corruption damage) := by
  cases request with
  | allocate size =>
      apply map_ne_error ((heap.allocate size).1)
      cases h.allocation size with
      | noRoom _ result => simp [result, Heap.noRoom]
      | placed _ _ _ _ _ result => simp [result]
  | deallocate handle =>
      apply map_ne_error ((heap.deallocate handle).1)
      rw [Heap.deallocate_eq]
      cases heap.range? handle <;> simp
  | resize handle size =>
      apply map_ne_error ((heap.resize handle size).1)
      cases h.resizing handle size with
      | unnamed _ result => simp [result]
      | kept _ _ _ result => simp [result]
      | noRoom _ _ _ _ result => simp [result, Heap.noRoom]
      | moved _ _ _ _ _ _ _ _ result => simp [result]
  | read handle =>
      apply map_ne_error (heap.read handle)
      rw [Heap.read, Heap.block_eq]
      cases heap.range? handle <;> simp [Except.map]
  | readAt handle offset length =>
      apply map_ne_error (heap.readAt handle offset length)
      rw [Heap.readAt, Heap.block_eq]
      cases heap.range? handle with
      | none => simp
      | some b =>
          simp only
          split <;> simp
  | write handle offset data =>
      apply map_ne_error ((heap.write handle offset data).1)
      rw [Heap.write_eq]
      cases heap.range? handle with
      | none => simp
      | some b =>
          simp only
          split <;> simp
  | block handle =>
      apply map_ne_error (heap.block handle)
      rw [Heap.block_eq]
      cases heap.range? handle <;> simp
  | check =>
      apply map_ne_error (heap.check)
      simp [h.check_eq bounded]
  | _ => exact nofun

theorem run_ne_corruption (h : heap.Sound cells)
    (bounded : heap.size < Layout.addressBound) {requests : List Request}
    (isOpen : .close ∉ requests) :
    ∀ result ∈ ((⟨config, .ready heap⟩ : Pool).run requests).1, ∀ damage,
      result ≠ .error (.corruption damage) := by
  induction requests generalizing heap cells with
  | nil => simp [run]
  | cons request rest ih =>
      rw [List.mem_cons, not_or] at isOpen
      obtain ⟨cells', next⟩ := h.serve request
      have same := (h.change request).size_eq
      rw [run_cons, perform_ready (Ne.symm isOpen.1)]
      intro result member
      rcases List.mem_cons.mp member with rfl | later
      · exact perform_ne_corruption h bounded request
      · exact ih next (same ▸ bounded) isOpen.2 result later

theorem run_partitions {p : Pool} {size : Nat} {requests : List Request}
    (made : withConfig config = .ok p) (positive : 0 < size)
    (bounded : size < Layout.addressBound) (isOpen : .close ∉ requests) :
    ∃ heap, (p.run (.setUp size :: requests)).2 = ⟨config, .ready heap⟩ ∧
      (p.run (.setUp size :: requests)).2.blocks = .ok heap.layout.blocks ∧
      Partition heap.layout.blocks size ∧ heap.layout.WellLinked ∧
      (p.run (.setUp size :: requests)).2.check = .ok () ∧
      ∀ result ∈ (p.run (.setUp size :: requests)).1, ∀ damage,
        result ≠ .error (.corruption damage) := by
  rw [eq_of_withConfig made]
  obtain ⟨heap, cells, final, sound, rfl⟩ :=
    exists_sound_run config positive isOpen
  refine ⟨heap, final, ?_, sound.partition positive, sound.chains.wellLinked, ?_, ?_⟩
  · rw [final]
    rfl
  · rw [final]
    exact sound.check_eq bounded
  · have start := Heap.sound_ofSize heap.size config
    have small : (Heap.ofSize heap.size config).size < Layout.addressBound := by
      rwa [show (Heap.ofSize heap.size config).size = heap.size from
        Buffer.size_zeros heap.size]
    rw [run_setUp positive]
    intro result member
    rcases List.mem_cons.mp member with rfl | later
    · exact nofun
    · exact run_ne_corruption start small isOpen result later

theorem run_partitions_debug :
    ∃ heap, (Pool.run ⟨Config.debug, .uninitialized⟩
        [.setUp 64, .allocate 8, .allocate 0, .resize ⟨0, 0⟩ 24]).2 =
          ⟨Config.debug, .ready heap⟩ ∧
      (Pool.run ⟨Config.debug, .uninitialized⟩
        [.setUp 64, .allocate 8, .allocate 0, .resize ⟨0, 0⟩ 24]).2.blocks =
          .ok heap.layout.blocks ∧
      Partition heap.layout.blocks 64 ∧ heap.layout.WellLinked ∧
      (Pool.run ⟨Config.debug, .uninitialized⟩
        [.setUp 64, .allocate 8, .allocate 0, .resize ⟨0, 0⟩ 24]).2.check = .ok () ∧
      ∀ result ∈ (Pool.run ⟨Config.debug, .uninitialized⟩
          [.setUp 64, .allocate 8, .allocate 0, .resize ⟨0, 0⟩ 24]).1, ∀ damage,
        result ≠ .error (.corruption damage) :=
  run_partitions rfl (by decide) (by decide) (by decide)

end Pool

end BlockPool
