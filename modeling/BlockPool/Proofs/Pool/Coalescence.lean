import BlockPool.Proofs.Layout.Coalescence
import BlockPool.Proofs.Pool.Outstanding

/-!
# Pools that merge both ways

Under the bidirectional policy no two neighbouring blocks of a pool are free
after any run.  Once every handle has been given back, the pool is one free
block again and has room for every size up to its own.
-/

namespace BlockPool

namespace Heap

open Layout

variable {heap : Heap} {cells cells' : List Cell} {i size : Nat} {b : Block}

theorem Sound.coalesced_claimAt (h : heap.Sound cells) (member : (i, b) ∈ cells)
    (fit : fits size b = true) (coalesced : Coalesced heap.layout.blocks) :
    Coalesced (heap.claimAt i size).layout.blocks := by
  obtain ⟨before, after, rfl⟩ := List.append_of_mem member
  rw [h.chains.blocks_eq] at coalesced
  rw [(h.claimAt fit).chains.blocks_eq]
  exact coalesced_claimed coalesced (fits_iff.mp fit).1

theorem Sound.coalesced_release (h : heap.Sound cells)
    (used : (i, b) ∈ usedCells cells) (merges : heap.config.coalesce = .bidirectional)
    (coalesced : Coalesced heap.layout.blocks) :
    Coalesced (heap.release i).2.layout.blocks := by
  obtain ⟨member, inUse⟩ := mem_usedCells.mp used
  obtain ⟨before, after, rfl⟩ := List.append_of_mem member
  rw [h.chains.blocks_eq] at coalesced
  rw [(h.release inUse).chains.blocks_eq, merges]
  exact coalesced_released coalesced

theorem Sound.coalesced_of_change {heap' : Heap} (h : heap.Sound cells)
    (merges : heap.config.coalesce = .bidirectional)
    (coalesced : Coalesced heap.layout.blocks) (change : heap.Change cells heap') :
    Coalesced heap'.layout.blocks := by
  cases change with
  | same _ layout _ _ _ => exact layout ▸ coalesced
  | placed i b size member fit =>
      rw [placed, layout_count]
      exact h.coalesced_claimAt member fit coalesced
  | freed handle b named =>
      rw [freed, layout_count]
      exact h.coalesced_release (h.range?_eq_some_iff.mp named).1 merges coalesced
  | moved handle b target c size named member fit =>
      obtain ⟨_, cells', copied, used⟩ := h.exists_copied named member fit
      have claimed : Coalesced (heap.copied b (target, c) size).layout.blocks :=
        h.coalesced_claimAt member fit coalesced
      rw [moved, layout_count]
      refine copied.coalesced_release used ?_ claimed
      rw [← merges]
      exact congrArg Config.coalesce (config_claimAt ..)

theorem Sound.coalesced_run (h : heap.Sound cells)
    (merges : heap.config.coalesce = .bidirectional)
    (coalesced : Coalesced heap.layout.blocks) (requests : List Pool.Request) :
    Coalesced (requests.foldl Heap.serve heap).layout.blocks := by
  induction requests generalizing heap cells with
  | nil => exact coalesced
  | cons request rest ih =>
      obtain ⟨cells', next⟩ := h.serve request
      have change := h.change request
      exact ih next (change.config_eq ▸ merges)
        (h.coalesced_of_change merges coalesced change)

theorem coalesced_ofSize (size : Nat) (config : Config) :
    Coalesced (Heap.ofSize size config).layout.blocks := by
  rw [(sound_ofSize size config).chains.blocks_eq]
  exact .singleton _

theorem Sound.exists_allocate (h : heap.Sound cells) {whole : Nat}
    (single : heap.layout.blocks = [⟨0, whole, true⟩]) (small : size ≤ whole) :
    ∃ handle, (heap.allocate size).1 = .ok handle := by
  rw [h.allocates_iff, single]
  exact ⟨_, List.mem_singleton_self _, rfl, small⟩

end Heap

namespace Pool

variable {config : Config}

theorem run_coalesced {p : Pool} {size : Nat} {requests : List Request}
    (merges : config.coalesce = .bidirectional)
    (opened : (⟨config, .uninitialized⟩ : Pool).setUp size = (.ok (), p))
    (isOpen : .close ∉ requests) :
    ∃ blocks, (p.run requests).2.blocks = .ok blocks ∧ Coalesced blocks ∧
      (p.outstanding requests = [] →
        blocks = [⟨0, size, true⟩] ∧
          ∀ n ≤ size, ∃ handle, ((p.run requests).2.allocate n).1 = .ok handle) := by
  obtain ⟨positive, rfl⟩ := ready_of_setUp opened
  have start := Heap.sound_ofSize size config
  have coalesced :=
    start.coalesced_run merges (Heap.coalesced_ofSize size config) requests
  have lends := (Heap.lends_ofSize size config).run config isOpen
  obtain ⟨cells, sound, total, _⟩ := start.foldl_serve requests
  rw [run_ready isOpen]
  refine ⟨_, rfl, coalesced, fun none => ?_⟩
  have covers := sound.covers_blocks
  rw [total, Heap.size_ofSize] at covers
  have single := coalesced.eq_singleton covers positive
    (Heap.Lends.free_of_nil (none ▸ lends))
  exact ⟨single, fun n small => sound.exists_allocate single small⟩

theorem run_coalesced_emptied :
    ∃ blocks, (Pool.run ⟨.production, .ready (.ofSize 16 .production)⟩
          [.allocate 4, .allocate 0, .resize ⟨0, 0⟩ 9, .deallocate ⟨1, 0⟩,
            .deallocate ⟨2, 0⟩]).2.blocks = .ok blocks ∧
      Coalesced blocks ∧ blocks = [⟨0, 16, true⟩] ∧
      ∀ n ≤ 16, ∃ handle, ((Pool.run ⟨.production, .ready (.ofSize 16 .production)⟩
        [.allocate 4, .allocate 0, .resize ⟨0, 0⟩ 9, .deallocate ⟨1, 0⟩,
          .deallocate ⟨2, 0⟩]).2.allocate n).1 = .ok handle := by
  have opened : (⟨.production, .uninitialized⟩ : Pool).setUp 16 =
      (.ok (), ⟨.production, .ready (.ofSize 16 .production)⟩) := setUp_of_pos (by decide)
  have isOpen : Request.close ∉ [.allocate 4, .allocate 0, .resize ⟨0, 0⟩ 9,
      .deallocate ⟨1, 0⟩, .deallocate ⟨2, 0⟩] := by decide
  have none : Pool.outstanding ⟨.production, .ready (.ofSize 16 .production)⟩
      [.allocate 4, .allocate 0, .resize ⟨0, 0⟩ 9, .deallocate ⟨1, 0⟩,
        .deallocate ⟨2, 0⟩] = [] := by decide +kernel
  obtain ⟨blocks, listed, coalesced, emptied⟩ := run_coalesced rfl opened isOpen
  exact ⟨blocks, listed, coalesced, emptied none⟩

end Pool

end BlockPool
