import BlockPool.Proofs.Pool.Accounts
import BlockPool.Proofs.Pool.FirstFit

/-!
# Handles with the sizes of their blocks

Whoever asks a pool for blocks and gives some of them back can keep a list of
the handles that are out and of the sizes that were asked for.  The sizes of
the used blocks are those of the list.
-/

namespace BlockPool

namespace Heap

open Layout

variable {heap heap' : Heap} {cells : List Cell} {held rest : List (Handle × Nat)}
  {handle : Handle} {i n size : Nat} {b : Block}

/-- The handles that are out are these, and each names a block of the size beside it. -/
structure Owes (heap : Heap) (held : List (Handle × Nat)) : Prop where
  lends : heap.Lends (held.map Prod.fst)
  named : ∀ entry ∈ held, ∃ b, heap.range? entry.1 = some b ∧ b.size = entry.2

theorem owes_ofSize (size : Nat) (config : Config) : (Heap.ofSize size config).Owes [] :=
  ⟨lends_ofSize size config, nofun⟩

theorem Owes.perm (owes : heap.Owes held) (perm : held.Perm rest) : heap.Owes rest where
  lends := by
    obtain ⟨cells, sound, same⟩ := owes.lends
    exact ⟨cells, sound, (perm.map Prod.fst).symm.trans same⟩
  named entry member := owes.named entry (perm.mem_iff.mpr member)

theorem Owes.countFailure (owes : heap.Owes held) : heap.countFailure.Owes held where
  lends := owes.lends.countFailure
  named entry member := by
    rw [Heap.countFailure, range?_count]
    exact owes.named entry member

theorem Owes.nodup (owes : heap.Owes held) (slots : heap.layout.slotCount < UInt32.size) :
    (held.map Prod.fst).Nodup := by
  obtain ⟨cells, sound, perm⟩ := owes.lends
  exact perm.nodup_iff.mpr (sound.nodup_usedHandles slots)

theorem Owes.placed (owes : heap.Owes held) (h : heap.Sound cells) (member : (i, b) ∈ cells)
    (fit : fits size b = true) (small : i < UInt32.size) :
    (heap.placed i size).Owes ((heap.layout.handleOf i, size) :: held) where
  lends := by
    obtain ⟨cells', sound, perm⟩ := owes.lends
    obtain rfl := h.chains.unique sound.chains
    exact .placed h perm member fit
  named := by
    rw [List.forall_mem_cons]
    constructor
    · exact ⟨_, by rw [h.range?_placed member fit small, if_pos rfl], rfl⟩
    · intro entry later
      obtain ⟨c, named, same⟩ := owes.named entry later
      exact ⟨c, h.range?_placed_of_some member fit named, same⟩

theorem Owes.freed (owes : heap.Owes ((handle, n) :: rest))
    (slots : heap.layout.slotCount < UInt32.size) :
    (heap.freed handle.index.toNat).Owes rest := by
  have distinct : handle ∉ rest.map Prod.fst := (List.nodup_cons.mp (owes.nodup slots)).1
  obtain ⟨⟨b, named, _⟩, others⟩ := List.forall_mem_cons.mp owes.named
  constructor
  · exact owes.lends.freed_head named
  · obtain ⟨cells, sound, _⟩ := owes.lends
    intro entry member
    have other : entry.1 ≠ handle := by
      rintro rfl
      exact distinct (List.mem_map_of_mem member)
    rw [sound.range?_freed named, if_neg other]
    exact others entry member

theorem slotCount_freeAll (heap : Heap) (handles : List Handle) :
    (heap.freeAll handles).layout.slotCount = heap.layout.slotCount := by
  induction handles generalizing heap with
  | nil => rfl
  | cons handle rest ih => exact (ih _).trans (slotCount_freed ..)

theorem size_freeAll (heap : Heap) (handles : List Handle) :
    (heap.freeAll handles).size = heap.size := by
  induction handles generalizing heap with
  | nil => rfl
  | cons handle rest ih => exact (ih _).trans (by simp [Heap.freed])

theorem Owes.freeAll {back : List (Handle × Nat)} (owes : heap.Owes (back ++ rest))
    (slots : heap.layout.slotCount < UInt32.size) :
    (heap.freeAll (back.map Prod.fst)).Owes rest := by
  induction back generalizing heap with
  | nil => exact owes
  | cons entry back ih => exact ih (owes.freed slots) (slotCount_freed heap _ ▸ slots)

theorem Owes.usedSizes_perm (owes : heap.Owes held)
    (slots : heap.layout.slotCount < UInt32.size) :
    heap.layout.usedSizes.Perm (held.map Prod.snd) := by
  obtain ⟨cells, sound, perm⟩ := owes.lends
  have sizes : (held.map Prod.fst).map (Pool.extent ⟨heap.config, .ready heap⟩) =
      held.map Prod.snd := by
    rw [List.map_map]
    refine List.map_congr_left fun entry member => ?_
    obtain ⟨b, named, same⟩ := owes.named entry member
    simp only [Function.comp_apply, Pool.extent, Pool.block_ready, named, same]
  have used : heap.layout.usedSizes = (usedCells cells).map fun cell => cell.2.size := by
    rw [usedSizes, sound.chains.blocks_eq, List.filter_map, List.map_map]
    rfl
  rw [used, ← sound.map_extent slots heap.config, ← sizes]
  exact (perm.map _).symm

end Heap

/-! ## Scripts of allocations -/

def Pool.grants (p : Pool) : List Nat → List (Except PoolError Handle)
  | [] => []
  | size :: sizes => (p.allocate size).1 :: (p.allocate size).2.grants sizes

def portions (handles : List (Option Handle)) (sizes : List Nat) : List (Handle × Nat) :=
  (handles.zip sizes).filterMap fun entry => entry.1.map (·, entry.2)

@[simp] theorem portions_none (handles : List (Option Handle)) (size : Nat)
    (sizes : List Nat) : portions (none :: handles) (size :: sizes) = portions handles sizes := rfl

@[simp] theorem portions_some (handle : Handle) (handles : List (Option Handle)) (size : Nat)
    (sizes : List Nat) :
    portions (some handle :: handles) (size :: sizes) =
      (handle, size) :: portions handles sizes := rfl

namespace Heap

open Layout

variable {heap : Heap} {held : List (Handle × Nat)} {config : Config}

theorem Owes.run_allocate (owes : heap.Owes held) {sizes : List Nat}
    (slots : ((⟨config, .ready heap⟩ : Pool).run (sizes.map .allocate)).2.slotCount <
      UInt32.size) :
    ((sizes.map .allocate).foldl Heap.serve heap).Owes
      (portions (((⟨config, .ready heap⟩ : Pool).grants sizes).map Except.toOption) sizes ++
        held) := by
  induction sizes generalizing heap held with
  | nil => exact owes
  | cons size rest ih =>
      obtain ⟨cells, sound, _⟩ := owes.lends
      have isOpen : Pool.Request.close ∉ rest.map Pool.Request.allocate := by simp
      have going : Pool.Request.allocate size ≠ .close := nofun
      have step : (⟨config, .ready heap⟩ : Pool).allocate size =
          ((heap.allocate size).1, ⟨config, .ready (heap.allocate size).2⟩) := rfl
      rw [List.map_cons, Pool.run_cons, Pool.perform_ready going, Heap.serve] at slots
      rw [Pool.grants, step, List.map_cons, List.map_cons, List.foldl_cons, Heap.serve]
      have grown : (heap.allocate size).2.layout.slotCount < UInt32.size := by
        obtain ⟨cells', next⟩ := sound.serve (.allocate size)
        obtain ⟨_, _, _, _, grown⟩ := next.foldl_serve (rest.map .allocate)
        rw [Pool.run_ready isOpen] at slots
        exact Nat.lt_of_le_of_lt grown slots
      cases sound.allocation size with
      | noRoom _ result =>
          rw [result] at slots ⊢
          exact ih owes.countFailure slots
      | placed i b member fit _ result =>
          rw [result] at slots grown ⊢
          have small := sound.small_of_placed member grown
          exact (ih (owes.placed sound member fit small) slots).perm List.perm_middle

end Heap

end BlockPool
