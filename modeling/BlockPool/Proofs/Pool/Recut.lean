import BlockPool.Proofs.Pool.Run

/-!
# How a request cuts the cells anew

A request leaves the cells of a heap as they are, claims the first one that
fits, releases one, or does the second after the first.  What holds of the
blocks after every such step holds of them after every run.
-/

namespace BlockPool.Heap

open Layout

variable {heap : Heap} {cells : List Cell} {handle : Handle} {size target : Nat} {b c : Block}

inductive Recut (heap : Heap) (cells : List Cell) : Pool.Request → List Cell → Prop where
  | same (request : Pool.Request) : Recut heap cells request cells
  | claimed (size : Nat) (before : List Cell) (i : Nat) (b : Block) (after : List Cell)
      (split : cells = before ++ (i, b) :: after) (fit : fits size b = true)
      (first : ∀ cell ∈ before, fits size cell.2 = false) :
      Recut heap cells (.allocate size)
        (before ++
          claimed heap.config.recordEmptyRemainder heap.layout.nextIndex size (i, b) ++ after)
  | released (handle : Handle) (before : List Cell) (i : Nat) (b : Block)
      (after : List Cell) (split : cells = before ++ (i, b) :: after)
      (inUse : b.free = false) :
      Recut heap cells (.deallocate handle) (released heap.config.coalesce before i b after)
  | moved (handle : Handle) (size : Nat) (before : List Cell) (i : Nat) (b : Block)
      (after front : List Cell) (j : Nat) (c : Block) (back : List Cell)
      (split : cells = before ++ (i, b) :: after) (fit : fits size b = true)
      (first : ∀ cell ∈ before, fits size cell.2 = false) (positive : 0 < size)
      (again : before ++
          claimed heap.config.recordEmptyRemainder heap.layout.nextIndex size (i, b) ++ after =
        front ++ (j, c) :: back)
      (inUse : c.free = false) :
      Recut heap cells (.resize handle size) (released heap.config.coalesce front j c back)

theorem Sound.recut_moved (h : heap.Sound cells) (named : heap.range? handle = some b)
    (larger : b.size < size) (member : (target, c) ∈ cells) (fit : fits size c = true)
    (found : heap.layout.firstFit? size = some target) :
    ∃ cells', heap.Recut cells (.resize handle size) cells' ∧
      (heap.moved handle.index.toNat b (target, c) size).Sound cells' := by
  obtain ⟨_, cells', copied, used⟩ := h.exists_copied named member fit
  obtain ⟨before, d, after, rfl, room, first⟩ := h.chains.split_of_firstFit? found
  obtain ⟨there, inUse⟩ := mem_usedCells.mp used
  obtain ⟨front, back, rfl⟩ := List.append_of_mem there
  have again := (h.claimAt room).chains.unique copied.chains
  have released := copied.release inUse
  rw [config_copied] at released
  exact ⟨_, .moved handle size before target d after front _ b back rfl room first
      (Nat.zero_lt_of_lt larger) again inUse,
    released.congr (layout_count ..) (size_count ..) (used_count ..)⟩

theorem Sound.recut (h : heap.Sound cells) (request : Pool.Request) :
    ∃ cells', heap.Recut cells request cells' ∧ (heap.serve request).Sound cells' := by
  cases request with
  | allocate size =>
      rw [Heap.serve]
      cases h.allocation size with
      | noRoom _ result =>
          rw [result]
          exact ⟨cells, .same _,
            h.congr (layout_count ..) (size_count ..) (used_count ..)⟩
      | placed i b _ _ found result =>
          obtain ⟨before, b, after, rfl, fit, first⟩ := h.chains.split_of_firstFit? found
          rw [result]
          exact ⟨_, .claimed size before i b after rfl fit first,
            h.placed_cells fit⟩
  | deallocate handle =>
      rw [Heap.serve, deallocate_eq]
      cases named : heap.range? handle with
      | none => exact ⟨cells, .same _, h⟩
      | some b =>
          obtain ⟨member, inUse⟩ := mem_usedCells.mp (h.range?_eq_some_iff.mp named).1
          obtain ⟨before, after, rfl⟩ := List.append_of_mem member
          exact ⟨_, .released handle before _ b after rfl inUse,
            h.freed_cells inUse⟩
  | resize handle size =>
      rw [Heap.serve]
      cases h.resizing handle size with
      | unnamed _ result =>
          rw [result]
          exact ⟨cells, .same _, h⟩
      | kept _ _ _ result =>
          rw [result]
          exact ⟨cells, .same _, h⟩
      | noRoom _ _ _ _ result =>
          rw [result]
          exact ⟨cells, .same _,
            h.congr (layout_count ..) (size_count ..) (used_count ..)⟩
      | moved b target c named larger member fit found result =>
          rw [result]
          exact h.recut_moved named larger member fit found
  | write handle offset data =>
      refine ⟨cells, .same _, ?_⟩
      rw [Heap.serve, write_eq]
      cases heap.range? handle with
      | none => exact h
      | some b =>
          simp only
          split
          · exact h.written _ data
          · exact h
  | _ => exact ⟨cells, .same _, h⟩

end BlockPool.Heap
