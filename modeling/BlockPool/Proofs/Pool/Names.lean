import BlockPool.Proofs.Layout.View
import BlockPool.Proofs.Pool.Orders
import BlockPool.Proofs.Pool.Range

/-!
# Blocks by the steps that gave them out

The slot of a used block goes by the steps of a script that gave out the handle
that the slot has.  A claim names the claimed block by its step alone, a release
takes the names of the released block away, and neither of them touches the
names of the others.
-/

namespace BlockPool

open Layout

namespace Heap

variable {heap heap' : Heap} {cells before after : List Cell} {answers : Pool.Answers}
  {i j size : Nat} {b : Block}

/-! ## Names of slots -/

def names (heap : Heap) (answers : Pool.Answers) (i step : Nat) : Prop :=
  answers.handle? step = some (heap.layout.handleOf i)

theorem names_concat (heap : Heap) (answers : Pool.Answers)
    (answer : Option (Except PoolError Pool.Reply)) (i : Nat) :
    heap.names (answers ++ [answer]) i = fun step =>
      heap.names answers i step ∨
        step = answers.length ∧ answer = some (.ok (.handle (heap.layout.handleOf i))) :=
  funext fun _ => propext Pool.Answers.handle?_concat

theorem names_concat_of_ne {answer : Option (Except PoolError Pool.Reply)}
    (other : ∀ handle, answer ≠ some (.ok (.handle handle))) :
    heap.names (answers ++ [answer]) = heap.names answers := by
  funext i
  simp [names_concat, other]

theorem names_of_layout (layout : heap'.layout = heap.layout) : heap'.names = heap.names := by
  funext answers i step
  simp only [names, layout]

theorem names_congr (answers : Pool.Answers)
    (same : heap'.layout.generation i = heap.layout.generation i) :
    heap'.names answers i = heap.names answers i := by
  funext step
  simp only [names, handleOf, same]

theorem eq_of_handleOf_eq {l : Layout} (small : i < UInt32.size) (small' : j < UInt32.size)
    (same : l.handleOf i = l.handleOf j) : i = j := by
  rw [← UInt32.toNat_ofNat_of_lt' small, ← UInt32.toNat_ofNat_of_lt' small']
  exact congrArg (fun handle => handle.index.toNat) same

theorem view_others (small : i < UInt32.size)
    (apart : ∀ cell ∈ cells, cell.1 < UInt32.size ∧ cell.1 ≠ i) :
    view (heap.names (answers ++ [some (.ok (.handle (heap.layout.handleOf i)))])) cells =
      view (heap.names answers) cells := by
  refine view_congr fun cell used => ?_
  obtain ⟨low, distinct⟩ := apart cell (mem_usedCells.mp used).1
  have other : heap.layout.handleOf i ≠ heap.layout.handleOf cell.1 := fun same =>
    distinct (eq_of_handleOf_eq low small same.symm)
  rw [names_concat]
  simp [other]

theorem Sound.apart_of_split (h : heap.Sound (before ++ (i, b) :: after))
    (slots : heap.layout.slotCount < UInt32.size) :
    i < UInt32.size ∧ (∀ cell ∈ before, cell.1 < UInt32.size ∧ cell.1 ≠ i) ∧
      ∀ cell ∈ after, cell.1 < UInt32.size ∧ cell.1 ≠ i := by
  have small (cell : Cell) (member : cell ∈ before ++ (i, b) :: after) :
      cell.1 < UInt32.size := Nat.lt_trans (h.chains.lt_slotCount member) slots
  obtain ⟨notBefore, notAfter⟩ := not_mem_of_split h.chains.nodup
  refine ⟨small (i, b) (by simp), fun cell member => ⟨small cell (by simp [member]), ?_⟩,
    fun cell member => ⟨small cell (by simp [member]), ?_⟩⟩
  · rintro rfl
    exact notBefore (List.mem_map_of_mem member)
  · rintro rfl
    exact notAfter (List.mem_map_of_mem member)

/-! ## Views after each part of an operation -/

theorem Sound.view_claimAt (h : heap.Sound (before ++ (i, b) :: after))
    (slots : heap.layout.slotCount < UInt32.size)
    (fresh : ∀ step, answers.handle? step ≠ some (heap.layout.handleOf i))
    (keepEmpty : Bool) (new : Nat) :
    view ((heap.claimAt i size).names
        (answers ++ [some (.ok (.handle (heap.layout.handleOf i)))]))
        (before ++ claimed keepEmpty new size (i, b) ++ after) =
      view (heap.names answers) before ++
        (fun step => step = answers.length, ⟨b.offset, size, false⟩) ::
          shown [(fun _ => False, ⟨b.offset + size, b.size - size, true⟩)] ++
            view (heap.names answers) after := by
  obtain ⟨small, left, right⟩ := h.apart_of_split slots
  have same : (heap.claimAt i size).names = heap.names := by
    funext answers k
    refine names_congr answers ?_
    rw [layout_claimAt, generation_claim h.chains]
  have own : heap.names (answers ++ [some (.ok (.handle (heap.layout.handleOf i)))]) i =
      fun step => step = answers.length := by
    rw [names_concat]
    simp [names, fresh]
  rw [same, view_claimed, view_others small left, view_others small right, own]

theorem Sound.view_kept (h : heap.Sound (before ++ (i, b) :: after))
    (slots : heap.layout.slotCount < UInt32.size) (inUse : b.free = false)
    (answers : Pool.Answers) :
    view (heap.names (answers ++ [some (.ok (.handle (heap.layout.handleOf i)))]))
        (before ++ (i, b) :: after) =
      view (heap.names answers) before ++
        (fun step => heap.names answers i step ∨ step = answers.length, b) ::
          view (heap.names answers) after := by
  obtain ⟨small, left, right⟩ := h.apart_of_split slots
  rw [view_append, view_cons (Block.isShown_of_used inUse), face_of_used inUse,
    view_others small left, view_others small right, names_concat]
  simp

theorem Sound.view_release (h : heap.Sound (before ++ (i, b) :: after))
    (coalesced : Coalesced ((before ++ (i, b) :: after).map Prod.snd))
    (inUse : b.free = false) (positive : 0 < b.size) :
    view ((heap.release i).2.names answers) (released .bidirectional before i b after) =
      fuse (view (heap.names answers) before ++
        (fun _ => False, { b with free := true }) :: view (heap.names answers) after) := by
  rw [← view_released coalesced h.covers positive]
  refine view_congr fun cell used => names_congr answers ?_
  obtain ⟨notBefore, notAfter⟩ := not_mem_of_split h.chains.nodup
  rw [usedCells_released, ← usedCells_append] at used
  obtain ⟨member, using'⟩ := mem_usedCells.mp used
  have distinct : cell.1 ≠ i := by
    rintro rfl
    rcases List.mem_append.mp member with there | there
    · exact notBefore (List.mem_map_of_mem there)
    · exact notAfter (List.mem_map_of_mem there)
  have own : (i, b) ∈ usedCells (before ++ (i, b) :: after) :=
    mem_usedCells.mpr ⟨by simp, inUse⟩
  have other : (cell.1, cell.2) ∈ usedCells (before ++ (i, b) :: after) := by
    refine mem_usedCells.mpr ⟨?_, using'⟩
    rcases List.mem_append.mp member with there | there
    · exact List.mem_append_left _ there
    · exact List.mem_append_right _ (List.mem_cons_of_mem _ there)
  exact generation_release h own other distinct

end Heap

end BlockPool
