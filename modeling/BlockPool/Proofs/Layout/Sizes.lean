import Mathlib.Algebra.Ring.Nat
import BlockPool.Proofs.Layout.Placement

/-!
# Sizes of blocks

The blocks that cover a range have its length as their total.  The largest of
some sizes is their total if, and only if, no two of them are positive.
-/

namespace BlockPool

theorem foldr_max_le_sum (sizes : List Nat) : sizes.foldr max 0 ≤ sizes.sum := by
  induction sizes with
  | nil => exact Nat.le_refl 0
  | cons n rest ih =>
      rw [List.foldr_cons, List.sum_cons]
      omega

theorem sum_eq_zero_iff_countP (sizes : List Nat) :
    sizes.sum = 0 ↔ sizes.countP (0 < ·) = 0 := by
  rw [List.sum_eq_zero_iff_forall_eq_nat, List.countP_eq_zero]
  simp

theorem foldr_max_eq_sum_iff (sizes : List Nat) :
    sizes.foldr max 0 = sizes.sum ↔ sizes.countP (0 < ·) ≤ 1 := by
  induction sizes with
  | nil => simp
  | cons n rest ih =>
      have bound := foldr_max_le_sum rest
      have zero := sum_eq_zero_iff_countP rest
      rw [List.foldr_cons, List.sum_cons, List.countP_cons]
      by_cases positive : 0 < n
      · simp only [positive, decide_true, if_true]
        omega
      · simp only [positive, decide_false]
        have empty : n = 0 := Nat.eq_zero_of_not_pos positive
        simpa [empty] using ih

theorem foldr_max_eq_max? (sizes : List Nat) :
    sizes.foldr max 0 = sizes.max?.getD 0 := by
  induction sizes with
  | nil => rfl
  | cons n rest ih =>
      rw [List.foldr_cons, ih, List.max?_cons]
      cases rest.max? <;> simp

theorem Covers.add_sum {start stop : Nat} {blocks : List Block}
    (h : Covers start blocks stop) : start + (blocks.map Block.size).sum = stop := by
  induction blocks generalizing start with
  | nil => exact h
  | cons b rest ih =>
      obtain ⟨offset, tail⟩ := h
      have total := ih tail
      rw [List.map_cons, List.sum_cons]
      omega

namespace Layout

variable {l : Layout} {cells : List Cell}

theorem countP_positive_freeSizes (blocks : List Block) :
    ((blocks.filter Block.free).map Block.size).countP (0 < ·) =
      blocks.countP fun b => b.free && 0 < b.size := by
  rw [List.countP_map, List.countP_filter]
  exact List.countP_congr fun b _ => by simp [and_comm]

theorem usedTotal_add_freeTotal (blocks : List Block) :
    usedTotal blocks + ((blocks.filter Block.free).map Block.size).sum =
      (blocks.map Block.size).sum := by
  induction blocks with
  | nil => rfl
  | cons b rest ih =>
      cases free : b.free with
      | true =>
          simp [usedTotal, free]
          omega
      | false =>
          simp [usedTotal, free]
          omega

theorem sum_usedCells (cells : List Cell) :
    ((usedCells cells).map fun cell => cell.2.size).sum =
      usedTotal (cells.map Prod.snd) := by
  induction cells with
  | nil => rfl
  | cons cell rest ih =>
      rw [usedCells_cons]
      cases free : cell.2.free <;> simp [usedTotal, free, ih]

theorem Chains.live_eq (h : l.Chains cells) :
    l.live = l.freeSizes.length + (usedCells cells).length := by
  have free : l.freeSizes.length = cells.countP fun cell => cell.2.free := by
    rw [freeSizes, List.length_map, h.blocks_eq, List.filter_map, List.length_map,
      List.countP_eq_length_filter]
    rfl
  have used : (usedCells cells).length = cells.countP fun cell => !cell.2.free :=
    List.countP_eq_length_filter.symm
  have apart := List.length_eq_countP_add_countP (l := cells)
    fun cell => cell.2.free
  rw [free, used, ← h.length_eq_live, apart]
  simp

end Layout

end BlockPool
