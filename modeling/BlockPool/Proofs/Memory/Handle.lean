import BlockPool.Memory.Handle

/-!
# The order of packed handles

Packing puts the handles into the order of their words, so no two handles share
a word.  Every word except the one that stands for no handle unpacks to the
handle that it is the word of; only the last handle of all is lost this way.
-/

namespace BlockPool.Handle

variable {h k : Handle} {word : UInt64}

/-- The handle whose word stands for no handle. -/
def last : Handle := ⟨0xFFFFFFFF, 0xFFFFFFFF⟩

theorem pack_last : last.pack = noneWord := by decide

theorem unpack_last : unpack last.pack = none := by rw [pack_last, unpack_noneWord]

/-! ## Words in order -/

theorem lt_iff : h < k ↔
    h.index < k.index ∨ h.index = k.index ∧ h.generation < k.generation := Iff.rfl

/-- A generation fits into the lower half, so the upper halves are compared first. -/
theorem pack_lt_pack_iff : h.pack < k.pack ↔ h < k := by
  have hg := h.generation.toNat_lt_size
  have kg := k.generation.toNat_lt_size
  rw [lt_iff, UInt64.lt_iff_toNat_lt, toNat_pack, toNat_pack, UInt32.lt_iff_toNat_lt,
    UInt32.lt_iff_toNat_lt, ← UInt32.toNat_inj]
  simp only [UInt32.size] at *
  omega

theorem pack_inj : h.pack = k.pack ↔ h = k := by
  refine ⟨fun same => ?_, congrArg pack⟩
  have hg := h.generation.toNat_lt_size
  have kg := k.generation.toNat_lt_size
  have word := congrArg UInt64.toNat same
  rw [toNat_pack, toNat_pack] at word
  have index : h.index = k.index := by
    apply UInt32.toNat_inj.mp
    simp only [UInt32.size] at *
    omega
  have generation : h.generation = k.generation := by
    apply UInt32.toNat_inj.mp
    simp only [UInt32.size] at *
    omega
  cases h
  cases k
  simp_all

theorem compare_pack (h k : Handle) : compare h.pack k.pack = compare h k := by
  change compareOfLessAndEq h.pack k.pack = compareOfLessAndEq h k
  simp only [compareOfLessAndEq, pack_lt_pack_iff, pack_inj]

/-! ## Packing and unpacking undo each other -/

theorem pack_eq_noneWord_iff : h.pack = noneWord ↔ h = last := by
  rw [← pack_last, pack_inj]

theorem unpack_pack_of_ne (other : h ≠ last) : unpack h.pack = some h := by
  rw [unpack_pack, if_neg (mt pack_eq_noneWord_iff.mp other)]

theorem pack_of_unpack (read : unpack word = some h) : h.pack = word := by
  have bound := word.toNat_lt_size
  rw [unpack] at read
  split at read
  · cases read
  · cases read
    have index : word.toNat / UInt32.size < UInt32.size := by
      simp only [UInt32.size, UInt64.size] at *
      omega
    have generation : word.toNat % UInt32.size < UInt32.size := Nat.mod_lt _ (by decide)
    apply UInt64.toNat_inj.mp
    rw [toNat_pack, UInt32.toNat_ofNat_of_lt' index, UInt32.toNat_ofNat_of_lt' generation,
      Nat.mul_comm, Nat.div_add_mod]

theorem unpack_eq_none_iff : unpack word = none ↔ word = noneWord := by
  simp [unpack]

theorem unpack_eq_some_iff : unpack word = some h ↔ h ≠ last ∧ h.pack = word := by
  constructor
  · intro read
    have same := pack_of_unpack read
    refine ⟨?_, same⟩
    rintro rfl
    rw [← same, unpack_last] at read
    cases read
  · rintro ⟨other, rfl⟩
    exact unpack_pack_of_ne other

theorem packOptional_unpack (word : UInt64) : packOptional (unpack word) = word := by
  cases read : unpack word with
  | none => exact (unpack_eq_none_iff.mp read).symm
  | some h => exact pack_of_unpack read

end BlockPool.Handle
