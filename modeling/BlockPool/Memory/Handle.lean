/-!
# Handles

A handle names one use of one slot of a table: the index of the slot and the
generation that the slot had when the handle was made.  Handles are ordered by
index, then by generation, and this is the order of their packed words.  The
word with all bits set stands for the absence of a handle.
-/

namespace BlockPool

structure Handle where
  index : UInt32
  generation : UInt32
  deriving DecidableEq, Repr

namespace Handle

instance : LT Handle where
  lt h k := h.index < k.index ∨ h.index = k.index ∧ h.generation < k.generation

instance (h k : Handle) : Decidable (h < k) :=
  inferInstanceAs
    (Decidable
      (h.index < k.index ∨ h.index = k.index ∧ h.generation < k.generation))

instance : Ord Handle where
  compare h k := compareOfLessAndEq h k

/-! ## Packed words -/

def pack (h : Handle) : UInt64 :=
  UInt64.ofNat (h.index.toNat * UInt32.size + h.generation.toNat)

def noneWord : UInt64 := UInt64.ofNat (UInt64.size - 1)

def unpack (word : UInt64) : Option Handle :=
  if word = noneWord then
    none
  else
    some
      { index := UInt32.ofNat (word.toNat / UInt32.size)
        generation := UInt32.ofNat (word.toNat % UInt32.size) }

def packOptional : Option Handle → UInt64
  | none => noneWord
  | some h => h.pack

theorem toNat_pack (h : Handle) :
    h.pack.toNat = h.index.toNat * UInt32.size + h.generation.toNat := by
  have hi := h.index.toNat_lt_size
  have hg := h.generation.toNat_lt_size
  exact UInt64.toNat_ofNat_of_lt' (by simp only [UInt32.size, UInt64.size] at *; omega)

@[simp] theorem unpack_noneWord : unpack noneWord = none := by
  simp [unpack]

/-- The one handle whose word is taken reads back as none. -/
theorem unpack_pack (h : Handle) :
    unpack h.pack = if h.pack = noneWord then none else some h := by
  have hg := h.generation.toNat_lt_size
  have index : h.pack.toNat / UInt32.size = h.index.toNat := by
    rw [toNat_pack]
    simp only [UInt32.size] at *
    omega
  have generation : h.pack.toNat % UInt32.size = h.generation.toNat := by
    rw [toNat_pack]
    simp only [UInt32.size] at *
    omega
  rw [unpack, index, generation, UInt32.ofNat_toNat, UInt32.ofNat_toNat]

/-! ## Text -/

def text (h : Handle) : String := s!"#{h.index}@{h.generation}"

end Handle

end BlockPool
