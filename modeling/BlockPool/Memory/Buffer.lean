/-!
# Buffers

A buffer is a fixed number of bytes.  Ranges of it are filled with one byte,
overwritten by a byte string and read out as a byte string; what a range holds
beyond the end of the buffer is dropped.
-/

namespace BlockPool

structure Buffer where
  bytes : Array UInt8
  deriving DecidableEq, Repr

namespace Buffer

def size (b : Buffer) : Nat := b.bytes.size

def zeros (size : Nat) : Buffer := ⟨Array.replicate size 0⟩

def set (b : Buffer) (position : Nat) (byte : UInt8) : Buffer :=
  ⟨b.bytes.setIfInBounds position byte⟩

def fill (b : Buffer) (start : Nat) : Nat → UInt8 → Buffer
  | 0, _ => b
  | count + 1, byte => (b.set start byte).fill (start + 1) count byte

def overwrite (b : Buffer) (start : Nat) : List UInt8 → Buffer
  | [] => b
  | byte :: rest => (b.set start byte).overwrite (start + 1) rest

def slice (b : Buffer) (start count : Nat) : List UInt8 :=
  (b.bytes.extract start (start + count)).toList

@[simp] theorem size_zeros (size : Nat) : (zeros size).size = size := by
  simp [zeros, Buffer.size]

@[simp] theorem size_set (b : Buffer) (position : Nat) (byte : UInt8) :
    (b.set position byte).size = b.size := by
  simp [set, Buffer.size]

@[simp] theorem size_fill (b : Buffer) (start count : Nat) (byte : UInt8) :
    (b.fill start count byte).size = b.size := by
  induction count generalizing b start with
  | zero => rfl
  | succ count ih => simp [fill, ih]

@[simp] theorem size_overwrite (b : Buffer) (start : Nat) (data : List UInt8) :
    (b.overwrite start data).size = b.size := by
  induction data generalizing b start with
  | nil => rfl
  | cons byte rest ih => simp [overwrite, ih]

theorem getElem?_set (b : Buffer) (position i : Nat) (byte : UInt8) :
    (b.set position byte).bytes[i]? =
      if i = position then b.bytes[i]?.map fun _ => byte else b.bytes[i]? := by
  by_cases same : i = position
  · subst same
    by_cases inside : i < b.bytes.size <;> simp [set, inside]
  · simp [set, same, Array.getElem?_setIfInBounds_ne (Ne.symm same)]

theorem getElem?_fill (b : Buffer) (start count i : Nat) (byte : UInt8) :
    (b.fill start count byte).bytes[i]? =
      if start ≤ i ∧ i < start + count then b.bytes[i]?.map fun _ => byte
      else b.bytes[i]? := by
  induction count generalizing b start with
  | zero => rw [fill, if_neg (by omega)]
  | succ count ih =>
      rw [fill, ih, getElem?_set]
      grind

theorem getElem?_overwrite (b : Buffer) (start i : Nat) (data : List UInt8) :
    (b.overwrite start data).bytes[i]? =
      if h : start ≤ i ∧ i - start < data.length then
        b.bytes[i]?.map fun _ => data[i - start]
      else b.bytes[i]? := by
  induction data generalizing b start with
  | nil => simp [overwrite]
  | cons byte rest ih =>
      rw [overwrite, ih, getElem?_set]
      grind

end Buffer

end BlockPool
