import BlockPool.Memory.Buffer

/-!
# Slices of a buffer

What a slice holds after a range was filled or overwritten: the same as before
where the two share no place, and otherwise the new bytes in their places.
-/

namespace BlockPool.Buffer

variable {b : Buffer} {start count : Nat}

theorem getElem?_slice (b : Buffer) (start count k : Nat) :
    (b.slice start count)[k]? = if k < count then b.bytes[start + k]? else none := by
  rw [slice, Array.getElem?_toList, Array.getElem?_extract]
  by_cases inside : k < count
  · rw [if_pos inside]
    split
    · rfl
    · next outside =>
        rw [Array.getElem?_eq_none]
        omega
  · rw [if_neg inside, if_neg]
    omega

theorem length_slice (inside : start + count ≤ b.size) :
    (b.slice start count).length = count := by
  rw [slice, Array.length_toList, Array.size_extract]
  have := inside
  simp only [Buffer.size] at this
  omega

theorem slice_congr {b' : Buffer}
    (same : ∀ k, k < count → b'.bytes[start + k]? = b.bytes[start + k]?) :
    b'.slice start count = b.slice start count := by
  apply List.ext_getElem?
  intro k
  rw [getElem?_slice, getElem?_slice]
  split
  · next inside => exact same k inside
  · rfl

theorem slice_sub {offset length : Nat} (inside : offset + length ≤ count) :
    b.slice (start + offset) length =
      ((b.slice start count).drop offset).take length := by
  apply List.ext_getElem?
  intro k
  rw [getElem?_slice, List.getElem?_take, List.getElem?_drop, getElem?_slice]
  by_cases within : k < length
  · rw [if_pos within, if_pos within, if_pos (by omega), Nat.add_assoc]
  · rw [if_neg within, if_neg within]

/-! ## Filling -/

def paint (b : Buffer) (pattern : Option UInt8) (start count : Nat) : Buffer :=
  match pattern with
  | none => b
  | some byte => b.fill start count byte

@[simp] theorem paint_none (b : Buffer) (start count : Nat) :
    b.paint none start count = b := rfl

@[simp] theorem size_paint (b : Buffer) (pattern : Option UInt8) (start count : Nat) :
    (b.paint pattern start count).size = b.size := by
  cases pattern with
  | none => rfl
  | some byte => exact size_fill ..

theorem getElem?_paint_of_outside (pattern : Option UInt8) {i : Nat}
    (outside : ¬(start ≤ i ∧ i < start + count)) :
    (b.paint pattern start count).bytes[i]? = b.bytes[i]? := by
  cases pattern with
  | none => rfl
  | some byte => rw [paint, getElem?_fill, if_neg outside]

theorem slice_paint_of_apart (pattern : Option UInt8) {low length : Nat}
    (apart : start + count ≤ low ∨ low + length ≤ start) :
    (b.paint pattern low length).slice start count = b.slice start count := by
  apply slice_congr
  intro k inside
  exact getElem?_paint_of_outside pattern (by omega)

theorem slice_fill (inside : start + count ≤ b.size) (byte : UInt8) :
    (b.fill start count byte).slice start count = List.replicate count byte := by
  apply List.ext_getElem?
  intro k
  rw [getElem?_slice, List.getElem?_replicate]
  by_cases within : k < count
  · have there : start + k < b.bytes.size := Nat.lt_of_lt_of_le (by omega) inside
    rw [if_pos within, if_pos within, getElem?_fill, if_pos (by omega),
      Array.getElem?_eq_getElem there]
    rfl
  · rw [if_neg within, if_neg within]

theorem paint_comm (b : Buffer) (pattern : Option UInt8) (start count low length : Nat) :
    (b.paint pattern start count).paint pattern low length =
      (b.paint pattern low length).paint pattern start count := by
  cases pattern with
  | none => rfl
  | some byte =>
      refine congrArg Buffer.mk (Array.ext_getElem? fun i => ?_)
      change ((b.fill start count byte).fill low length byte).bytes[i]? =
        ((b.fill low length byte).fill start count byte).bytes[i]?
      simp only [getElem?_fill]
      split <;> split <;> simp_all

/-! ## Overwriting -/

theorem getElem?_overwrite_of_outside {data : List UInt8} {i : Nat}
    (outside : ¬(start ≤ i ∧ i < start + data.length)) :
    (b.overwrite start data).bytes[i]? = b.bytes[i]? := by
  rw [getElem?_overwrite, dif_neg]
  omega

theorem slice_overwrite_of_apart {low : Nat} {data : List UInt8}
    (apart : start + count ≤ low ∨ low + data.length ≤ start) :
    (b.overwrite low data).slice start count = b.slice start count := by
  apply slice_congr
  intro k inside
  exact getElem?_overwrite_of_outside (by omega)

theorem slice_overwrite (offset : Nat) (data : List UInt8)
    (whole : start + count ≤ b.size) (inside : offset + data.length ≤ count) :
    (b.overwrite (start + offset) data).slice start count =
      (b.slice start count).take offset ++ data ++
        (b.slice start count).drop (offset + data.length) := by
  have length := length_slice whole
  have taken : ((b.slice start count).take offset).length = offset := by
    rw [List.length_take, length]
    omega
  apply List.ext_getElem?
  intro k
  rw [getElem?_slice, getElem?_overwrite, List.append_assoc, List.getElem?_append,
    List.getElem?_append, taken]
  by_cases before : k < offset
  · rw [if_pos (by omega), dif_neg (by omega), if_pos before,
      List.getElem?_take_of_lt before, getElem?_slice, if_pos (by omega)]
  · rw [if_neg before]
    by_cases within : k - offset < data.length
    · have there : start + k < b.bytes.size := Nat.lt_of_lt_of_le (by omega) whole
      have place : start + k - (start + offset) = k - offset := by omega
      rw [if_pos (by omega), dif_pos (by omega), if_pos within,
        Array.getElem?_eq_getElem there, Option.map_some,
        List.getElem?_eq_getElem within]
      simp only [place]
    · have place : offset + data.length + (k - offset - data.length) = k := by omega
      rw [dif_neg (by omega), if_neg within, List.getElem?_drop, getElem?_slice, place]

end BlockPool.Buffer
