import BlockPool.Proofs.LinkedList.Node
import BlockPool.Proofs.Memory.Handle

/-!
# What a node keeps of its bytes

Nodes and byte strings of their size translate into each other: a node reads
back as it was written, and sixteen bytes are written back as they were read,
except for the six without meaning.  The link in them is a word, and words
translate into handles in the same way.
-/

namespace BlockPool.Node

variable {bytes others : List UInt8}

theorem linkable_of_ne {n : Node} (other : n.next ≠ some ⟨Handle.last⟩) : n.Linkable := by
  intro node next word
  rw [Handle.pack_eq_noneWord_iff] at word
  apply other
  rw [next, ← word]

/-- A link to the last handle is taken for the end of a list. -/
theorem decode_encode_last (value : UInt16) :
    decode (encode ⟨value, some ⟨Handle.last⟩⟩) = some ⟨value, none⟩ := by
  have same : encode ⟨value, some ⟨Handle.last⟩⟩ = encode ⟨value, none⟩ := by
    have word : Handle.packOptional (some Handle.last) = Handle.packOptional none :=
      Handle.pack_last
    simp only [encode, Option.map_some, Option.map_none, word]
  rw [same]
  exact decode_encode (linkable_of_ne (Option.some_ne_none _).symm)

theorem decode_of_le (whole : byteSize ≤ bytes.length) :
    decode bytes = some
      { value := UInt16.ofNat (LittleEndian.decode (bytes.take 2))
        next := (Handle.unpack (UInt64.ofNat
          (LittleEndian.decode ((bytes.drop 8).take 8)))).map NodeRef.mk } :=
  if_neg (Nat.not_lt.mpr whole)

theorem decode_congr (whole : byteSize ≤ bytes.length) (whole' : byteSize ≤ others.length)
    (value : bytes.take 2 = others.take 2)
    (link : (bytes.drop 8).take 8 = (others.drop 8).take 8) : decode bytes = decode others := by
  rw [decode_of_le whole, decode_of_le whole', value, link]

theorem encode_value (exact : bytes.length = 2) :
    LittleEndian.encode 2 (UInt16.ofNat (LittleEndian.decode bytes)).toNat = bytes := by
  rw [UInt16.toNat_ofNat']
  exact LittleEndian.encode_decode_mod exact

theorem encode_link (exact : bytes.length = 8) :
    LittleEndian.encode 8 (UInt64.ofNat (LittleEndian.decode bytes)).toNat = bytes := by
  rw [UInt64.toNat_ofNat']
  exact LittleEndian.encode_decode_mod exact

theorem encode_of_decode {n : Node} (exact : bytes.length = byteSize)
    (read : decode bytes = some n) :
    n.encode = bytes.take 2 ++ List.replicate 6 0 ++ bytes.drop 8 := by
  have value : (bytes.take 2).length = 2 := by
    rw [List.length_take, exact]
    rfl
  have link : (bytes.drop 8).length = 8 := by
    rw [List.length_drop, exact]
    rfl
  have whole : (bytes.drop 8).take 8 = bytes.drop 8 := List.take_of_length_le (by omega)
  rw [decode_of_le (Nat.le_of_eq exact.symm), Option.some.injEq] at read
  subst read
  have handle (word : UInt64) :
      ((Handle.unpack word).map NodeRef.mk).map NodeRef.handle = Handle.unpack word := by
    cases Handle.unpack word <;> rfl
  simp only [encode, handle, Handle.packOptional_unpack, whole, encode_value value,
    encode_link link]

/-- Nodes are read and written without loss, up to the last handle and to the bytes
without meaning; so are the words of links, and these are in the order of their handles. -/
theorem reads_back :
    (∀ n : Node, n.next ≠ some ⟨Handle.last⟩ → decode n.encode = some n) ∧
    (∀ value, decode (encode ⟨value, some ⟨Handle.last⟩⟩) = some ⟨value, none⟩) ∧
    (∀ bytes, decode bytes = none ↔ bytes.length < 16) ∧
    (∀ bytes others : List UInt8, 16 ≤ bytes.length → 16 ≤ others.length →
      bytes.take 2 = others.take 2 → (bytes.drop 8).take 8 = (others.drop 8).take 8 →
        decode bytes = decode others) ∧
    (∀ bytes, bytes.length = 16 → ∃ n, decode bytes = some n ∧
      n.encode = bytes.take 2 ++ List.replicate 6 0 ++ bytes.drop 8) ∧
    (∀ word, word ≠ Handle.noneWord →
      ∃ h, h ≠ Handle.last ∧ Handle.unpack word = some h ∧ h.pack = word) ∧
    (∀ h, h ≠ Handle.last → h.pack ≠ Handle.noneWord ∧ Handle.unpack h.pack = some h) ∧
    Handle.unpack Handle.noneWord = none ∧ Handle.last.pack = Handle.noneWord ∧
    (∀ h k : Handle, h.pack < k.pack ↔ h < k) ∧
    (∀ h k : Handle, compare h.pack k.pack = compare h k) := by
  refine ⟨fun n other => decode_encode (linkable_of_ne other), decode_encode_last,
    decode_eq_none_iff, fun bytes others => decode_congr, ?_, ?_, ?_,
    Handle.unpack_noneWord, Handle.pack_last, fun h k => Handle.pack_lt_pack_iff,
    Handle.compare_pack⟩
  · intro bytes exact
    exact ⟨_, decode_of_le (Nat.le_of_eq exact.symm),
      encode_of_decode exact (decode_of_le (Nat.le_of_eq exact.symm))⟩
  · intro word other
    obtain ⟨h, read⟩ := Option.ne_none_iff_exists'.mp (mt Handle.unpack_eq_none_iff.mp other)
    obtain ⟨notLast, same⟩ := Handle.unpack_eq_some_iff.mp read
    exact ⟨h, notLast, read, same⟩
  · intro h other
    exact ⟨mt Handle.pack_eq_noneWord_iff.mp other, Handle.unpack_pack_of_ne other⟩

theorem reads_back_linked :
    decode (encode ⟨0x1234, some ⟨⟨2, 5⟩⟩⟩) = some ⟨0x1234, some ⟨⟨2, 5⟩⟩⟩ ∧
    decode [0x34, 0x12, 1, 2, 3, 4, 5, 6, 5, 0, 0, 0, 2, 0, 0, 0] =
      decode [0x34, 0x12, 6, 5, 4, 3, 2, 1, 5, 0, 0, 0, 2, 0, 0, 0, 9] ∧
    (∃ n, decode [0x34, 0x12, 1, 2, 3, 4, 5, 6, 5, 0, 0, 0, 2, 0, 0, 0] = some n ∧
      n.encode = [0x34, 0x12, 0, 0, 0, 0, 0, 0, 5, 0, 0, 0, 2, 0, 0, 0]) ∧
    (∃ h, h ≠ Handle.last ∧ Handle.unpack 0x200000005 = some h ∧ h.pack = 0x200000005) ∧
    Handle.unpack (Handle.pack ⟨2, 5⟩) = some ⟨2, 5⟩ := by
  obtain ⟨written, _, _, part, cleared, words, handles, _⟩ := reads_back
  exact ⟨written _ (by decide), part _ _ (by decide) (by decide) rfl rfl, cleared _ rfl,
    words _ (by decide), (handles _ (by decide)).2⟩

end BlockPool.Node
