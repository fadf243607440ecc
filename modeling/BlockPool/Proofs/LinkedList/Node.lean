import BlockPool.LinkedList.Node

/-!
# Nodes read back

The bytes of a node decode to that node, unless its link is the one handle
whose word stands for no handle.  A slot with this handle is the last one that
a handle can name at all.
-/

namespace BlockPool

theorem Handle.pack_ne_noneWord {h : Handle} (small : h.index.toNat + 1 < UInt32.size) :
    h.pack ≠ noneWord := by
  intro same
  have word := toNat_pack h
  have bound := h.generation.toNat_lt_size
  rw [same] at word
  have none : noneWord.toNat = UInt64.size - 1 := rfl
  simp only [UInt32.size, UInt64.size] at *
  omega

namespace Node

def Linkable (n : Node) : Prop :=
  ∀ node, n.next = some node → node.handle.pack ≠ Handle.noneWord

theorem unpack_packOptional {next : Option NodeRef}
    (linkable : ∀ node, next = some node → node.handle.pack ≠ Handle.noneWord) :
    (Handle.unpack (Handle.packOptional (next.map NodeRef.handle))).map NodeRef.mk =
      next := by
  cases next with
  | none => simp [Handle.packOptional]
  | some node =>
      have word := linkable node rfl
      simp [Handle.packOptional, Handle.unpack_pack, word]

theorem take_encode (n : Node) :
    n.encode.take 2 = LittleEndian.encode 2 n.value.toNat := by
  simp [encode]

theorem drop_encode (n : Node) :
    (n.encode.drop 8).take 8 =
      LittleEndian.encode 8 (Handle.packOptional (n.next.map NodeRef.handle)).toNat := by
  simp [encode, List.drop_append, List.take_of_length_le]

theorem decode_encode {n : Node} (linkable : n.Linkable) :
    decode n.encode = some n := by
  have value : n.value.toNat % Nat.pow 256 2 = n.value.toNat :=
    Nat.mod_eq_of_lt n.value.toNat_lt
  have link := (Handle.packOptional (n.next.map NodeRef.handle)).toNat_lt
  have word : (Handle.packOptional (n.next.map NodeRef.handle)).toNat % Nat.pow 256 8 =
      (Handle.packOptional (n.next.map NodeRef.handle)).toNat :=
    Nat.mod_eq_of_lt link
  rw [decode, if_neg (by simp)]
  simp only [take_encode, drop_encode, LittleEndian.decode_encode, value, word,
    UInt16.ofNat_toNat, UInt64.ofNat_toNat, unpack_packOptional linkable]

/-- What stands behind the first sixteen bytes is not part of a node. -/
theorem decode_take (bytes : List UInt8) : decode (bytes.take byteSize) = decode bytes := by
  have short : (bytes.take byteSize).length < byteSize ↔ bytes.length < byteSize := by
    rw [List.length_take]
    omega
  have link : ((bytes.take byteSize).drop 8).take 8 = (bytes.drop 8).take 8 := by
    rw [List.drop_take, List.take_take]
    rfl
  have value : (bytes.take byteSize).take 2 = bytes.take 2 := by
    rw [List.take_take]
    rfl
  simp only [decode, short, link, value]

end Node

end BlockPool
