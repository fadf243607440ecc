import BlockPool.Memory.Handle
import BlockPool.Memory.LittleEndian

/-!
# List nodes

A node is sixteen bytes: its value in the first two, six bytes without
meaning, and the packed handle of the next node in the last eight, both
numbers little-endian.
-/

namespace BlockPool

structure NodeRef where
  handle : Handle
  deriving DecidableEq, Repr

def NodeRef.text (node : NodeRef) : String := s!"node {node.handle.text}"

structure Node where
  value : UInt16
  next : Option NodeRef
  deriving DecidableEq, Repr

namespace Node

def byteSize : Nat := 16

def encode (n : Node) : List UInt8 :=
  let link := Handle.packOptional (n.next.map NodeRef.handle)
  LittleEndian.encode 2 n.value.toNat ++ List.replicate 6 0 ++
    LittleEndian.encode 8 link.toNat

def decode (bytes : List UInt8) : Option Node :=
  if bytes.length < byteSize then
    none
  else
    let value := LittleEndian.decode (bytes.take 2)
    let link := LittleEndian.decode ((bytes.drop 8).take 8)
    some
      { value := UInt16.ofNat value
        next := (Handle.unpack (UInt64.ofNat link)).map NodeRef.mk }

@[simp] theorem length_encode (n : Node) : n.encode.length = byteSize := by
  simp [encode, byteSize]

theorem decode_eq_none_iff (bytes : List UInt8) :
    decode bytes = none ↔ bytes.length < byteSize := by
  simp [decode]

end Node

end BlockPool
