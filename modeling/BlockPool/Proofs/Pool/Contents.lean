import BlockPool.Proofs.Memory.Buffer
import BlockPool.Proofs.Pool.Run

/-!
# What the blocks of a heap hold

Read through its handles a heap is a map from handles to byte strings.  The
ranges of the handles in use share no address, so each operation changes this
map at the handles that it is about and nowhere else.
-/

namespace BlockPool

abbrev Contents := Handle → Option (List UInt8)

namespace Contents

def empty : Contents := fun _ => none

def set (m : Contents) (handle : Handle) (bytes : Option (List UInt8)) : Contents :=
  fun other => if other = handle then bytes else m other

@[simp] theorem set_self (m : Contents) (handle : Handle)
    (bytes : Option (List UInt8)) : m.set handle bytes handle = bytes :=
  if_pos rfl

theorem set_of_ne (m : Contents) {handle other : Handle}
    (bytes : Option (List UInt8)) (distinct : other ≠ handle) :
    m.set handle bytes other = m other :=
  if_neg distinct

theorem set_set (m : Contents) (handle : Handle) (bytes bytes' : Option (List UInt8)) :
    (m.set handle bytes).set handle bytes' = m.set handle bytes' := by
  funext other
  simp only [set]
  split <;> rfl

/-- Bytes of a range that was claimed and not written to yet. -/
def Fresh (config : Config) (count : Nat) (bytes : List UInt8) : Prop :=
  bytes.length = count ∧
    ∀ byte, config.allocPattern = some byte → bytes = List.replicate count byte

def patch (bytes : List UInt8) (offset : Nat) (data : List UInt8) : List UInt8 :=
  bytes.take offset ++ data ++ bytes.drop (offset + data.length)

end Contents

namespace Heap

open Layout

variable {heap : Heap} {cells : List Cell} {handle : Handle} {i target size : Nat}
  {b c : Block}

def contents (heap : Heap) : Contents := fun handle =>
  (heap.range? handle).map fun b => heap.buffer.slice b.offset b.size

theorem contents_eq_none_iff :
    heap.contents handle = none ↔ heap.range? handle = none := by
  simp [contents]

theorem contents_of_range? (named : heap.range? handle = some b) :
    heap.contents handle = some (heap.buffer.slice b.offset b.size) := by
  rw [contents, named]
  rfl

theorem read_of_range? (named : heap.range? handle = some b) :
    heap.read handle = .ok (heap.buffer.slice b.offset b.size) := by
  rw [read, block_eq, named]
  rfl

theorem read_eq (heap : Heap) (handle : Handle) :
    heap.read handle =
      match heap.contents handle with
      | none => .error (.notFound handle)
      | some bytes => .ok bytes := by
  rw [read, block_eq, contents]
  cases heap.range? handle <;> rfl

theorem exists_range?_of_isSome (live : (heap.contents handle).isSome) :
    ∃ b, heap.range? handle = some b := by
  rw [contents, Option.isSome_map] at live
  exact Option.isSome_iff_exists.mp live

theorem contents_congr {heap' : Heap} (layout : heap'.layout = heap.layout)
    (buffer : heap'.buffer = heap.buffer) : heap'.contents = heap.contents := by
  funext handle
  rw [contents, contents, range?_congr layout, buffer]

@[simp] theorem contents_countFailure (heap : Heap) :
    heap.countFailure.contents = heap.contents :=
  contents_congr (layout_count ..) (buffer_count ..)

/-! ## Where the ranges lie -/

theorem Sound.inside (h : heap.Sound cells) (member : (i, b) ∈ cells) :
    b.offset + b.size ≤ heap.buffer.size :=
  (h.covers.bounds (List.mem_map_of_mem member)).2

theorem Sound.range?_inside (h : heap.Sound cells)
    (named : heap.range? handle = some b) : b.offset + b.size ≤ heap.buffer.size :=
  h.inside (mem_usedCells.mp (h.range?_eq_some_iff.mp named).1).1

theorem Sound.length_contents (h : heap.Sound cells)
    (named : heap.range? handle = some b) :
    (heap.buffer.slice b.offset b.size).length = b.size :=
  Buffer.length_slice (h.range?_inside named)

theorem Sound.apart (h : heap.Sound cells) (named : heap.range? handle = some b)
    (member : (i, c) ∈ cells) (distinct : handle.index.toNat ≠ i) : b.Apart c :=
  h.covers.apart (mem_usedCells.mp (h.range?_eq_some_iff.mp named).1).1 member distinct

theorem Sound.apart_of_fit (h : heap.Sound cells) (named : heap.range? handle = some b)
    (member : (i, c) ∈ cells) (fit : fits size c = true) :
    b.Apart ⟨c.offset, size, false⟩ := by
  obtain ⟨free, room⟩ := fits_iff.mp fit
  have distinct : handle.index.toNat ≠ i := by
    intro own
    simp [h.range?_eq_none member free own] at named
  have apart := h.apart named member distinct
  unfold Block.Apart at apart ⊢
  simp only
  omega

theorem Sound.apart_of_ne (h : heap.Sound cells) (named : heap.range? handle = some b)
    {other : Handle} (also : heap.range? other = some c) (distinct : other ≠ handle) :
    c.Apart b := by
  have member := (mem_usedCells.mp (h.range?_eq_some_iff.mp named).1).1
  exact h.apart also member fun same => distinct (h.eq_of_index named also same)

/-! ## What happens to the buffer -/

theorem buffer_paint (heap : Heap) (pattern : Option UInt8) (start length : Nat) :
    (heap.paint pattern start length).buffer =
      heap.buffer.paint pattern start length := by
  cases pattern <;> rfl

theorem Sound.buffer_claimAt (h : heap.Sound cells) (member : (i, b) ∈ cells)
    (size : Nat) :
    (heap.claimAt i size).buffer =
      heap.buffer.paint heap.config.allocPattern b.offset size := by
  obtain ⟨prev, next, found⟩ := h.chains.get?_of_mem member
  rw [claimAt_eq found, buffer_paint, buffer_count]
  rfl

theorem Sound.slice_claimAt (h : heap.Sound cells) (named : heap.range? handle = some b)
    (member : (target, c) ∈ cells) (fit : fits size c = true) :
    (heap.claimAt target size).buffer.slice b.offset b.size =
      heap.buffer.slice b.offset b.size := by
  rw [h.buffer_claimAt member]
  exact Buffer.slice_paint_of_apart _ (h.apart_of_fit named member fit)

theorem Sound.buffer_release (h : heap.Sound cells) (member : (i, b) ∈ cells) :
    (heap.release i).2.buffer =
      heap.buffer.paint heap.config.deallocPattern b.offset b.size := by
  obtain ⟨prev, next, found⟩ := h.chains.get?_of_mem member
  rw [release_eq found, buffer_paint]
  rfl

/-! ## What happens to the contents -/

theorem Sound.fresh (h : heap.Sound cells) (member : (i, b) ∈ cells)
    (fit : fits size b = true) :
    Contents.Fresh heap.config size
      ((heap.buffer.paint heap.config.allocPattern b.offset size).slice
        b.offset size) := by
  have inside := h.inside member
  have room := (fits_iff.mp fit).2
  have within : b.offset + size ≤ heap.buffer.size := by omega
  constructor
  · apply Buffer.length_slice
    rwa [Buffer.size_paint]
  · intro byte pattern
    rw [pattern]
    exact Buffer.slice_fill within byte

theorem Sound.contents_placed (h : heap.Sound cells) (member : (i, b) ∈ cells)
    (fit : fits size b = true) (small : i < UInt32.size) :
    ∃ bytes, Contents.Fresh heap.config size bytes ∧
      (heap.placed i size).contents =
        heap.contents.set (heap.layout.handleOf i) (some bytes) := by
  refine ⟨_, h.fresh member fit, ?_⟩
  have buffer : (heap.placed i size).buffer =
      heap.buffer.paint heap.config.allocPattern b.offset size := by
    rw [placed, buffer_count, h.buffer_claimAt member]
  funext other
  rw [contents, h.range?_placed member fit small, buffer, Contents.set]
  split
  · rfl
  · rw [contents]
    cases named : heap.range? other with
    | none => rfl
    | some d =>
        have apart := h.apart_of_fit named member fit
        exact congrArg some (Buffer.slice_paint_of_apart _ apart)

theorem Sound.contents_freed (h : heap.Sound cells) (named : heap.range? handle = some b) :
    (heap.freed handle.index.toNat).contents = heap.contents.set handle none := by
  have member := (mem_usedCells.mp (h.range?_eq_some_iff.mp named).1).1
  have buffer : (heap.freed handle.index.toNat).buffer =
      heap.buffer.paint heap.config.deallocPattern b.offset b.size := by
    rw [freed, buffer_count, h.buffer_release member]
  funext other
  rw [contents, h.range?_freed named, buffer, Contents.set]
  split
  · rfl
  · next distinct =>
      rw [contents]
      cases also : heap.range? other with
      | none => rfl
      | some d =>
          have apart := h.apart_of_ne named also distinct
          exact congrArg some (Buffer.slice_paint_of_apart _ apart)

theorem Sound.contents_written (h : heap.Sound cells)
    (named : heap.range? handle = some b) {offset : Nat} {data : List UInt8}
    (inside : offset + data.length ≤ b.size) :
    (heap.written (b.offset + offset) data).contents =
      heap.contents.set handle
        (some (Contents.patch (heap.buffer.slice b.offset b.size) offset data)) := by
  have whole := h.range?_inside named
  funext other
  rw [contents, range?_congr (show (heap.written _ data).layout = heap.layout from rfl),
    Contents.set]
  by_cases same : other = handle
  · rw [if_pos same, same, named]
    exact congrArg some (Buffer.slice_overwrite offset data whole inside)
  · rw [if_neg same, contents]
    cases also : heap.range? other with
    | none => rfl
    | some d =>
        have apart := h.apart_of_ne named also same
        refine congrArg some (Buffer.slice_overwrite_of_apart ?_)
        unfold Block.Apart at apart
        omega

theorem Sound.buffer_moved (h : heap.Sound cells)
    (named : heap.range? handle = some b) (member : (target, c) ∈ cells)
    (fit : fits size c = true) :
    (heap.moved handle.index.toNat b (target, c) size).buffer =
      ((heap.buffer.paint heap.config.allocPattern c.offset size).overwrite c.offset
        (heap.buffer.slice b.offset b.size)).paint
          heap.config.deallocPattern b.offset b.size := by
  obtain ⟨_, cells', copied, used⟩ := h.exists_copied named member fit
  have copy : (heap.copied b (target, c) size).buffer =
      (heap.claimAt target size).buffer.overwrite c.offset
        ((heap.claimAt target size).buffer.slice b.offset b.size) := rfl
  rw [moved, buffer_count, copied.buffer_release (mem_usedCells.mp used).1, config_copied,
    copy, h.slice_claimAt named member fit, h.buffer_claimAt member]

theorem Sound.fresh_rest (h : heap.Sound cells) (member : (target, c) ∈ cells)
    (fit : fits size c = true) (count : Nat) :
    Contents.Fresh heap.config (size - count)
      (((heap.buffer.paint heap.config.allocPattern c.offset size).slice
        c.offset size).drop count) := by
  obtain ⟨length, painted⟩ := h.fresh member fit
  constructor
  · rw [List.length_drop, length]
  · intro byte pattern
    rw [painted byte pattern, List.drop_replicate]

theorem Sound.contents_moved (h : heap.Sound cells)
    (named : heap.range? handle = some b) (larger : b.size < size)
    (member : (target, c) ∈ cells) (fit : fits size c = true)
    (small : target < UInt32.size) :
    ∃ rest, Contents.Fresh heap.config (size - b.size) rest ∧
      (heap.moved handle.index.toNat b (target, c) size).contents =
        (heap.contents.set handle none).set (heap.layout.handleOf target)
          (some (heap.buffer.slice b.offset b.size ++ rest)) := by
  refine ⟨_, h.fresh_rest member fit b.size, ?_⟩
  have length := h.length_contents named
  have apart := h.apart_of_fit named member fit
  have room := (fits_iff.mp fit).2
  have inside := h.inside member
  unfold Block.Apart at apart
  funext other
  rw [contents, h.range?_moved named member fit small, h.buffer_moved named member fit,
    Contents.set, Contents.set]
  by_cases new : other = heap.layout.handleOf target
  · have whole : c.offset + size ≤
        (heap.buffer.paint heap.config.allocPattern c.offset size).size := by
      rw [Buffer.size_paint]
      exact Nat.le_trans (Nat.add_le_add_left room _) inside
    have filled := Buffer.slice_overwrite 0 (heap.buffer.slice b.offset b.size) whole
      (by omega)
    rw [Nat.add_zero, Nat.zero_add, List.take_zero, List.nil_append, length] at filled
    rw [if_pos new, if_pos new, Option.map_some, Buffer.slice_paint_of_apart _ apart.symm,
      filled]
  · rw [if_neg new, if_neg new]
    by_cases old : other = handle
    · rw [if_pos old, if_pos old]
      rfl
    · rw [if_neg old, if_neg old, contents]
      cases also : heap.range? other with
      | none => rfl
      | some d =>
          have source := h.apart_of_ne named also old
          have claimed := h.apart_of_fit also member fit
          unfold Block.Apart at claimed
          rw [Option.map_some, Option.map_some, Buffer.slice_paint_of_apart _ source,
            Buffer.slice_overwrite_of_apart, Buffer.slice_paint_of_apart _ claimed]
          simp only at claimed
          omega

end Heap

end BlockPool
