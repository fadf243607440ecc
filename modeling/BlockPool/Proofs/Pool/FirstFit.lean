import BlockPool.Proofs.Pool.Freeing

/-!
# Requests take the first block that fits

A request for room cuts the first free block that is large enough in two and
leaves every other block where it was.  The bytes outside the part that is
taken stay as they were, and so does what every other handle names.
-/

namespace BlockPool

def Block.cut (keepEmpty : Bool) (size : Nat) (b : Block) : List Block :=
  ⟨b.offset, size, false⟩ ::
    if size < b.size ∨ keepEmpty = true then
      [⟨b.offset + size, b.size - size, true⟩]
    else
      []

theorem Buffer.getElem?_paint (b : Buffer) (pattern : Option UInt8) (start count i : Nat) :
    (b.paint pattern start count).bytes[i]? =
      if start ≤ i ∧ i < start + count then
        b.bytes[i]?.map fun byte => pattern.getD byte
      else
        b.bytes[i]? := by
  cases pattern with
  | none => simp
  | some byte => exact getElem?_fill b start count i byte

namespace Layout

theorem map_claimed (keepEmpty : Bool) (new size : Nat) (cell : Cell) :
    (claimed keepEmpty new size cell).map Prod.snd = cell.2.cut keepEmpty size := by
  have rest : (0 < cell.2.size - size || keepEmpty) = true ↔
      size < cell.2.size ∨ keepEmpty = true := by
    simp only [Bool.or_eq_true, decide_eq_true_eq, Nat.sub_pos_iff_lt]
  simp only [claimed, Block.cut, rest]
  split <;> rfl

theorem not_fits {size : Nat} {b : Block} (h : ¬(b.free = true ∧ size ≤ b.size)) :
    fits size b = false :=
  Bool.eq_false_iff.mpr (mt fits_iff.mp h)

end Layout

namespace Heap

open Layout

variable {heap : Heap} {cells before after : List Cell} {i size : Nat} {b : Block}

theorem Sound.blocks_placed (h : heap.Sound (before ++ (i, b) :: after))
    (fit : fits size b = true) :
    (heap.placed i size).layout.blocks =
      before.map Prod.snd ++ b.cut heap.config.recordEmptyRemainder size ++
        after.map Prod.snd := by
  rw [placed, layout_count, (h.claimAt fit).chains.blocks_eq, List.map_append,
    List.map_append, map_claimed]

theorem Sound.getElem?_placed (h : heap.Sound cells) (member : (i, b) ∈ cells)
    (size k : Nat) :
    (heap.placed i size).buffer.bytes[k]? =
      if b.offset ≤ k ∧ k < b.offset + size then
        heap.buffer.bytes[k]?.map fun byte => heap.config.allocPattern.getD byte
      else
        heap.buffer.bytes[k]? := by
  rw [placed, buffer_count, h.buffer_claimAt member, Buffer.getElem?_paint]

theorem Sound.range?_placed_of_some (h : heap.Sound cells) (member : (i, b) ∈ cells)
    (fit : fits size b = true) {handle : Handle} {c : Block}
    (named : heap.range? handle = some c) :
    (heap.placed i size).range? handle = some c := by
  rw [placed, range?_count, h.range?_claimAt member fit, if_neg, named]
  rintro ⟨own, _⟩
  rw [h.range?_eq_none member (fits_iff.mp fit).1 own] at named
  cases named

end Heap

namespace Pool

open Heap Layout

variable {config : Config} {p : Pool} {heap : Heap} {cells : List Cell} {size : Nat}

/-- The request takes the first `size` bytes of the block `b` and makes nothing else different. -/
structure Takes (p : Pool) (size : Nat) (before : List Block) (b : Block)
    (after : List Block) (handle : Handle) (q : Pool) : Prop where
  result : p.allocate size = (.ok handle, q)
  blocks : q.blocks = .ok (before ++ b.cut p.config.recordEmptyRemainder size ++ after)
  named : q.slotCount < UInt32.size → q.block handle = .ok ⟨b.offset, size, false⟩
  kept : ∀ other c, p.block other = .ok c → q.block other = .ok c
  bytes : ∃ old new, p.buffer = .ok old ∧ q.buffer = .ok new ∧ ∀ k, new.bytes[k]? =
    if b.offset ≤ k ∧ k < b.offset + size then
      old.bytes[k]?.map fun byte => p.config.allocPattern.getD byte
    else
      old.bytes[k]?

structure FirstFit (p : Pool) (size : Nat) : Prop where
  accepts : (∃ handle, (p.allocate size).1 = .ok handle) ↔
    ∃ blocks, p.blocks = .ok blocks ∧ ∃ b ∈ blocks, b.free = true ∧ size ≤ b.size
  takes : ∀ before b after, p.blocks = .ok (before ++ b :: after) →
    b.free = true → size ≤ b.size → (∀ c ∈ before, ¬(c.free = true ∧ size ≤ c.size)) →
      ∃ handle q, p.Takes size before b after handle q

theorem takes_ready (same : heap.config = config) {front back : List Cell} {i : Nat} {b : Block}
    (h : heap.Sound (front ++ (i, b) :: back)) (fit : fits size b = true)
    (unfit : ∀ c ∈ front.map Prod.snd, fits size c = false) :
    (⟨config, .ready heap⟩ : Pool).Takes size (front.map Prod.snd) b (back.map Prod.snd)
      (heap.layout.handleOf i) ⟨config, .ready (heap.placed i size)⟩ := by
  subst same
  have member : (i, b) ∈ front ++ (i, b) :: back := by simp
  have found := h.chains.firstFit?_of_split fit unfit
  have given := h.allocate_of_fit member fit found
  refine ⟨?_, ?_, fun slots => ?_, fun other c live => ?_, ?_⟩
  · rw [allocate, onHeap_of_ok _ rfl, given]
  · exact congrArg Except.ok (h.blocks_placed fit)
  · rw [block_ready, h.range?_placed member fit (h.small_of_placed member slots), if_pos rfl]
  · rw [block_ready, h.range?_placed_of_some member fit (range?_of_block live)]
  · exact ⟨_, _, rfl, rfl, h.getElem?_placed member size⟩

theorem first_fit_ready (same : heap.config = config) (h : heap.Sound cells) (size : Nat) :
    (⟨config, .ready heap⟩ : Pool).FirstFit size where
  accepts := by
    rw [allocate, onHeap_of_ok _ rfl, h.allocates_iff]
    constructor
    · exact fun room => ⟨_, rfl, room⟩
    · rintro ⟨_, ⟨⟩, room⟩
      exact room
  takes before b after listed free room unfit := by
    have split : cells.map Prod.snd = before ++ b :: after := by
      rw [← h.chains.blocks_eq]
      exact Except.ok.inj listed
    obtain ⟨front, rest, rfl, rfl, others⟩ := List.map_eq_append_iff.mp split
    obtain ⟨⟨i, b⟩, back, rfl, rfl, rfl⟩ := List.map_eq_cons_iff.mp others
    exact ⟨_, _, takes_ready same h (fits_iff.mpr ⟨free, room⟩)
      fun c member => not_fits (unfit c member)⟩

/-- In whatever state a pool is ready, a request cuts the first free block that holds it. -/
theorem run_first_fit {requests : List Request}
    (ready : ((⟨config, .uninitialized⟩ : Pool).run requests).2.isReady = true) (size : Nat) :
    ((⟨config, .uninitialized⟩ : Pool).run requests).2.FirstFit size := by
  have fresh : (⟨config, .uninitialized⟩ : Pool).Sound := nofun
  have sound := fresh.run requests
  generalize ((⟨config, .uninitialized⟩ : Pool).run requests).2 = p at ready sound ⊢
  obtain ⟨config', phase⟩ := p
  cases phase with
  | ready heap =>
      obtain ⟨same, cells, h⟩ := sound heap rfl
      exact first_fit_ready same h size
  | uninitialized => cases ready
  | closed => cases ready

theorem run_first_fit_exact :
    ((⟨.debug, .uninitialized⟩ : Pool).run [.setUp 16, .allocate 2, .allocate 4, .allocate 6,
      .deallocate ⟨0, 0⟩, .deallocate ⟨2, 0⟩, .allocate 0]).2.FirstFit 10 :=
  run_first_fit (by decide +kernel) 10

end Pool

end BlockPool
