import BlockPool.Proofs.Pool.Failure

/-!
# Scrubbed bytes

Where freed blocks are filled with a byte, every place outside the blocks in
use holds zero or that byte.  A claim takes such places away, a release gives
back only places that it has filled, and everything else is written inside
blocks in use.  So no block shows what another one held before it.
-/

namespace BlockPool

def Block.Contains (b : Block) (k : Nat) : Prop :=
  b.offset ≤ k ∧ k < b.offset + b.size

theorem Block.Apart.not_contains {b c : Block} (apart : b.Apart c) {k : Nat}
    (inside : b.Contains k) : ¬ c.Contains k := by
  unfold Block.Apart at apart
  unfold Block.Contains at inside ⊢
  omega

namespace Layout

def Idle (cells : List Cell) (k : Nat) : Prop :=
  ∀ cell ∈ usedCells cells, ¬ cell.2.Contains k

variable {cells before after : List Cell} {cell : Cell} {i k size : Nat} {b : Block}

theorem idle_claimed {keepEmpty : Bool} {new : Nat} (free : cell.2.free = true)
    (idle : Idle (before ++ claimed keepEmpty new size cell ++ after) k) :
    Idle (before ++ cell :: after) k ∧ ¬ Block.Contains ⟨cell.2.offset, size, false⟩ k := by
  simp only [Idle, usedCells_append, usedCells_claimed, usedCells_cons, free,
    List.mem_append, List.mem_singleton] at idle ⊢
  refine ⟨fun other member => ?_, idle _ (.inl (.inr rfl))⟩
  rcases member with there | there
  · exact idle other (.inl (.inl there))
  · exact idle other (.inr there)

theorem idle_released {policy : Coalescing}
    (idle : Idle (released policy before i b after) k) (outside : ¬ b.Contains k) :
    Idle (before ++ (i, b) :: after) k := by
  simp only [Idle, usedCells_released, List.mem_append] at idle
  intro other member
  rw [usedCells_append, usedCells_cons, List.mem_append] at member
  rcases member with there | there
  · exact idle other (.inl there)
  · split at there
    · exact idle other (.inr there)
    · rcases List.mem_cons.mp there with rfl | there
      · exact outside
      · exact idle other (.inr there)

end Layout

/-- Nothing but what a buffer starts with and what freed blocks are filled with. -/
def Scrubbed (fill byte : UInt8) : Prop := byte = 0 ∨ byte = fill

namespace Heap

open Layout

variable {heap : Heap} {cells cells' : List Cell} {handle : Handle} {i k target size : Nat}
  {b c : Block} {fill : UInt8}

def Clean (heap : Heap) (fill : UInt8) (cells : List Cell) : Prop :=
  ∀ k byte, heap.buffer.bytes[k]? = some byte → Idle cells k → Scrubbed fill byte

theorem Clean.congr {heap' : Heap} (clean : heap.Clean fill cells)
    (buffer : heap'.buffer = heap.buffer) : heap'.Clean fill cells := by
  intro k byte found
  exact clean k byte (buffer ▸ found)

theorem Clean.overwrite (clean : heap.Clean fill cells) (used : (i, b) ∈ usedCells cells)
    {start : Nat} {data : List UInt8} (low : b.offset ≤ start)
    (high : start + data.length ≤ b.offset + b.size) :
    (heap.written start data).Clean fill cells := by
  intro k byte found idle
  have outside : ¬(start ≤ k ∧ k < start + data.length) := by
    have apart := idle (i, b) used
    simp only [Block.Contains] at apart
    omega
  have same : (heap.buffer.overwrite start data).bytes[k]? = heap.buffer.bytes[k]? :=
    Buffer.getElem?_overwrite_of_outside outside
  rw [written, same] at found
  exact clean k byte found idle

theorem Sound.clean_claimAt (h : heap.Sound cells) (member : (i, b) ∈ cells)
    (fit : fits size b = true) (clean : heap.Clean fill cells)
    (claimed : (heap.claimAt i size).Sound cells') :
    (heap.claimAt i size).Clean fill cells' := by
  have buffer := h.buffer_claimAt member size
  obtain ⟨before, after, rfl⟩ := List.append_of_mem member
  obtain rfl := claimed.chains.unique (h.claimAt fit).chains
  intro k byte found idle
  obtain ⟨idle, outside⟩ := idle_claimed (fits_iff.mp fit).1 idle
  rw [buffer, Buffer.getElem?_paint_of_outside _ outside] at found
  exact clean k byte found idle

theorem Sound.clean_release (h : heap.Sound cells) (used : (i, b) ∈ usedCells cells)
    (pattern : heap.config.deallocPattern = some fill) (clean : heap.Clean fill cells)
    (released : (heap.release i).2.Sound cells') :
    (heap.release i).2.Clean fill cells' := by
  obtain ⟨member, inUse⟩ := mem_usedCells.mp used
  have buffer := h.buffer_release member
  obtain ⟨before, after, rfl⟩ := List.append_of_mem member
  obtain rfl := released.chains.unique (h.release inUse).chains
  intro k byte found idle
  rw [buffer] at found
  by_cases inside : b.offset ≤ k ∧ k < b.offset + b.size
  · rw [pattern, Buffer.paint, Buffer.getElem?_fill, if_pos inside] at found
    obtain ⟨_, _, rfl⟩ := Option.map_eq_some_iff.mp found
    exact .inr rfl
  · rw [Buffer.getElem?_paint_of_outside _ inside] at found
    exact clean k byte found (idle_released idle inside)

theorem Sound.clean_copied (h : heap.Sound cells) (named : heap.range? handle = some b)
    (larger : b.size < size) (member : (target, c) ∈ cells) (fit : fits size c = true)
    (clean : heap.Clean fill cells)
    (copied : (heap.copied b (target, c) size).Sound cells') :
    (heap.copied b (target, c) size).Clean fill cells' := by
  have claimed : (heap.claimAt target size).Sound cells' :=
    copied.congr rfl (size_copy ..).symm rfl
  have used := (h.claimAt_used member fit claimed).1
  have inside : b.offset + b.size ≤ (heap.claimAt target size).buffer.size := by
    have same : (heap.claimAt target size).buffer.size = heap.buffer.size :=
      size_claimAt ..
    rw [same]
    exact h.range?_inside named
  refine (h.clean_claimAt member fit clean claimed).overwrite used (Nat.le_refl _) ?_
  rw [Buffer.length_slice inside]
  simp only
  omega

theorem Sound.clean_moved (h : heap.Sound cells) (named : heap.range? handle = some b)
    (larger : b.size < size) (member : (target, c) ∈ cells) (fit : fits size c = true)
    (pattern : heap.config.deallocPattern = some fill) (clean : heap.Clean fill cells)
    (moved : (heap.moved handle.index.toNat b (target, c) size).Sound cells') :
    (heap.moved handle.index.toNat b (target, c) size).Clean fill cells' := by
  obtain ⟨_, cells₁, copied, used⟩ := h.exists_copied named member fit
  have released : ((heap.copied b (target, c) size).release handle.index.toNat).2.Sound
      cells' :=
    moved.congr (layout_count ..).symm (size_count ..).symm (used_count ..).symm
  have before := h.clean_copied named larger member fit clean copied
  have scrubbed : (heap.copied b (target, c) size).config.deallocPattern = some fill := by
    rw [config_copied, pattern]
  exact (copied.clean_release used scrubbed before released).congr
    (buffer_count ..)

theorem Sound.clean_serve (h : heap.Sound cells)
    (pattern : heap.config.deallocPattern = some fill) (clean : heap.Clean fill cells)
    (request : Pool.Request) :
    ∃ cells', (heap.serve request).Sound cells' ∧ (heap.serve request).Clean fill cells' := by
  have counted : heap.countFailure.Sound cells ∧ heap.countFailure.Clean fill cells :=
    ⟨h.congr (layout_count ..) (size_count ..) (used_count ..), clean.congr (buffer_count ..)⟩
  cases request with
  | allocate size =>
      rw [Heap.serve]
      cases h.allocation size with
      | noRoom _ result =>
          rw [result]
          exact ⟨cells, counted⟩
      | placed i b member fit _ result =>
          obtain ⟨cells', claimed⟩ := h.exists_claimAt member fit
          rw [result]
          exact ⟨cells', claimed.congr (layout_count ..) (size_count ..) (used_count ..),
            (h.clean_claimAt member fit clean claimed).congr (buffer_count ..)⟩
  | deallocate handle =>
      rw [Heap.serve, deallocate_eq]
      cases named : heap.range? handle with
      | none => exact ⟨cells, h, clean⟩
      | some b =>
          have used := (h.range?_eq_some_iff.mp named).1
          obtain ⟨cells', released⟩ := h.exists_release used
          exact ⟨cells', released.congr (layout_count ..) (size_count ..) (used_count ..),
            (h.clean_release used pattern clean released).congr (buffer_count ..)⟩
  | resize handle size =>
      rw [Heap.serve]
      cases h.resizing handle size with
      | unnamed _ result =>
          rw [result]
          exact ⟨cells, h, clean⟩
      | kept _ _ _ result =>
          rw [result]
          exact ⟨cells, h, clean⟩
      | noRoom _ _ _ _ result =>
          rw [result]
          exact ⟨cells, counted⟩
      | moved b target c named larger member fit _ result =>
          obtain ⟨cells', moved⟩ := h.exists_moved named member fit
          rw [result]
          exact ⟨cells', moved, h.clean_moved named larger member fit pattern clean moved⟩
  | write handle offset data =>
      rw [Heap.serve, write_eq]
      cases named : heap.range? handle with
      | none => exact ⟨cells, h, clean⟩
      | some b =>
          simp only
          split
          · next room =>
              have used := (h.range?_eq_some_iff.mp named).1
              exact ⟨cells, h.written _ data, clean.overwrite used (by omega) (by omega)⟩
          · exact ⟨cells, h, clean⟩
  | _ => exact ⟨cells, h, clean⟩

theorem clean_ofSize (size : Nat) (config : Config) (fill : UInt8) (cells : List Cell) :
    (Heap.ofSize size config).Clean fill cells := by
  intro k byte found _
  simp only [Heap.ofSize, Buffer.zeros, Array.getElem?_replicate] at found
  split at found
  · cases found
    exact .inl rfl
  · cases found

theorem Sound.clean_run (h : heap.Sound cells)
    (pattern : heap.config.deallocPattern = some fill) (clean : heap.Clean fill cells)
    (requests : List Pool.Request) :
    ∃ cells', (requests.foldl Heap.serve heap).Sound cells' ∧
      (requests.foldl Heap.serve heap).Clean fill cells' := by
  induction requests generalizing heap cells with
  | nil => exact ⟨cells, h, clean⟩
  | cons request rest ih =>
      have config := (h.change request).config_eq
      obtain ⟨cells', next, clean'⟩ := h.clean_serve pattern clean request
      exact ih next (config ▸ pattern) clean'

/-! ## What free blocks and new blocks hold -/

theorem Sound.idle_of_free (h : heap.Sound cells) (member : (i, b) ∈ cells)
    (free : b.free = true) (inside : b.Contains k) : Idle cells k := by
  rintro ⟨j, c⟩ used
  obtain ⟨there, inUse⟩ := mem_usedCells.mp used
  have distinct : i ≠ j := by
    rintro rfl
    have same := h.chains.block_unique member there
    simp_all
  exact (h.covers.apart member there distinct).not_contains inside

theorem Sound.scrubbed_of_free (h : heap.Sound cells) (clean : heap.Clean fill cells)
    (member : (i, b) ∈ cells) (free : b.free = true) (inside : b.Contains k) :
    ∃ byte, heap.buffer.bytes[k]? = some byte ∧ Scrubbed fill byte := by
  have whole := h.inside member
  have bounded : k < heap.buffer.bytes.size := Nat.lt_of_lt_of_le inside.2 whole
  have found := Array.getElem?_eq_getElem bounded
  exact ⟨_, found, clean k _ found (h.idle_of_free member free inside)⟩

theorem Sound.scrubbed_slice (h : heap.Sound cells) (clean : heap.Clean fill cells)
    (member : (i, b) ∈ cells) (free : b.free = true) {start count : Nat}
    (low : b.offset ≤ start) (high : start + count ≤ b.offset + b.size) :
    ∀ byte ∈ heap.buffer.slice start count, Scrubbed fill byte := by
  intro byte there
  obtain ⟨k, found⟩ := List.mem_iff_getElem?.mp there
  rw [Buffer.getElem?_slice] at found
  split at found
  · next inside =>
      have within : b.Contains (start + k) := ⟨by omega, by omega⟩
      exact clean _ byte found (h.idle_of_free member free within)
  · cases found

theorem Sound.exists_read_placed (h : heap.Sound cells) (clean : heap.Clean fill cells)
    (raw : heap.config.allocPattern = none) (member : (i, b) ∈ cells)
    (fit : fits size b = true) (small : i < UInt32.size) :
    ∃ bytes, (heap.placed i size).read (heap.layout.handleOf i) = .ok bytes ∧
      bytes.length = size ∧ ∀ byte ∈ bytes, Scrubbed fill byte := by
  obtain ⟨free, room⟩ := fits_iff.mp fit
  have inside := h.inside member
  have named := h.range?_placed member fit small (heap.layout.handleOf i)
  rw [if_pos rfl] at named
  have buffer : (heap.placed i size).buffer = heap.buffer := by
    rw [placed, buffer_count, h.buffer_claimAt member, raw]
    rfl
  refine ⟨_, read_of_range? named, ?_, ?_⟩
  · rw [buffer]
    exact Buffer.length_slice (by simp only; omega)
  · rw [buffer]
    exact h.scrubbed_slice clean member free (Nat.le_refl _) (by simp only; omega)

theorem Sound.exists_read_moved (h : heap.Sound cells) (clean : heap.Clean fill cells)
    (raw : heap.config.allocPattern = none) (named : heap.range? handle = some b)
    (larger : b.size < size) (member : (target, c) ∈ cells) (fit : fits size c = true)
    (small : target < UInt32.size) :
    ∃ bytes, (heap.moved handle.index.toNat b (target, c) size).read
        (heap.layout.handleOf target) = .ok bytes ∧
      bytes.length = size ∧ ∀ byte ∈ bytes.drop b.size, Scrubbed fill byte := by
  obtain ⟨free, room⟩ := fits_iff.mp fit
  have inside := h.inside member
  have length := h.length_contents named
  have apart := h.apart_of_fit named member fit
  have own := h.range?_moved named member fit small (heap.layout.handleOf target)
  rw [if_pos rfl] at own
  have whole : c.offset + size ≤
      (heap.moved handle.index.toNat b (target, c) size).buffer.size := by
    have same : (heap.moved handle.index.toNat b (target, c) size).buffer.size =
        heap.buffer.size := by
      rw [h.buffer_moved named member fit]
      simp
    omega
  refine ⟨_, read_of_range? own, Buffer.length_slice whole, ?_⟩
  -- Behind the copied bytes the new block still has those of the free one it was cut from.
  have rest : ((heap.moved handle.index.toNat b (target, c) size).buffer.slice
      c.offset size).drop b.size =
        heap.buffer.slice (c.offset + b.size) (size - b.size) := by
    have cut : (heap.moved handle.index.toNat b (target, c) size).buffer.slice
        (c.offset + b.size) (size - b.size) =
          (((heap.moved handle.index.toNat b (target, c) size).buffer.slice
            c.offset size).drop b.size).take (size - b.size) :=
      Buffer.slice_sub (by omega)
    rw [List.take_of_length_le] at cut
    · unfold Block.Apart at apart
      simp only at apart
      rw [← cut, h.buffer_moved named member fit, raw,
        Buffer.slice_paint_of_apart _ (by omega),
        Buffer.slice_overwrite_of_apart (by omega), Buffer.paint_none]
    · refine Nat.le_of_eq ?_
      rw [List.length_drop, Buffer.length_slice whole]
  simp only [rest]
  exact h.scrubbed_slice clean member free (by omega) (by omega)

end Heap

namespace Pool

open Heap Layout

variable {config : Config} {fill : UInt8}

/-- What a pool shows of places that were given back: the byte that freed blocks are filled
with, or the zero that it started with. -/
structure Scrubs (p : Pool) (fill : UInt8) : Prop where
  free : ∀ heap, p.phase = .ready heap → ∀ b ∈ heap.layout.blocks, b.free = true →
    ∀ k, b.Contains k → ∃ byte, heap.buffer.bytes[k]? = some byte ∧ Scrubbed fill byte
  allocated : p.config.allocPattern = none → ∀ size handle q,
    p.allocate size = (.ok handle, q) → q.slotCount < UInt32.size →
      ∃ bytes, q.read handle = .ok bytes ∧ bytes.length = size ∧
        ∀ byte ∈ bytes, Scrubbed fill byte
  moved : p.config.allocPattern = none → ∀ old size new q b,
    p.block old = .ok b → b.size < size → p.resize old size = (.ok new, q) →
      q.slotCount < UInt32.size →
      ∃ bytes, q.read new = .ok bytes ∧ bytes.length = size ∧
        ∀ byte ∈ bytes.drop b.size, Scrubbed fill byte

theorem scrubs_of_clean {heap : Heap} {cells : List Cell} (h : heap.Sound cells)
    (same : heap.config = config) (clean : heap.Clean fill cells) :
    (⟨config, .ready heap⟩ : Pool).Scrubs fill := by
  subst same
  refine ⟨?_, ?_, ?_⟩
  · rintro _ ⟨⟩ b member free k inside
    rw [h.chains.blocks_eq] at member
    obtain ⟨⟨i, b⟩, there, rfl⟩ := List.mem_map.mp member
    exact h.scrubbed_of_free clean there free inside
  · intro raw size handle q result slots
    rw [allocate, onHeap_of_ok _ rfl] at result
    have grown := h.slotCount_le_serve (.allocate size)
    rw [Heap.serve] at grown
    cases h.allocation size with
    | noRoom _ refused =>
        rw [refused] at result
        cases result
    | placed i b member fit _ given =>
        rw [given] at result grown
        cases result
        have bounded := h.chains.lt_slotCount member
        exact h.exists_read_placed clean raw member fit
          (Nat.lt_trans (Nat.lt_of_lt_of_le bounded grown) slots)
  · intro raw old size new q b found larger result slots
    rw [resize, onHeap_of_ok _ rfl] at result
    have grown := h.slotCount_le_serve (.resize old size)
    rw [Heap.serve] at grown
    rw [block_ready] at found
    cases h.resizing old size with
    | unnamed _ refused =>
        rw [refused] at result
        cases result
    | kept d named room _ =>
        rw [named] at found
        cases found
        omega
    | noRoom _ _ _ _ refused =>
        rw [refused] at result
        cases result
    | moved d target c named bigger member fit _ given =>
        rw [named] at found
        cases found
        rw [given] at result grown
        cases result
        have bounded := h.chains.lt_slotCount member
        exact h.exists_read_moved clean raw named bigger member fit
          (Nat.lt_trans (Nat.lt_of_lt_of_le bounded grown) slots)

/-- What was written to blocks that were given back or moved never shows again. -/
theorem run_scrubs {p : Pool} {size : Nat} {requests : List Request}
    (pattern : config.deallocPattern = some fill)
    (opened : (⟨config, .uninitialized⟩ : Pool).setUp size = (.ok (), p))
    (isOpen : .close ∉ requests) : (p.run requests).2.Scrubs fill := by
  obtain ⟨_, rfl⟩ := ready_of_setUp opened
  have start := Heap.sound_ofSize size config
  obtain ⟨_, _, _, same, _⟩ := start.foldl_serve requests
  obtain ⟨cells, sound, clean⟩ :=
    start.clean_run pattern (clean_ofSize size config fill _) requests
  rw [run_ready isOpen]
  exact scrubs_of_clean sound same clean

theorem run_scrubs_reused :
    (((⟨{ Config.reference with deallocPattern := some 0xDD }, .uninitialized⟩ : Pool).setUp
      16).2.run
        [.allocate 4, .write ⟨0, 0⟩ 0 [7, 7, 7, 7], .deallocate ⟨0, 0⟩]).2.Scrubs 0xDD :=
  run_scrubs rfl (setUp_of_pos (by decide)) (by decide)

end Pool

end BlockPool
