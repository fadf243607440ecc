import BlockPool.Proofs.Layout.Fusion
import BlockPool.Proofs.Pool.Coalescence
import BlockPool.Proofs.Pool.Failure
import BlockPool.Proofs.Pool.Tally

/-!
# The order of releases

Under the bidirectional policy the cells, bytes and counters that several
releases leave are told by the handles that were given back, whichever came
first.  Only the stack of vacant slots remembers the order, and no later
allocation shows it.
-/

namespace BlockPool

open Layout

namespace Heap

variable {heap heap' : Heap} {cells cells' before after : List Cell} {handle : Handle}
  {handles handles' : List Handle} {i size : Nat} {b : Block}

/-! ## Several releases -/

def freeAll (heap : Heap) (handles : List Handle) : Heap :=
  handles.foldl (fun heap handle => heap.freed handle.index.toNat) heap

def slotsOf (handles : List Handle) : List Nat := handles.map fun handle => handle.index.toNat

def paintAll (buffer : Buffer) (pattern : Option UInt8) (blocks : List Block) : Buffer :=
  blocks.foldl (fun buffer b => buffer.paint pattern b.offset b.size) buffer

structure Freed (heap : Heap) (cells : List Cell) (handles : List Handle) (heap' : Heap) :
    Prop where
  sound : heap'.Sound (fuse (cells.map (vacate (slotsOf handles))))
  config : heap'.config = heap.config
  range : ∀ other, heap'.range? other =
    if other ∈ handles then none else heap.range? other
  buffer : heap'.buffer =
    paintAll heap.buffer heap.config.deallocPattern (handles.filterMap heap.range?)
  counters : heap'.counters =
    if heap.config.trackStats then
      { heap.counters with
        deallocations := heap.counters.deallocations + handles.length }
    else heap.counters
  slotCount : heap'.layout.slotCount = heap.layout.slotCount

theorem Sound.freed_fuse (h : heap.Sound cells)
    (merges : heap.config.coalesce = .bidirectional)
    (coalesced : Coalesced (cells.map Prod.snd)) (named : heap.range? handle = some b) :
    (heap.freed handle.index.toNat).Sound
      (fuse (cells.map (vacate [handle.index.toNat]))) := by
  obtain ⟨member, inUse⟩ := mem_usedCells.mp (h.range?_eq_some_iff.mp named).1
  obtain ⟨before, after, rfl⟩ := List.append_of_mem member
  have released := h.release inUse
  rw [merges, released_eq_fuse coalesced, ← vacate_split h.chains.nodup] at released
  exact released.congr (layout_count ..) (size_count ..) (used_count ..)

theorem Sound.buffer_freed (h : heap.Sound cells) (named : heap.range? handle = some b) :
    (heap.freed handle.index.toNat).buffer =
      heap.buffer.paint heap.config.deallocPattern b.offset b.size := by
  rw [freed, buffer_count]
  exact h.buffer_release (mem_usedCells.mp (h.range?_eq_some_iff.mp named).1).1

@[simp] theorem config_freed (heap : Heap) (i : Nat) : (heap.freed i).config = heap.config := by
  simp [Heap.freed]

theorem Freed.nil (h : heap.Sound cells) (coalesced : Coalesced (cells.map Prod.snd)) :
    heap.Freed cells [] heap where
  sound := by
    rw [slotsOf, List.map_nil, vacate_nil, fuse_of_coalesced coalesced]
    exact h
  config := rfl
  range other := by simp
  buffer := rfl
  counters := by simp
  slotCount := rfl

theorem Freed.cons (h : heap.Sound cells) (named : heap.range? handle = some b)
    (other : handle ∉ handles)
    (rest : (heap.freed handle.index.toNat).Freed
      (fuse (cells.map (vacate [handle.index.toNat]))) handles heap') :
    heap.Freed cells (handle :: handles) heap' where
  sound := by
    have sound := rest.sound
    rw [fuse_map_fuse (respects_vacate _), vacate_cons] at sound
    exact sound
  config := by rw [rest.config, config_freed]
  range candidate := by
    rw [rest.range, h.range?_freed named]
    by_cases own : candidate = handle <;> simp [own]
  buffer := by
    have same : handles.filterMap (heap.freed handle.index.toNat).range? =
        handles.filterMap heap.range? := by
      refine List.filterMap_congr fun candidate member => ?_
      rw [h.range?_freed named, if_neg]
      rintro rfl
      exact other member
    rw [rest.buffer, same, h.buffer_freed named, config_freed,
      List.filterMap_cons_some named]
    rfl
  counters := by
    rw [rest.counters, counters_freed, config_freed]
    split
    · simp [Counters.addDeallocation, Nat.add_comm, Nat.add_left_comm]
    · rfl
  slotCount := by rw [rest.slotCount, slotCount_freed]

theorem Sound.freeAll (h : heap.Sound cells) (merges : heap.config.coalesce = .bidirectional)
    (coalesced : Coalesced (cells.map Prod.snd))
    (live : ∀ handle ∈ handles, ∃ b, heap.range? handle = some b) (nodup : handles.Nodup) :
    heap.Freed cells handles (heap.freeAll handles) := by
  induction handles generalizing heap cells with
  | nil => exact .nil h coalesced
  | cons handle rest ih =>
      obtain ⟨other, nodup⟩ := List.nodup_cons.mp nodup
      obtain ⟨b, named⟩ := live handle List.mem_cons_self
      refine .cons h named other ?_
      refine ih (h.freed_fuse merges coalesced named) (by rwa [config_freed])
        (coalesced_fuse _) (fun candidate member => ?_) nodup
      have distinct : candidate ≠ handle := by
        rintro rfl
        exact other member
      rw [h.range?_freed named, if_neg distinct]
      exact live candidate (List.mem_cons_of_mem _ member)

/-! ## Heaps that look alike -/

/-- The heaps differ at most in the slots of their records. -/
structure Alike (heap : Heap) (cells : List Cell) (heap' : Heap) (cells' : List Cell) :
    Prop where
  sound : heap.Sound cells
  sound' : heap'.Sound cells'
  blocks : cells.map Prod.snd = cells'.map Prod.snd
  config : heap.config = heap'.config
  buffer : heap.buffer = heap'.buffer
  counters : heap.counters = heap'.counters
  slotCount : heap.layout.slotCount = heap'.layout.slotCount

theorem Freed.alike {first second : Heap} (freed : heap.Freed cells handles first)
    (freed' : heap.Freed cells handles' second) (perm : handles.Perm handles') :
    Alike first (fuse (cells.map (vacate (slotsOf handles)))) second
      (fuse (cells.map (vacate (slotsOf handles')))) where
  sound := freed.sound
  sound' := freed'.sound
  blocks := by
    have slots : (slotsOf handles).Perm (slotsOf handles') := perm.map _
    rw [vacate_congr fun i => slots.mem_iff]
  config := freed.config.trans freed'.config.symm
  buffer := by
    rw [freed.buffer, freed'.buffer]
    exact (perm.filterMap _).foldl_eq' (fun _ _ _ _ buffer => buffer.paint_comm ..) _
  counters := by rw [freed.counters, freed'.counters, perm.length_eq]
  slotCount := freed.slotCount.trans freed'.slotCount.symm

theorem Alike.blocks_eq (alike : heap.Alike cells heap' cells') :
    heap.layout.blocks = heap'.layout.blocks := by
  rw [alike.sound.chains.blocks_eq, alike.sound'.chains.blocks_eq, alike.blocks]

theorem Alike.used_eq (alike : heap.Alike cells heap' cells') : heap.used = heap'.used := by
  rw [alike.sound.used_eq, alike.sound'.used_eq, alike.blocks]

theorem Alike.live_eq (alike : heap.Alike cells heap' cells') :
    heap.layout.live = heap'.layout.live := by
  have length := congrArg List.length alike.blocks
  rw [List.length_map, List.length_map] at length
  rw [← alike.sound.chains.length_eq_live, ← alike.sound'.chains.length_eq_live, length]

theorem Alike.largestFree_eq (alike : heap.Alike cells heap' cells') :
    heap.largestFree = heap'.largestFree := by
  rw [largestFree, largestFree, Layout.largestFree, Layout.largestFree, freeSizes, freeSizes,
    alike.blocks_eq]

theorem Alike.statistics_eq (alike : heap.Alike cells heap' cells') :
    heap.statistics = heap'.statistics := by
  simp only [statistics, alike.used_eq, alike.live_eq, alike.counters, alike.largestFree_eq,
    freeBytes, freeSizes, alike.blocks_eq, Heap.size, alike.buffer]

end Heap

/-! ## The same request on both -/

namespace Layout

variable {l : Layout} {cells before after : List Cell} {i size : Nat} {b : Block}

theorem exists_split_of_blocks
    (same : (before ++ (i, b) :: after).map Prod.snd = cells.map Prod.snd) :
    ∃ front j back, cells = front ++ (j, b) :: back ∧
      front.map Prod.snd = before.map Prod.snd ∧ back.map Prod.snd = after.map Prod.snd := by
  rw [List.map_append, List.map_cons] at same
  obtain ⟨front, rest, rfl, left, others⟩ := List.map_eq_append_iff.mp same.symm
  obtain ⟨⟨j, c⟩, back, rfl, (rfl : c = b), right⟩ := List.map_eq_cons_iff.mp others
  exact ⟨front, j, back, rfl, left, right⟩

theorem Chains.firstFit?_eq_none_iff_blocks (h : l.Chains cells) :
    l.firstFit? size = none ↔ ∀ b ∈ cells.map Prod.snd, fits size b = false := by
  rw [h.firstFit?_eq_none_iff, List.forall_mem_map]

end Layout

namespace Heap

variable {heap heap' : Heap} {cells cells' before after : List Cell} {handle : Handle}
  {handles handles' : List Handle} {i size : Nat} {b : Block}

theorem Alike.countFailure (alike : heap.Alike cells heap' cells') :
    heap.countFailure.Alike cells heap'.countFailure cells' where
  sound := alike.sound.congr (layout_count ..) (size_count ..) (used_count ..)
  sound' := alike.sound'.congr (layout_count ..) (size_count ..) (used_count ..)
  blocks := alike.blocks
  config := by
    rw [Heap.countFailure, Heap.countFailure, config_count, config_count, alike.config]
  buffer := by
    rw [Heap.countFailure, Heap.countFailure, buffer_count, buffer_count, alike.buffer]
  counters := by
    rw [Heap.countFailure, Heap.countFailure, counters_count, counters_count, alike.config,
      alike.counters]
  slotCount := by
    rw [Heap.countFailure, Heap.countFailure, layout_count, layout_count, alike.slotCount]

def landing (heap : Heap) (size : Nat) : Except PoolError (Except PoolError Block) :=
  (heap.allocate size).1.map (heap.allocate size).2.block

theorem Sound.landing_placed (h : heap.Sound cells) (member : (i, b) ∈ cells)
    (fit : fits size b = true) (found : heap.layout.firstFit? size = some i)
    (small : i < UInt32.size) :
    heap.landing size = .ok (.ok ⟨b.offset, size, false⟩) := by
  rw [landing, h.allocate_of_fit member fit found]
  change Except.ok ((heap.placed i size).block (heap.layout.handleOf i)) = _
  rw [block_eq, h.range?_placed member fit small, if_pos rfl]

theorem Alike.placed {front back : List Cell} {j : Nat}
    (alike : heap.Alike (before ++ (i, b) :: after) heap' (front ++ (j, b) :: back))
    (left : front.map Prod.snd = before.map Prod.snd)
    (right : back.map Prod.snd = after.map Prod.snd) (fit : fits size b = true) :
    (heap.placed i size).Alike
      (before ++ claimed heap.config.recordEmptyRemainder heap.layout.nextIndex size (i, b) ++
        after)
      (heap'.placed j size)
      (front ++ claimed heap'.config.recordEmptyRemainder heap'.layout.nextIndex size (j, b) ++
        back) where
  sound := (alike.sound.claimAt fit).congr (layout_count ..) (size_count ..) (used_count ..)
  sound' := (alike.sound'.claimAt fit).congr (layout_count ..) (size_count ..) (used_count ..)
  blocks := by
    simp only [claimed, List.map_append, List.map_cons, left, right, alike.config]
    split <;> rfl
  config := by simp [Heap.placed, alike.config]
  buffer := by
    rw [Heap.placed, Heap.placed, buffer_count, buffer_count,
      alike.sound.buffer_claimAt (b := b) (by simp),
      alike.sound'.buffer_claimAt (b := b) (by simp), alike.buffer, alike.config]
  counters := by
    rw [alike.sound.counters_placed (b := b) (by simp),
      alike.sound'.counters_placed (b := b) (by simp), alike.config, alike.counters,
      alike.used_eq]
  slotCount := by
    rw [Heap.placed, Heap.placed, layout_count, layout_count, layout_claimAt, layout_claimAt,
      slotCount_claim alike.sound.chains, slotCount_claim alike.sound'.chains, alike.config,
      alike.live_eq, alike.slotCount]

theorem Alike.allocate (alike : heap.Alike cells heap' cells') (size : Nat) :
    ((heap.allocate size).2.layout.slotCount < UInt32.size →
      heap.landing size = heap'.landing size) ∧
    ∃ next next', (heap.allocate size).2.Alike next (heap'.allocate size).2 next' := by
  have h := alike.sound
  have h' := alike.sound'
  cases found : heap.layout.firstFit? size with
  | none =>
      have none : heap'.layout.firstFit? size = none := by
        rw [h'.chains.firstFit?_eq_none_iff_blocks, ← alike.blocks]
        exact h.chains.firstFit?_eq_none_iff_blocks.mp found
      rw [landing, landing, allocate_of_none found, allocate_of_none none, noRoom, noRoom,
        alike.largestFree_eq]
      exact ⟨fun _ => rfl, cells, cells', alike.countFailure⟩
  | some i =>
      obtain ⟨before, b, after, rfl, fit, unfit⟩ := h.chains.split_of_firstFit? found
      obtain ⟨front, j, back, rfl, left, right⟩ := exists_split_of_blocks alike.blocks
      have found' : heap'.layout.firstFit? size = some j := by
        apply h'.chains.firstFit?_of_split fit
        rw [left, List.forall_mem_map]
        exact unfit
      have here : (i, b) ∈ before ++ (i, b) :: after := by simp
      have there : (j, b) ∈ front ++ (j, b) :: back := by simp
      constructor
      · intro slots
        have grown := h.slotCount_le_serve (.allocate size)
        have low := h.chains.lt_slotCount here
        have low' := h'.chains.lt_slotCount there
        rw [← alike.slotCount] at low'
        rw [h.landing_placed here fit found
            (Nat.lt_of_lt_of_le low (Nat.le_trans grown (Nat.le_of_lt slots))),
          h'.landing_placed there fit found'
            (Nat.lt_of_lt_of_le low' (Nat.le_trans grown (Nat.le_of_lt slots)))]
      · rw [h.allocate_of_fit here fit found, h'.allocate_of_fit there fit found']
        exact ⟨_, _, alike.placed left right fit⟩

end Heap

namespace Pool

variable {config : Config} {heap heap' : Heap} {cells cells' : List Cell}
  {handles handles' : List Handle}

/-! ## Pools that look alike -/

def buffer (p : Pool) : Except PoolError Buffer := p.heap.map Heap.buffer

structure Alike (p q : Pool) : Prop where
  blocks : p.blocks = q.blocks
  statistics : p.statistics = q.statistics
  buffer : p.buffer = q.buffer
  block : ∀ handle, p.block handle = q.block handle

def landing (p : Pool) (size : Nat) : Except PoolError (Except PoolError Block) :=
  (p.allocate size).1.map (p.allocate size).2.block

def landings (p : Pool) : List Nat → List (Except PoolError (Except PoolError Block))
  | [] => []
  | size :: rest => p.landing size :: (p.allocate size).2.landings rest

theorem range?_of_block {handle : Handle} {b : Block}
    (found : (⟨config, .ready heap⟩ : Pool).block handle = .ok b) :
    heap.range? handle = some b := by
  rw [block_ready] at found
  cases named : heap.range? handle with
  | none => simp [named] at found
  | some c =>
      rw [named] at found
      cases found
      rfl

theorem run_deallocate (h : heap.Sound cells)
    (live : ∀ handle ∈ handles, ∃ b, heap.range? handle = some b) (nodup : handles.Nodup) :
    (⟨config, .ready heap⟩ : Pool).run (handles.map .deallocate) =
      (List.replicate handles.length (.ok .done),
        ⟨config, .ready (heap.freeAll handles)⟩) := by
  induction handles generalizing heap cells with
  | nil => rfl
  | cons handle rest ih =>
      obtain ⟨other, nodup⟩ := List.nodup_cons.mp nodup
      obtain ⟨b, named⟩ := live handle List.mem_cons_self
      obtain ⟨cells', freed⟩ := h.exists_freed (h.range?_eq_some_iff.mp named).1
      have later := ih freed (fun candidate member => by
        have distinct : candidate ≠ handle := by
          rintro rfl
          exact other member
        rw [h.range?_freed named, if_neg distinct]
        exact live candidate (List.mem_cons_of_mem _ member)) nodup
      rw [List.map_cons, run_cons, perform_deallocate named, later]
      rfl

theorem landings_eq (alike : heap.Alike cells heap' cells') {sizes : List Nat}
    (slots : ((⟨config, .ready heap⟩ : Pool).run (sizes.map .allocate)).2.slotCount <
      UInt32.size) :
    (⟨config, .ready heap⟩ : Pool).landings sizes =
      (⟨config, .ready heap'⟩ : Pool).landings sizes := by
  induction sizes generalizing heap cells heap' cells' with
  | nil => rfl
  | cons size rest ih =>
      obtain ⟨same, next, next', alike'⟩ := alike.allocate size
      have isOpen : Request.close ∉ rest.map Request.allocate := by simp
      have grown : (heap.allocate size).2.layout.slotCount < UInt32.size := by
        obtain ⟨_, _, _, _, grown⟩ := alike'.sound.foldl_serve (rest.map .allocate)
        have going : Request.allocate size ≠ .close := nofun
        rw [List.map_cons, run_cons, perform_ready going, run_ready isOpen] at slots
        exact Nat.lt_of_le_of_lt grown slots
      exact congrArg₂ List.cons (same grown) (ih alike' slots)

/-- Giving blocks back in another order makes no difference that can be seen. -/
theorem run_free_order {p : Pool} {size : Nat} {requests : List Request}
    (merges : config.coalesce = .bidirectional)
    (opened : (⟨config, .uninitialized⟩ : Pool).setUp size = (.ok (), p))
    (isOpen : .close ∉ requests)
    (live : ∀ handle ∈ handles, ∃ b, (p.run requests).2.block handle = .ok b)
    (nodup : handles.Nodup) (perm : handles.Perm handles') :
    ∃ first second,
      (p.run requests).2.run (handles.map .deallocate) =
        (List.replicate handles.length (.ok .done), first) ∧
      (p.run requests).2.run (handles'.map .deallocate) =
        (List.replicate handles.length (.ok .done), second) ∧
      first.Alike second ∧
      (∀ handle, first.block handle =
        if handle ∈ handles then .error (.notFound handle)
        else (p.run requests).2.block handle) ∧
      ∀ sizes, (first.run (sizes.map .allocate)).2.slotCount < UInt32.size →
        first.landings sizes = second.landings sizes := by
  obtain ⟨_, rfl⟩ := ready_of_setUp opened
  have start := Heap.sound_ofSize size config
  have coalesced :=
    start.coalesced_run merges (Heap.coalesced_ofSize size config) requests
  obtain ⟨cells, sound, _, same, _⟩ := start.foldl_serve requests
  rw [run_ready isOpen] at live ⊢
  generalize requests.foldl Heap.serve (Heap.ofSize size config) = heap at *
  have merges' : heap.config.coalesce = .bidirectional := by
    rw [same]
    exact merges
  have named (handle : Handle) (member : handle ∈ handles) :
      ∃ b, heap.range? handle = some b :=
    (live handle member).imp fun b => range?_of_block
  have named' (handle : Handle) (member : handle ∈ handles') :
      ∃ b, heap.range? handle = some b :=
    named handle (perm.mem_iff.mpr member)
  rw [sound.chains.blocks_eq] at coalesced
  have freed := sound.freeAll merges' coalesced named nodup
  have freed' := sound.freeAll merges' coalesced named' (perm.nodup_iff.mp nodup)
  have alike := freed.alike freed' perm
  refine ⟨_, ⟨config, .ready (heap.freeAll handles')⟩, run_deallocate sound named nodup,
    ?_, ?_, ?_, fun sizes slots => ?_⟩
  · rw [perm.length_eq]
    exact run_deallocate sound named' (perm.nodup_iff.mp nodup)
  · refine ⟨?_, ?_, ?_, fun handle => ?_⟩
    · exact congrArg Except.ok alike.blocks_eq
    · exact congrArg Except.ok alike.statistics_eq
    · exact congrArg Except.ok alike.buffer
    · rw [block_ready, block_ready, freed.range, freed'.range]
      simp only [perm.mem_iff]
  · intro handle
    rw [block_ready, block_ready, freed.range]
    by_cases given : handle ∈ handles
    · rw [if_pos given, if_pos given]
    · rw [if_neg given, if_neg given]
  · exact landings_eq alike slots

theorem run_free_order_reversed :
    (Pool.run (Pool.run ⟨.debug, .ready (.ofSize 16 .debug)⟩
        [.allocate 4, .allocate 0, .allocate 3, .allocate 2]).2
        [.deallocate ⟨0, 0⟩, .deallocate ⟨1, 0⟩, .deallocate ⟨2, 0⟩]).2.Alike
      (Pool.run (Pool.run ⟨.debug, .ready (.ofSize 16 .debug)⟩
        [.allocate 4, .allocate 0, .allocate 3, .allocate 2]).2
        [.deallocate ⟨2, 0⟩, .deallocate ⟨1, 0⟩, .deallocate ⟨0, 0⟩]).2 ∧
    (Pool.run (Pool.run ⟨.debug, .ready (.ofSize 16 .debug)⟩
        [.allocate 4, .allocate 0, .allocate 3, .allocate 2]).2
        [.deallocate ⟨0, 0⟩, .deallocate ⟨1, 0⟩, .deallocate ⟨2, 0⟩]).2.landings [6, 0, 9] =
      (Pool.run (Pool.run ⟨.debug, .ready (.ofSize 16 .debug)⟩
        [.allocate 4, .allocate 0, .allocate 3, .allocate 2]).2
        [.deallocate ⟨2, 0⟩, .deallocate ⟨1, 0⟩, .deallocate ⟨0, 0⟩]).2.landings [6, 0, 9] := by
  have opened : (⟨.debug, .uninitialized⟩ : Pool).setUp 16 =
      (.ok (), ⟨.debug, .ready (.ofSize 16 .debug)⟩) := setUp_of_pos (by decide)
  have live : ∀ handle ∈ [⟨0, 0⟩, ⟨1, 0⟩, ⟨2, 0⟩], ∃ b,
      (Pool.run ⟨.debug, .ready (.ofSize 16 .debug)⟩
        [.allocate 4, .allocate 0, .allocate 3, .allocate 2]).2.block handle = .ok b := by
    simp only [List.forall_mem_cons]
    exact ⟨⟨_, rfl⟩, ⟨_, rfl⟩, ⟨_, rfl⟩, nofun⟩
  have perm : [⟨0, 0⟩, ⟨1, 0⟩, ⟨2, 0⟩].Perm ([⟨2, 0⟩, ⟨1, 0⟩, ⟨0, 0⟩] : List Handle) := by
    decide
  obtain ⟨first, second, ran, ran', alike, _, landings⟩ :=
    run_free_order rfl opened (by decide) live (by decide) perm
  obtain rfl := congrArg Prod.snd ran
  obtain rfl := congrArg Prod.snd ran'
  exact ⟨alike, landings [6, 0, 9] (by decide +kernel)⟩

end Pool

end BlockPool
