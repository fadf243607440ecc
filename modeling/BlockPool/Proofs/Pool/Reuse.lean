import BlockPool.Proofs.Pool.Merging
import BlockPool.Proofs.Pool.Tally

/-!
# Giving a block back and asking for it again

A block that is given back right after it was handed out does not slide into
the block before it: that one is in use, or the policy does not look at it.
With what it takes in from behind it is the first block that fits again.  Where
that is its own rest or nothing, the pool has the blocks that it had before.
-/

namespace BlockPool

namespace Layout

variable {l : Layout} {cells before after : List Cell} {keepEmpty : Bool} {i new size : Nat}
  {b : Block} {policy : Coalescing}

def cutOff (keepEmpty : Bool) (new size : Nat) (b : Block) : List Cell :=
  if 0 < b.size - size || keepEmpty then
    [(new, ⟨b.offset + size, b.size - size, true⟩)]
  else
    []

theorem claimed_eq (keepEmpty : Bool) (new size i : Nat) (b : Block) :
    claimed keepEmpty new size (i, b) =
      (i, ⟨b.offset, size, false⟩) :: cutOff keepEmpty new size b := rfl

/-! ## Releases without a free cell before -/

theorem released_of_alone (alone : taker policy before = none) :
    released policy before i b after =
      before ++ (i, ⟨b.offset, b.size + roomBehind after, true⟩) :: behind after := by
  rw [released_eq, ahead, holder, alone]

/-- Of the cells of a release only its own and free ones behind it are retired, so its slot is
retired once. -/
theorem Chains.generation_release (h : l.Chains (before ++ (i, b) :: after))
    (alone : taker policy before = none) :
    (l.release policy i).2.generation i = l.generation i + 1 := by
  have outside : i ∉ (freeHead after).toList := by
    have apart := (not_mem_of_split h.nodup).2
    cases after with
    | nil => simp [freeHead]
    | cons next rest =>
        rw [List.map_cons, List.mem_cons, not_or] at apart
        cases free : next.2.free <;> simp [freeHead, free, apart.1]
  have once : (l.retiredBy policy i).count i = 1 := by
    rw [h.retiredBy_eq]
    cases policy with
    | forward => simp [List.count_eq_zero.mpr outside]
    | bidirectional =>
        have used := taker_eq_none_iff.mp alone rfl
        simp [List.count_eq_zero.mpr outside, used]
  rw [h.raises_release policy i, once]
  rfl

theorem endsFree_of_coalesced (coalesced : Coalesced ((before ++ (i, b) :: after).map Prod.snd))
    (free : b.free = true) : endsFree before = false := by
  rcases List.eq_nil_or_concat before with rfl | ⟨front, prev, rfl⟩
  · rfl
  · rw [List.concat_eq_append] at coalesced ⊢
    rw [List.append_assoc, List.singleton_append] at coalesced
    rw [endsFree, List.getLast?_concat, Option.any_some]
    cases found : prev.2.free with
    | false => rfl
    | true =>
        have apart := headFree_of_coalesced coalesced found
        simp [headFree, free] at apart

/-- A claim that is taken back leaves the cells as they were, unless there was no rest and the
cell behind is free. -/
theorem released_claimed (alone : taker policy before = none) (free : b.free = true)
    (room : size ≤ b.size) (merges : keepEmpty = true ∨ headFree after = false) :
    released policy before i ⟨b.offset, size, false⟩ (cutOff keepEmpty new size b ++ after) =
      before ++ (i, b) :: after := by
  obtain ⟨offset, length, flag⟩ := b
  obtain rfl : flag = true := free
  rw [released_of_alone alone]
  by_cases cut : (0 < length - size || keepEmpty) = true
  · have total : size + (length - size) = length := Nat.add_sub_of_le room
    rw [cutOff, if_pos cut]
    simp [roomBehind, behind, total]
  · rw [cutOff, if_neg cut, List.nil_append]
    simp only [Bool.or_eq_true, decide_eq_true_eq, not_or] at cut
    have whole : size = length := Nat.le_antisymm room (by omega)
    have used : headFree after = false := merges.resolve_left cut.2
    rw [whole]
    cases after with
    | nil => rfl
    | cons next rest =>
        have apart : next.2.free = false := used
        simp [roomBehind, behind, apart]

end Layout

namespace Heap

open Layout

variable {heap : Heap} {cells before after : List Cell} {i size : Nat} {b : Block}

theorem Sound.placed_split (h : heap.Sound (before ++ (i, b) :: after))
    (fit : fits size b = true) :
    (heap.placed i size).Sound
      (before ++ (i, ⟨b.offset, size, false⟩) ::
        (cutOff heap.config.recordEmptyRemainder heap.layout.nextIndex size b ++ after)) := by
  have placed := h.placed_cells fit
  rw [claimed_eq, List.append_assoc, List.cons_append] at placed
  exact placed

theorem Sound.used_freed (h : heap.Sound (before ++ (i, b) :: after)) :
    (heap.freed i).used = heap.used - b.size := by
  rw [freed, used_count, release_eq h.chains.get?_of_split, used_paint]
  rfl

theorem Sound.handleOf_placed (h : heap.Sound (before ++ (i, b) :: after)) (j : Nat) :
    (heap.placed i size).layout.handleOf j = heap.layout.handleOf j := by
  rw [placed, layout_count, layout_claimAt, handleOf, generation_claim h.chains, handleOf]

theorem Sound.handleOf_freed (h : heap.Sound (before ++ (i, b) :: after))
    (alone : taker heap.config.coalesce before = none) :
    (heap.freed i).layout.handleOf i =
      ⟨(heap.layout.handleOf i).index, (heap.layout.handleOf i).generation + 1⟩ := by
  rw [freed, layout_count, layout_release, handleOf, h.chains.generation_release alone,
    handleOf]

/-- A released block that does not go into the one before it is found again by a request of its
size, if no block before it has room for that. -/
theorem Sound.allocate_freed (h : heap.Sound (before ++ (i, b) :: after))
    (inUse : b.free = false) (alone : taker heap.config.coalesce before = none)
    (unfit : ∀ c ∈ before.map Prod.snd, fits b.size c = false) (small : i < UInt32.size) :
    (heap.freed i).allocate b.size =
        (.ok ⟨(heap.layout.handleOf i).index, (heap.layout.handleOf i).generation + 1⟩,
          (heap.freed i).placed i b.size) ∧
      ((heap.freed i).placed i b.size).range?
        ⟨(heap.layout.handleOf i).index, (heap.layout.handleOf i).generation + 1⟩ = some b := by
  have released := h.freed_cells inUse
  rw [released_of_alone alone] at released
  have member : (i, ⟨b.offset, b.size + roomBehind after, true⟩) ∈
      before ++ (i, ⟨b.offset, b.size + roomBehind after, true⟩) :: behind after := by simp
  have fit : fits b.size ⟨b.offset, b.size + roomBehind after, true⟩ = true :=
    fits_iff.mpr ⟨rfl, Nat.le_add_right _ _⟩
  have found := released.chains.firstFit?_of_split fit unfit
  rw [← h.handleOf_freed alone]
  refine ⟨released.allocate_of_fit member fit found, ?_⟩
  rw [released.range?_placed member fit small, if_pos rfl, ← inUse]

theorem Sound.blocks_freed_placed (h : heap.Sound (before ++ (i, b) :: after))
    (fit : fits size b = true) (alone : taker heap.config.coalesce before = none)
    (merges : heap.config.recordEmptyRemainder = true ∨ headFree after = false) :
    ((heap.placed i size).freed i).layout.blocks = heap.layout.blocks := by
  obtain ⟨free, room⟩ := fits_iff.mp fit
  have released := (h.placed_split fit).freed_cells rfl
  rw [config_placed, released_claimed alone free room merges] at released
  rw [released.chains.blocks_eq, h.chains.blocks_eq]

theorem Sound.used_freed_placed (h : heap.Sound (before ++ (i, b) :: after))
    (fit : fits size b = true) : ((heap.placed i size).freed i).used = heap.used := by
  have member : (i, b) ∈ before ++ (i, b) :: after := by simp
  have taken : (heap.placed i size).used = heap.used + size := by
    rw [placed, used_count, h.used_claimAt member]
  rw [(h.placed_split fit).used_freed, taken, Nat.add_sub_cancel]

end Heap

namespace Pool

open Heap Layout

variable {config : Config} {heap : Heap} {before after : List Cell} {i size : Nat} {b : Block}
  {handle : Handle} {q : Pool}

structure Reuses (p : Pool) (size : Nat) (handle : Handle) (q r : Pool) : Prop where
  freed : q.deallocate handle = (.ok (), r)
  again : ∃ s c, r.allocate size = (.ok ⟨handle.index, handle.generation + 1⟩, s) ∧
    q.block handle = .ok c ∧ s.block ⟨handle.index, handle.generation + 1⟩ = .ok c
  used : r.statistics.map Statistics.usedBytes = p.statistics.map Statistics.usedBytes
  blocks : p.config.coalesce = .bidirectional ∨ p.config.recordEmptyRemainder = true →
    r.blocks = p.blocks

theorem reuses_ready (same : heap.config = config)
    (h : heap.Sound (before ++ (i, b) :: after)) (fit : fits size b = true)
    (unfit : ∀ c ∈ before.map Prod.snd, fits size c = false) (small : i < UInt32.size)
    (coalesced : config.coalesce = .bidirectional → Coalesced heap.layout.blocks) :
    (⟨config, .ready heap⟩ : Pool).Reuses size (heap.layout.handleOf i)
      ⟨config, .ready (heap.placed i size)⟩
      ⟨config, .ready ((heap.placed i size).freed i)⟩ := by
  subst same
  have free := (fits_iff.mp fit).1
  have member : (i, b) ∈ before ++ (i, b) :: after := by simp
  rw [h.chains.blocks_eq] at coalesced
  -- Under the bidirectional policy a free block has no free neighbour that could take it in.
  have alone : taker heap.config.coalesce before = none :=
    taker_eq_none_iff.mpr fun merges => endsFree_of_coalesced (coalesced merges) free
  have index : (heap.layout.handleOf i).index.toNat = i := ((eq_handleOf_iff small _).mp rfl).1
  have named : (heap.placed i size).range? (heap.layout.handleOf i) =
      some ⟨b.offset, size, false⟩ := by
    rw [h.range?_placed member fit small, if_pos rfl]
  have alone' : taker (heap.placed i size).config.coalesce before = none := by
    rwa [config_placed]
  obtain ⟨given, back⟩ := (h.placed_split fit).allocate_freed rfl alone' unfit small
  rw [h.handleOf_placed] at given back
  refine ⟨?_, ⟨⟨heap.config, .ready (((heap.placed i size).freed i).placed i size)⟩,
    ⟨b.offset, size, false⟩, ?_, ?_, ?_⟩, ?_, fun merges => ?_⟩
  · rw [deallocate, onHeap_of_ok _ rfl, deallocate_eq, named, index]
  · rw [allocate, onHeap_of_ok _ rfl, given]
  · rw [block_ready, named]
  · rw [block_ready, back]
  · exact congrArg Except.ok (h.used_freed_placed fit)
  · have merges' : heap.config.recordEmptyRemainder = true ∨ headFree after = false :=
      merges.symm.imp_right fun merges => headFree_of_coalesced (coalesced merges) free
    exact congrArg Except.ok (h.blocks_freed_placed fit alone merges')

/-- In whatever state a pool is, a block that it hands out can be given back at once and is
handed out again for the same request. -/
theorem run_reuses {requests : List Request}
    (given : ((⟨config, .uninitialized⟩ : Pool).run requests).2.allocate size = (.ok handle, q))
    (slots : q.slotCount < UInt32.size) :
    ∃ r, ((⟨config, .uninitialized⟩ : Pool).run requests).2.Reuses size handle q r := by
  have fresh : (⟨config, .uninitialized⟩ : Pool).Reached := nofun
  have reached := fresh.run requests
  generalize ((⟨config, .uninitialized⟩ : Pool).run requests).2 = p at given reached ⊢
  obtain ⟨whole, served, opened⟩ := reached.exists_ready (isReady_of_allocate given)
  have start := sound_ofSize whole p.config
  obtain ⟨cells, h, _, same, _⟩ := start.foldl_serve served
  have coalesced (merges : p.config.coalesce = .bidirectional) :=
    start.coalesced_run merges (coalesced_ofSize whole p.config) served
  generalize served.foldl Heap.serve (.ofSize whole p.config) = heap at opened h same coalesced
  rw [opened] at given ⊢
  rw [allocate, onHeap_of_ok _ rfl] at given
  cases h.allocation size with
  | noRoom _ refused =>
      rw [refused] at given
      cases given
  | placed i b member fit found result =>
      rw [result] at given
      cases given
      have small := h.small_of_placed member slots
      obtain ⟨before, b, after, rfl, fit, first⟩ := h.chains.split_of_firstFit? found
      exact ⟨_, reuses_ready same h fit (List.forall_mem_map.mpr first) small coalesced⟩

theorem run_reuses_between :
    ∃ r, ((⟨.reference, .uninitialized⟩ : Pool).run [.setUp 32, .allocate 4, .allocate 4,
        .allocate 8, .allocate 4, .deallocate ⟨1, 0⟩, .deallocate ⟨2, 0⟩]).2.Reuses 6 ⟨2, 1⟩
      ((⟨.reference, .uninitialized⟩ : Pool).run [.setUp 32, .allocate 4, .allocate 4,
        .allocate 8, .allocate 4, .deallocate ⟨1, 0⟩, .deallocate ⟨2, 0⟩, .allocate 6]).2 r :=
  run_reuses rfl (by decide +kernel)

end Pool

end BlockPool
