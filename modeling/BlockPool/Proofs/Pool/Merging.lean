import BlockPool.Proofs.Pool.FirstFit
import BlockPool.Proofs.Pool.Neighbours

/-!
# What a released block is merged with

A block that is given back takes in the free block right behind it.  Under the
bidirectional policy the two then go into the free block right before them,
whose record holds their addresses from then on.  All other blocks stay as
they are, and so do all bytes but those of the block that is given back.
-/

namespace BlockPool

namespace Layout

variable {l : Layout} {cells before after : List Cell} {i : Nat} {b : Block}

/-! ## The cells around a released one -/

/-- The cell that takes in a released one: the one right before it, if that is free. -/
def taker (policy : Coalescing) (before : List Cell) : Option Cell :=
  match policy with
  | .forward => none
  | .bidirectional => before.getLast?.filter fun cell => cell.2.free

def roomBehind : List Cell → Nat
  | [] => 0
  | next :: _ => if next.2.free then next.2.size else 0

def ahead (policy : Coalescing) (before : List Cell) : List Cell :=
  match taker policy before with
  | none => before
  | some _ => before.dropLast

/-- The free cell that holds the addresses of a released one. -/
def holder (policy : Coalescing) (before : List Cell) (i : Nat) (b : Block)
    (after : List Cell) : Cell :=
  match taker policy before with
  | none => (i, ⟨b.offset, b.size + roomBehind after, true⟩)
  | some prev => grow prev (b.size + roomBehind after)

theorem mergeNext_released (i : Nat) (b : Block) (after : List Cell) :
    mergeNext (i, { b with free := true }) after =
      (i, ⟨b.offset, b.size + roomBehind after, true⟩) :: behind after := by
  cases after with
  | nil => rfl
  | cons next rest =>
      simp only [mergeNext, roomBehind, behind]
      split <;> rfl

theorem taker_concat (front : List Cell) (prev : Cell) :
    taker .bidirectional (front ++ [prev]) = if prev.2.free then some prev else none := by
  rw [taker, List.getLast?_concat, Option.filter_some]

theorem taker_eq_none_iff {policy : Coalescing} :
    taker policy before = none ↔ policy = .bidirectional → endsFree before = false := by
  cases policy with
  | forward => simp [taker]
  | bidirectional =>
      rw [taker, endsFree]
      cases before.getLast? with
      | none => simp
      | some prev => cases free : prev.2.free <;> simp [free]

theorem released_eq (policy : Coalescing) (before : List Cell) (i : Nat) (b : Block)
    (after : List Cell) :
    released policy before i b after =
      ahead policy before ++ holder policy before i b after :: behind after := by
  cases policy with
  | forward => exact congrArg (before ++ ·) (mergeNext_released i b after)
  | bidirectional =>
      rw [released, mergeNext_released]
      rcases List.eq_nil_or_concat before with rfl | ⟨front, prev, rfl⟩
      · rfl
      · rw [List.concat_eq_append, mergePrev_append, ahead, holder, taker_concat]
        by_cases free : prev.2.free = true
        · simp only [if_pos free, List.dropLast_concat]
        · simp only [if_neg free, List.append_assoc, List.singleton_append]

theorem last_of_taker {policy : Coalescing} {prev : Cell}
    (takes : taker policy before = some prev) : before.getLast? = some prev := by
  cases policy with
  | forward => cases takes
  | bidirectional => exact (Option.filter_eq_some_iff.mp takes).1

theorem free_of_taker {policy : Coalescing} {prev : Cell}
    (takes : taker policy before = some prev) : prev.2.free = true := by
  cases policy with
  | forward => cases takes
  | bidirectional => exact (Option.filter_eq_some_iff.mp takes).2

theorem holder_free (policy : Coalescing) (before : List Cell) (i : Nat) (b : Block)
    (after : List Cell) : (holder policy before i b after).2.free = true := by
  rw [holder]
  cases takes : taker policy before with
  | none => rfl
  | some prev =>
      have free : prev.2.free = true := free_of_taker takes
      exact free

theorem holder_contains {start stop : Nat} (policy : Coalescing)
    (h : Covers start ((before ++ (i, b) :: after).map Prod.snd) stop) :
    (holder policy before i b after).2.offset ≤ b.offset ∧
      b.offset + b.size ≤ (holder policy before i b after).2.offset +
        (holder policy before i b after).2.size := by
  rw [holder]
  cases takes : taker policy before with
  | none =>
      simp only
      omega
  | some prev =>
      obtain ⟨front, rfl⟩ := List.getLast?_eq_some_iff.mp (last_of_taker takes)
      rw [List.append_assoc, List.map_append, Covers.append_iff] at h
      obtain ⟨_, _, _, (meets : b.offset = prev.2.offset + prev.2.size), _⟩ := h
      simp only [grow]
      omega

theorem Chains.release_fst (h : l.Chains (before ++ (i, b) :: after))
    (policy : Coalescing) :
    (l.release policy i).1 = (holder policy before i b after).1 := by
  obtain ⟨front, c, chains, _⟩ := h.exists_survivor policy
  have same := chains.unique (h.release policy)
  rw [released_eq] at same
  obtain ⟨_, tails⟩ := List.append_inj' same rfl
  exact congrArg Prod.fst (List.cons.inj tails).1

end Layout

namespace Heap

open Layout

variable {heap : Heap} {cells before after : List Cell} {handle : Handle} {i : Nat} {b : Block}

theorem Sound.chain_freed (h : heap.Sound (before ++ (i, b) :: after))
    (inUse : b.free = false) :
    (heap.freed i).layout.chain =
      ahead heap.config.coalesce before ++
        holder heap.config.coalesce before i b after :: behind after := by
  rw [(h.freed_cells inUse).chains.chain_eq, released_eq]

theorem Sound.blocks_freed (h : heap.Sound (before ++ (i, b) :: after))
    (inUse : b.free = false) :
    (heap.freed i).layout.blocks =
      (ahead heap.config.coalesce before).map Prod.snd ++
        (holder heap.config.coalesce before i b after).2 :: (behind after).map Prod.snd := by
  rw [← map_chain, h.chain_freed inUse, List.map_append, List.map_cons]

theorem Sound.release_fst (h : heap.Sound (before ++ (i, b) :: after)) :
    (heap.release i).1 = (holder heap.config.coalesce before i b after).1 := by
  rw [release_eq h.chains.get?_of_split]
  exact h.chains.release_fst heap.config.coalesce

theorem Sound.read_freed (h : heap.Sound cells) (named : heap.range? handle = some b)
    {other : Handle} (distinct : other ≠ handle) :
    (heap.freed handle.index.toNat).read other = heap.read other := by
  rw [read_eq, read_eq, h.contents_freed named, Contents.set_of_ne _ _ distinct]

theorem Sound.getElem?_freed (h : heap.Sound cells) (named : heap.range? handle = some b)
    (k : Nat) :
    (heap.freed handle.index.toNat).buffer.bytes[k]? =
      if b.offset ≤ k ∧ k < b.offset + b.size then
        heap.buffer.bytes[k]?.map fun byte => heap.config.deallocPattern.getD byte
      else
        heap.buffer.bytes[k]? := by
  rw [h.buffer_freed named, Buffer.getElem?_paint]

end Heap

namespace Pool

open Heap Layout

variable {config : Config} {p : Pool} {heap : Heap} {before after : List Cell}
  {handle : Handle} {b : Block}

def chain (p : Pool) : Except PoolError (List Cell) := p.heap.map fun heap => heap.layout.chain

/-- Giving the block `b` back merges it once to each side, as far as the policy goes, and makes
nothing else different. -/
structure Frees (p : Pool) (handle : Handle) (before : List Cell) (b : Block)
    (after : List Cell) (q : Pool) : Prop where
  result : p.deallocate handle = (.ok (), q)
  chain : q.chain = .ok (ahead p.config.coalesce before ++
    holder p.config.coalesce before handle.index.toNat b after :: behind after)
  blocks : q.blocks = .ok ((ahead p.config.coalesce before).map Prod.snd ++
    (holder p.config.coalesce before handle.index.toNat b after).2 ::
      (behind after).map Prod.snd)
  survivor : ∀ heap, p.heap = .ok heap → (heap.release handle.index.toNat).1 =
    (holder p.config.coalesce before handle.index.toNat b after).1
  holds : (holder p.config.coalesce before handle.index.toNat b after).2.offset ≤ b.offset ∧
    b.offset + b.size ≤ (holder p.config.coalesce before handle.index.toNat b after).2.offset +
      (holder p.config.coalesce before handle.index.toNat b after).2.size
  gone : q.block handle = .error (.notFound handle)
  kept : ∀ other, other ≠ handle → q.block other = p.block other ∧ q.read other = p.read other
  bytes : ∃ old new, p.buffer = .ok old ∧ q.buffer = .ok new ∧ ∀ k, new.bytes[k]? =
    if b.offset ≤ k ∧ k < b.offset + b.size then
      old.bytes[k]?.map fun byte => p.config.deallocPattern.getD byte
    else
      old.bytes[k]?

theorem frees_ready (h : heap.Sound (before ++ (handle.index.toNat, b) :: after))
    (named : heap.range? handle = some b) :
    (⟨heap.config, .ready heap⟩ : Pool).Frees handle before b after
      ⟨heap.config, .ready (heap.freed handle.index.toNat)⟩ := by
  have inUse : b.free = false := (mem_usedCells.mp (h.range?_eq_some_iff.mp named).1).2
  refine ⟨?_, congrArg Except.ok (h.chain_freed inUse),
    congrArg Except.ok (h.blocks_freed inUse), ?_,
    holder_contains heap.config.coalesce h.covers, ?_, fun other distinct => ⟨?_, ?_⟩, ?_⟩
  · rw [deallocate, onHeap_of_ok _ rfl, deallocate_eq, named]
  · rintro _ ⟨⟩
    exact h.release_fst
  · rw [block_ready, h.range?_freed named, if_pos rfl]
  · rw [block_ready, block_ready, h.range?_freed named, if_neg distinct]
  · exact h.read_freed named distinct
  · exact ⟨_, _, rfl, rfl, h.getElem?_freed named⟩

theorem run_frees {requests : List Request}
    (live : ((⟨config, .uninitialized⟩ : Pool).run requests).2.block handle = .ok b) :
    (∃ before after, ((⟨config, .uninitialized⟩ : Pool).run requests).2.chain =
      .ok (before ++ (handle.index.toNat, b) :: after)) ∧
    ∀ before after, ((⟨config, .uninitialized⟩ : Pool).run requests).2.chain =
        .ok (before ++ (handle.index.toNat, b) :: after) →
      ∃ q, ((⟨config, .uninitialized⟩ : Pool).run requests).2.Frees handle before b after q := by
  have fresh : (⟨config, .uninitialized⟩ : Pool).Sound := nofun
  have sound := fresh.run requests
  generalize ((⟨config, .uninitialized⟩ : Pool).run requests).2 = p at live sound ⊢
  obtain ⟨heap, cells, rfl, h⟩ := sound.exists_ready (isReady_of_block live)
  have named := range?_of_block live
  have listed : (⟨heap.config, .ready heap⟩ : Pool).chain = .ok cells :=
    congrArg Except.ok h.chains.chain_eq
  rw [listed]
  constructor
  · obtain ⟨before, after, split⟩ :=
      List.append_of_mem (mem_usedCells.mp (h.range?_eq_some_iff.mp named).1).1
    exact ⟨before, after, congrArg Except.ok split⟩
  · rintro before after ⟨⟩
    exact ⟨_, frees_ready h named⟩

theorem run_frees_middle :
    ∃ q, ((⟨.debug, .uninitialized⟩ : Pool).run [.setUp 16, .allocate 4, .allocate 4,
        .allocate 4, .deallocate ⟨0, 0⟩, .deallocate ⟨2, 0⟩]).2.Frees ⟨1, 0⟩
      [(0, ⟨0, 4, true⟩)] ⟨4, 4, false⟩ [(2, ⟨8, 8, true⟩)] q :=
  (run_frees rfl).2 _ _ rfl

end Pool

end BlockPool
