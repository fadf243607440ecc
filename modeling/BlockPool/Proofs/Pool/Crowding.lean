import BlockPool.Proofs.Layout.Crowding
import BlockPool.Proofs.Pool.Accounts
import BlockPool.Proofs.Pool.Coalescence
import BlockPool.Proofs.Pool.Recut

/-!
# How many records a pool keeps

The records of a pool are bounded by its size and by the largest number of
handles that were out at the same time, if free neighbours are merged both
ways, if no block is empty, or if no empty rest is kept.  A pool that merges
forward only and keeps empty rests has no such bound: two handles are enough
to leave one more empty record at its end, again and again.
-/

namespace BlockPool

/-! ## The most handles that were out -/

namespace Pool

def mostOut (out : List Handle) : List Entry → Nat
  | [] => out.length
  | entry :: rest => max out.length (mostOut (settle out entry) rest)

def mostOutstanding (p : Pool) (requests : List Request) : Nat :=
  mostOut [] (p.history requests)

theorem length_le_mostOut (out : List Handle) (entries : List Entry) :
    out.length ≤ mostOut out entries := by
  cases entries with
  | nil => exact Nat.le_refl _
  | cons entry rest => exact Nat.le_max_left ..

theorem length_foldl_settle_le (out : List Handle) (entries : List Entry) :
    (entries.foldl settle out).length ≤ mostOut out entries := by
  induction entries generalizing out with
  | nil => exact Nat.le_refl _
  | cons entry rest ih => exact Nat.le_trans (ih _) (Nat.le_max_right ..)

theorem mostOut_append (out : List Handle) (xs ys : List Entry) :
    mostOut out (xs ++ ys) = max (mostOut out xs) (mostOut (xs.foldl settle out) ys) := by
  induction xs generalizing out with
  | nil => exact (Nat.max_eq_right (length_le_mostOut out ys)).symm
  | cons entry rest ih =>
      rw [List.cons_append, mostOut, mostOut, ih, List.foldl_cons, Nat.max_assoc]

theorem history_append (p : Pool) (first rest : List Request) :
    p.history (first ++ rest) = p.history first ++ (p.run first).2.history rest := by
  induction first generalizing p with
  | nil => rfl
  | cons request first ih =>
      rw [List.cons_append, history_cons, history_cons, ih, run_cons, List.cons_append]

end Pool

namespace Heap

open Layout

variable {heap : Heap} {cells cells' : List Cell} {request : Pool.Request}
  {out : List Handle} {most whole : Nat}

/-! ## Bounds that every step keeps -/

theorem Recut.anchored (recut : heap.Recut cells request cells')
    (merges : heap.config.coalesce = .forward) (sized : request ≠ .allocate 0)
    (anchored : Anchored (cells.map Prod.snd)) : Anchored (cells'.map Prod.snd) := by
  cases recut with
  | same => exact anchored
  | claimed size before i b after split fit _ =>
      subst split
      have positive : 0 < size := Nat.pos_of_ne_zero fun zero => sized (zero ▸ rfl)
      exact anchored_claimed anchored (fits_iff.mp fit).1 positive
  | released handle before i b after split inUse =>
      subst split
      rw [merges]
      exact anchored_forward anchored inUse
  | moved handle size before i b after front j c back split fit first positive again inUse =>
      subst split
      rw [merges]
      exact anchored_forward
        (again ▸ anchored_claimed anchored (fits_iff.mp fit).1 positive) inUse

theorem Sound.anchored_run (h : heap.Sound cells)
    (merges : heap.config.coalesce = .forward) (anchored : Anchored heap.layout.blocks)
    {requests : List Pool.Request} (sized : .allocate 0 ∉ requests) :
    Anchored (requests.foldl Heap.serve heap).layout.blocks := by
  induction requests generalizing heap cells with
  | nil => exact anchored
  | cons request rest ih =>
      rw [List.mem_cons, not_or] at sized
      obtain ⟨cells', recut, next⟩ := h.recut request
      have same := (h.change request).config_eq
      rw [h.chains.blocks_eq] at anchored
      refine ih next (same ▸ merges) ?_ sized.2
      rw [next.chains.blocks_eq]
      exact recut.anchored merges (Ne.symm sized.1) anchored

theorem Recut.spread (recut : heap.Recut cells request cells')
    (drops : heap.config.recordEmptyRemainder = false)
    (covers : Covers 0 (cells.map Prod.snd) whole)
    (few : (usedCells cells').length ≤ most)
    (spread : Spread whole most (cells.map Prod.snd)) :
    Spread whole most (cells'.map Prod.snd) := by
  cases recut with
  | same => exact spread
  | claimed size before i b after split fit first =>
      subst split
      rw [drops] at few ⊢
      exact spread_claimed spread covers first fun _ => few
  | released handle before i b after split inUse =>
      subst split
      exact spread.sublist (offsets_released ..)
  | moved handle size before i b after front j c back split fit first positive again inUse =>
      subst split
      rw [drops] at again
      have middle : Spread whole most ((before ++
          Layout.claimed false heap.layout.nextIndex size (i, b) ++ after).map Prod.snd) :=
        spread_claimed spread covers first fun zero => by omega
      rw [again] at middle
      exact middle.sublist (offsets_released ..)

theorem Lends.usedCount_eq (lends : heap.Lends out) :
    usedCount heap.layout.blocks = out.length := by
  obtain ⟨cells, sound, perm⟩ := lends
  rw [sound.chains.blocks_eq, usedCount_map, perm.length_eq, length_usedHandles]

theorem Lends.spread_run (lends : heap.Lends out)
    (drops : heap.config.recordEmptyRemainder = false) (config : Config)
    {requests : List Pool.Request} (isOpen : .close ∉ requests)
    (few : Pool.mostOut out ((⟨config, .ready heap⟩ : Pool).history requests) ≤ most)
    (spread : Spread heap.size most heap.layout.blocks) :
    Spread heap.size most (requests.foldl Heap.serve heap).layout.blocks := by
  induction requests generalizing heap out with
  | nil => exact spread
  | cons request rest ih =>
      rw [List.mem_cons, not_or] at isOpen
      have going : request ≠ .close := Ne.symm isOpen.1
      obtain ⟨cells, sound, perm⟩ := lends
      obtain ⟨cells', recut, next⟩ := sound.recut request
      have change := sound.change request
      have lends := (sound.outcome config going).lends sound perm
      rw [Pool.history_cons, Pool.perform_ready going, Pool.mostOut] at few
      have later := Nat.le_trans (Nat.le_max_right ..) few
      rw [sound.chains.blocks_eq] at spread
      rw [← change.size_eq]
      refine ih lends (change.config_eq ▸ drops) isOpen.2 later ?_
      rw [next.chains.blocks_eq, change.size_eq]
      refine recut.spread drops sound.covers ?_ spread
      rw [← usedCount_map, ← next.chains.blocks_eq, lends.usedCount_eq]
      exact Nat.le_trans (Pool.length_le_mostOut ..) later

/-! ## One more empty record a round -/

variable {before after : List Cell} {i size empty : Nat} {b : Block}

theorem Sound.allocate_keeping (h : heap.Sound (before ++ (i, b) :: after))
    (keeps : heap.config.recordEmptyRemainder = true) (fit : fits size b = true)
    (unfit : ∀ c ∈ before.map Prod.snd, fits size c = false) :
    heap.allocate size = (.ok (heap.layout.handleOf i), heap.placed i size) ∧
      (heap.placed i size).Sound
        (before ++ (i, ⟨b.offset, size, false⟩) ::
          (heap.layout.nextIndex, ⟨b.offset + size, b.size - size, true⟩) :: after) ∧
      (heap.placed i size).layout.slotCount ≤
        max heap.layout.slotCount ((before ++ (i, b) :: after).length + 1) := by
  have placed := h.placed_cells fit
  refine ⟨h.allocate_of_fit (by simp) fit (h.chains.firstFit?_of_split fit unfit), ?_, ?_⟩
  · simpa [claimed, keeps] using placed
  · rw [Heap.placed, layout_count, layout_claimAt, slotCount_claim h.chains,
      h.chains.length_eq_live]
    split <;> omega

theorem Sound.freed_forward (h : heap.Sound (before ++ (i, b) :: after))
    (merges : heap.config.coalesce = .forward) (inUse : b.free = false) :
    (heap.freed i).Sound (before ++ mergeNext (i, { b with free := true }) after) := by
  have released := h.release inUse
  rw [merges] at released
  exact released.congr (layout_count ..) (size_count ..) (used_count ..)

/-- One free block over everything, and empty ones behind it. -/
structure Littered (heap : Heap) (size empty : Nat) : Prop where
  blocks : ∃ cells, heap.Sound cells ∧
    cells.map Prod.snd = ⟨0, size, true⟩ :: List.replicate empty ⟨size, 0, true⟩
  slots : heap.layout.slotCount ≤ empty + 2
  merges : heap.config.coalesce = .forward
  keeps : heap.config.recordEmptyRemainder = true

/-- The same with the first block in use, and an empty one right behind it. -/
structure Engaged (heap : Heap) (size empty : Nat) (front back : Handle) : Prop where
  blocks : ∃ k rest, heap.Sound ((front.index.toNat, ⟨0, size, false⟩) ::
      (back.index.toNat, ⟨size, 0, false⟩) :: (k, ⟨size, 0, true⟩) :: rest) ∧
    rest.map Prod.snd = List.replicate empty ⟨size, 0, true⟩
  named : heap.range? front = some ⟨0, size, false⟩
  named' : heap.range? back = some ⟨size, 0, false⟩
  other : back ≠ front
  slots : heap.layout.slotCount ≤ empty + 3
  merges : heap.config.coalesce = .forward
  keeps : heap.config.recordEmptyRemainder = true

theorem littered_ofSize {config : Config} (merges : config.coalesce = .forward)
    (keeps : config.recordEmptyRemainder = true) (size : Nat) :
    (Heap.ofSize size config).Littered size 0 where
  blocks := ⟨_, sound_ofSize size config, rfl⟩
  slots := Nat.le_succ 1
  merges := merges
  keeps := keeps

theorem Littered.engage (h : heap.Littered size empty) (small : empty + 3 ≤ UInt32.size) :
    ∃ front middle back next, heap.allocate size = (.ok front, middle) ∧
      middle.allocate 0 = (.ok back, next) ∧ next.Engaged size empty front back := by
  obtain ⟨⟨cells, sound, blocks⟩, slots, merges, keeps⟩ := h
  obtain ⟨⟨i, b⟩, rest, rfl, (rfl : b = _), zeros⟩ := List.map_eq_cons_iff.mp blocks
  have length : rest.length = empty := by simpa using congrArg List.length zeros
  have whole : heap.Sound ([] ++ (i, ⟨0, size, true⟩) :: rest) := sound
  have fit : fits size ⟨0, size, true⟩ = true := by simp [fits]
  have fit' : fits 0 ⟨size, 0, true⟩ = true := rfl
  obtain ⟨first, taken, grown⟩ := whole.allocate_keeping keeps fit (by simp)
  have same : (heap.placed i size).config = heap.config := config_placed ..
  have half : (heap.placed i size).Sound
      ([(i, ⟨0, size, false⟩)] ++ (heap.layout.nextIndex, ⟨size, 0, true⟩) :: rest) := by
    simpa using taken
  generalize heap.layout.nextIndex = j at *
  obtain ⟨second, both, grown'⟩ :=
    half.allocate_keeping (same ▸ keeps) fit' (by simp [fits])
  have here : (i, ⟨0, size, true⟩) ∈ [] ++ (i, ⟨0, size, true⟩) :: rest := by simp
  have there : (j, ⟨size, 0, true⟩) ∈
      [(i, ⟨0, size, false⟩)] ++ (j, ⟨size, 0, true⟩) :: rest := by simp
  have lowI := whole.chains.lt_slotCount here
  have lowJ := half.chains.lt_slotCount there
  simp only [List.length_append, List.length_cons, List.length_nil, length] at grown grown'
  have smallI : i < UInt32.size := by omega
  have smallJ : j < UInt32.size := by omega
  have indexI : (heap.layout.handleOf i).index.toNat = i := UInt32.toNat_ofNat_of_lt' smallI
  have indexJ : ((heap.placed i size).layout.handleOf j).index.toNat = j :=
    UInt32.toNat_ofNat_of_lt' smallJ
  have other : (heap.placed i size).layout.handleOf j ≠ heap.layout.handleOf i := by
    intro equal
    have distinct := (List.nodup_cons.mp half.chains.nodup).1
    rw [← indexI, ← indexJ, equal] at distinct
    simp at distinct
  refine ⟨_, _, _, _, first, second, ⟨?_, ?_, ?_, other, by omega, ?_, ?_⟩⟩
  · rw [indexI, indexJ]
    exact ⟨_, rest, both, zeros⟩
  · rw [half.range?_placed there fit' smallJ, if_neg (Ne.symm other),
      whole.range?_placed here fit smallI, if_pos rfl]
  · rw [half.range?_placed there fit' smallJ, if_pos rfl]
  · simpa [Heap.placed] using merges
  · simpa [Heap.placed] using keeps

theorem Engaged.disengage {front back : Handle} (h : heap.Engaged size empty front back) :
    (heap.freed front.index.toNat).range? back = some ⟨size, 0, false⟩ ∧
      ((heap.freed front.index.toNat).freed back.index.toNat).Littered size (empty + 1) := by
  obtain ⟨⟨k, rest, sound, zeros⟩, named, named', other, slots, merges, keeps⟩ := h
  have whole : heap.Sound ([] ++ (front.index.toNat, ⟨0, size, false⟩) ::
    (back.index.toNat, ⟨size, 0, false⟩) :: (k, ⟨size, 0, true⟩) :: rest) := sound
  have half : (heap.freed front.index.toNat).Sound
      ([(front.index.toNat, ⟨0, size, true⟩)] ++ (back.index.toNat, ⟨size, 0, false⟩) ::
        (k, ⟨size, 0, true⟩) :: rest) := whole.freed_forward merges rfl
  have same (i : Nat) (heap : Heap) : (heap.freed i).config = heap.config := by
    simp [Heap.freed]
  have merges' : (heap.freed front.index.toNat).config.coalesce = .forward := by
    rwa [same]
  refine ⟨?_, ⟨_, half.freed_forward merges' rfl, ?_⟩, ?_, ?_, ?_⟩
  · rw [whole.range?_freed named, if_neg other, named']
  · simp [mergeNext, grow, zeros, List.replicate_succ]
  · simp only [Heap.freed, layout_count, slotCount_release]
    exact slots
  · rwa [same, same]
  · rwa [same, same]

theorem Littered.round (h : heap.Littered size empty) (small : empty + 3 ≤ UInt32.size)
    (config : Config) :
    ∃ requests, .close ∉ requests ∧
      (requests.foldl Heap.serve heap).Littered size (empty + 1) ∧
      Pool.mostOut [] ((⟨config, .ready heap⟩ : Pool).history requests) ≤ 2 ∧
      ((⟨config, .ready heap⟩ : Pool).history requests).foldl Pool.settle [] = [] := by
  obtain ⟨front, middle, back, next, first, second, engaged⟩ := h.engage small
  obtain ⟨still, littered⟩ := engaged.disengage
  have entries : (⟨config, .ready heap⟩ : Pool).history
      [.allocate size, .allocate 0, .deallocate front, .deallocate back] =
      [(.allocate size, .ok (.handle front)), (.allocate 0, .ok (.handle back)),
        (.deallocate front, .ok .done), (.deallocate back, .ok .done)] := by
    rw [Pool.history_cons, Pool.perform_allocate first, Pool.history_cons,
      Pool.perform_allocate second, Pool.history_cons, Pool.perform_deallocate engaged.named,
      Pool.history_cons, Pool.perform_deallocate still]
    rfl
  have settled : [back, front].erase front = [back] := by
    rw [List.erase_cons_tail (by simpa using engaged.other), List.erase_cons_head]
  refine ⟨[.allocate size, .allocate 0, .deallocate front, .deallocate back], by simp, ?_, ?_, ?_⟩
  · simpa [Heap.serve, first, second, deallocate_eq, engaged.named, still] using littered
  · simp [entries, Pool.mostOut, Pool.settle, settled]
  · simp [entries, Pool.settle, settled]

theorem Littered.rounds (h : heap.Littered size 0) (config : Config)
    (small : empty + 2 ≤ UInt32.size) :
    ∃ requests, .close ∉ requests ∧
      (requests.foldl Heap.serve heap).Littered size empty ∧
      Pool.mostOut [] ((⟨config, .ready heap⟩ : Pool).history requests) ≤ 2 ∧
      ((⟨config, .ready heap⟩ : Pool).history requests).foldl Pool.settle [] = [] := by
  induction empty with
  | zero => exact ⟨[], by simp, h, by simp [Pool.history, Pool.mostOut], rfl⟩
  | succ empty ih =>
      obtain ⟨before, isOpen, littered, few, settled⟩ := ih (by omega)
      obtain ⟨last, isOpen', littered', few', settled'⟩ := littered.round (by omega) config
      refine ⟨before ++ last, by simp [isOpen, isOpen'], ?_, ?_, ?_⟩
      · rw [List.foldl_append]
        exact littered'
      · rw [Pool.history_append, Pool.mostOut_append, settled, Pool.run_ready isOpen]
        exact Nat.max_le.mpr ⟨few, few'⟩
      · rw [Pool.history_append, List.foldl_append, settled, Pool.run_ready isOpen]
        exact settled'

theorem Littered.live_eq (h : heap.Littered size empty) : heap.layout.live = empty + 1 := by
  obtain ⟨cells, sound, blocks⟩ := h.blocks
  simpa [sound.chains.length_eq_live] using congrArg List.length blocks

end Heap

namespace Pool

variable {config : Config}

theorem run_block_count {p : Pool} {size : Nat}
    (opened : (⟨config, .uninitialized⟩ : Pool).setUp size = (.ok (), p)) :
    (∀ requests, .close ∉ requests →
      ∃ s, (p.run requests).2.statistics = .ok s ∧
        (config.coalesce = .bidirectional ∨ .allocate 0 ∉ requests →
          s.blockCount ≤ size + 2 * p.mostOutstanding requests + 1) ∧
        (config.recordEmptyRemainder = false →
          s.blockCount ≤ size * (p.mostOutstanding requests + 1))) ∧
    (config.coalesce = .forward → config.recordEmptyRemainder = true →
      ∀ records, 0 < records → records < UInt32.size →
        ∃ requests, .close ∉ requests ∧ p.mostOutstanding requests ≤ 2 ∧
          ∃ s, (p.run requests).2.statistics = .ok s ∧ s.blockCount = records) := by
  obtain ⟨positive, rfl⟩ := ready_of_setUp opened
  have start := Heap.sound_ofSize size config
  have none := Heap.lends_ofSize size config
  refine ⟨fun requests isOpen => ?_, fun merges keeps records some few => ?_⟩
  · obtain ⟨cells, sound, total, _⟩ := start.foldl_serve requests
    have lends := none.run config isOpen
    have most : usedCount (requests.foldl Heap.serve (Heap.ofSize size config)).layout.blocks ≤
        mostOutstanding ⟨config, .ready (.ofSize size config)⟩ requests := by
      rw [lends.usedCount_eq]
      exact length_foldl_settle_le ..
    have live : (requests.foldl Heap.serve (Heap.ofSize size config)).layout.live =
        (requests.foldl Heap.serve (Heap.ofSize size config)).layout.blocks.length := by
      rw [sound.chains.blocks_eq, List.length_map, sound.chains.length_eq_live]
    have covers := sound.covers_blocks
    rw [total, Heap.size_ofSize] at covers
    rw [run_ready isOpen]
    refine ⟨_, rfl, fun sparse => ?_, fun drops => ?_⟩
    · refine Nat.le_trans (Nat.le_of_eq live) ?_
      cases merges : config.coalesce with
      | bidirectional =>
          have bound := (start.coalesced_run merges (Heap.coalesced_ofSize size config)
            requests).length_le
          omega
      | forward =>
          have sized : .allocate 0 ∉ requests := by simpa [merges] using sparse
          have anchored : Anchored (Heap.ofSize size config).layout.blocks :=
            start.chains.blocks_eq ▸ .singleton positive
          have bound := (start.anchored_run merges anchored sized).length_le covers
          omega
    · have spread : Spread size (mostOutstanding ⟨config, .ready (.ofSize size config)⟩ requests)
          (Heap.ofSize size config).layout.blocks := by
        rw [start.chains.blocks_eq]
        refine ⟨by simpa using positive, fun offset => ?_⟩
        exact Nat.le_trans List.count_le_length (Nat.le_add_left 1 _)
      have bound := none.spread_run drops config isOpen (Nat.le_refl _)
        ((Heap.size_ofSize size config).symm ▸ spread)
      rw [Heap.size_ofSize] at bound
      exact Nat.le_trans (Nat.le_of_eq live) bound.length_le
  · obtain ⟨requests, isOpen, littered, few, _⟩ :=
      (Heap.littered_ofSize merges keeps size).rounds config
        (show records - 1 + 2 ≤ UInt32.size by omega)
    refine ⟨requests, isOpen, few, ?_⟩
    rw [run_ready isOpen]
    refine ⟨_, rfl, littered.live_eq.trans ?_⟩
    omega

theorem run_block_count_reference :
    (∃ s, (Pool.run ⟨.reference, .ready (.ofSize 4 .reference)⟩
        [.allocate 1, .allocate 2, .deallocate ⟨0, 0⟩, .resize ⟨1, 0⟩ 3]).2.statistics = .ok s ∧
      s.blockCount ≤ 4 + 2 * Pool.mostOutstanding ⟨.reference, .ready (.ofSize 4 .reference)⟩
        [.allocate 1, .allocate 2, .deallocate ⟨0, 0⟩, .resize ⟨1, 0⟩ 3] + 1) ∧
    ∃ requests, .close ∉ requests ∧
      Pool.mostOutstanding ⟨.reference, .ready (.ofSize 4 .reference)⟩ requests ≤ 2 ∧
      ∃ s, (Pool.run ⟨.reference, .ready (.ofSize 4 .reference)⟩ requests).2.statistics = .ok s ∧
        s.blockCount = 1000 := by
  have opened : (⟨.reference, .uninitialized⟩ : Pool).setUp 4 =
      (.ok (), ⟨.reference, .ready (.ofSize 4 .reference)⟩) := setUp_of_pos (by decide)
  obtain ⟨bounds, rounds⟩ := run_block_count opened
  obtain ⟨s, read, bound, _⟩ := bounds
    [.allocate 1, .allocate 2, .deallocate ⟨0, 0⟩, .resize ⟨1, 0⟩ 3] (by decide)
  exact ⟨⟨s, read, bound (.inr (by decide))⟩, rounds rfl rfl 1000 (by decide) (by decide)⟩

def rounds : List Request :=
  (List.range 6).flatMap fun k =>
    [.allocate 1, .allocate 0, .deallocate ⟨0, UInt32.ofNat k⟩,
      .deallocate ⟨UInt32.ofNat (k + 1), UInt32.ofNat (min k 1)⟩]

def spell (size : Nat) (handles : List Handle) : List Request :=
  .allocate size :: List.replicate 5 (.allocate 0) ++ .allocate 1 :: handles.map .deallocate

/-- Four spells on five bytes, where empty rests are dropped. -/
def spells : List Request :=
  spell 4 [⟨0, 0⟩, ⟨1, 0⟩, ⟨2, 0⟩, ⟨3, 0⟩, ⟨4, 0⟩, ⟨5, 0⟩, ⟨6, 0⟩] ++
    spell 3 [⟨0, 1⟩, ⟨7, 0⟩, ⟨8, 0⟩, ⟨9, 0⟩, ⟨10, 0⟩, ⟨11, 0⟩, ⟨12, 0⟩] ++
    spell 2 [⟨0, 2⟩, ⟨1, 2⟩, ⟨13, 0⟩, ⟨14, 0⟩, ⟨15, 0⟩, ⟨16, 0⟩, ⟨17, 0⟩] ++
    spell 1 [⟨0, 3⟩, ⟨7, 2⟩, ⟨18, 0⟩, ⟨19, 0⟩, ⟨20, 0⟩, ⟨21, 0⟩, ⟨22, 0⟩]

def dropping : Config := { Config.reference with recordEmptyRemainder := false }

theorem block_count_exceeds :
    (∃ s, (Pool.run ⟨.reference, .ready (.ofSize 1 .reference)⟩ rounds).2.statistics = .ok s ∧
      s.blockCount = 7 ∧
      1 + 2 * Pool.mostOutstanding ⟨.reference, .ready (.ofSize 1 .reference)⟩ rounds + 1 = 6) ∧
    ∃ s, (Pool.run ⟨dropping, .ready (.ofSize 5 dropping)⟩ spells).2.statistics = .ok s ∧
      s.blockCount = 22 ∧
      5 + 2 * Pool.mostOutstanding ⟨dropping, .ready (.ofSize 5 dropping)⟩ spells + 1 = 20 := by
  refine ⟨⟨_, rfl, ?_, ?_⟩, ⟨_, rfl, ?_, ?_⟩⟩ <;> decide +kernel

end Pool

end BlockPool
