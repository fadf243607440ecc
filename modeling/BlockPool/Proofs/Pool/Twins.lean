import BlockPool.Proofs.Pool.Accounts
import BlockPool.Proofs.Pool.Coalescence
import BlockPool.Proofs.Pool.Names
import BlockPool.Proofs.Pool.Recut

/-!
# Heaps that show the same

Two heaps that merge both ways and differ only in whether empty rests are kept
are twins when both show the same used blocks under the same names, the same
free blocks apart from empty ones, and the same bytes.  Their records, slots and
generations may differ.  Every operation on corresponding handles takes twins
to twins, as long as no empty block is asked for.
-/

namespace BlockPool

open Layout

namespace Heap

variable {heap heap' : Heap} {cells cells' before after front back : List Cell}
  {answers answers' : Pool.Answers} {i j size step : Nat} {b c : Block}
  {handle handle' : Handle} {result result' : Except PoolError Pool.Reply}

/-! ## Heaps without empty used blocks -/

structure Steady (heap : Heap) (cells : List Cell) : Prop where
  sound : heap.Sound cells
  merges : heap.config.coalesce = .bidirectional
  coalesced : Coalesced (cells.map Prod.snd)
  sized : ∀ cell ∈ usedCells cells, 0 < cell.2.size

theorem Steady.congr {next : Heap} (h : heap.Steady cells) (layout : next.layout = heap.layout)
    (size : next.size = heap.size) (used : next.used = heap.used)
    (config : next.config = heap.config) : next.Steady cells where
  sound := h.sound.congr layout size used
  merges := config ▸ h.merges
  coalesced := h.coalesced
  sized := h.sized

theorem Steady.count (h : heap.Steady cells) (change : Counters → Counters) :
    (heap.count change).Steady cells :=
  h.congr (layout_count ..) (size_count ..) (used_count ..) (config_count ..)

theorem Steady.claimAt (h : heap.Steady (before ++ (i, b) :: after)) (fit : fits size b = true)
    (positive : 0 < size) :
    (heap.claimAt i size).Steady
      (before ++ claimed heap.config.recordEmptyRemainder heap.layout.nextIndex size (i, b) ++
        after) where
  sound := h.sound.claimAt fit
  merges := by
    rw [config_claimAt]
    exact h.merges
  coalesced := coalesced_claimed h.coalesced (fits_iff.mp fit).1
  sized := by
    have sized := h.sized
    have free := (fits_iff.mp fit).1
    simp only [usedCells_append, usedCells_claimed, usedCells_cons, free,
      List.mem_append] at sized ⊢
    grind

theorem Steady.release (h : heap.Steady (before ++ (i, b) :: after)) (inUse : b.free = false) :
    (heap.release i).2.Steady (released .bidirectional before i b after) where
  sound := h.merges ▸ h.sound.release inUse
  merges := by
    rw [config_release]
    exact h.merges
  coalesced := coalesced_released h.coalesced
  sized cell used := by
    refine h.sized cell ?_
    rw [usedCells_released] at used
    rw [usedCells_append, usedCells_cons, inUse]
    grind

/-- The heaps show the same blocks under the same names, and have the same bytes and counters. -/
structure Twins (heap : Heap) (cells : List Cell) (answers : Pool.Answers) (heap' : Heap)
    (cells' : List Cell) (answers' : Pool.Answers) : Prop where
  steady : heap.Steady cells
  steady' : heap'.Steady cells'
  shows : view (heap.names answers) cells = view (heap'.names answers') cells'
  agree : answers.anonymous = answers'.anonymous
  buffer : heap.buffer = heap'.buffer
  counters : heap.counters = heap'.counters
  config : ∃ keeps, heap'.config = { heap.config with recordEmptyRemainder := keeps }

namespace Twins

theorem symm (t : Twins heap cells answers heap' cells' answers') :
    Twins heap' cells' answers' heap cells answers where
  steady := t.steady'
  steady' := t.steady
  shows := t.shows.symm
  agree := t.agree.symm
  buffer := t.buffer.symm
  counters := t.counters.symm
  config := by
    obtain ⟨keeps, same⟩ := t.config
    exact ⟨heap.config.recordEmptyRemainder, by rw [same]⟩

section Figures

variable (t : Twins heap cells answers heap' cells' answers')
include t

theorem blocks_shown : heap.layout.blocks.filter Block.isShown =
    heap'.layout.blocks.filter Block.isShown := by
  rw [t.steady.sound.chains.blocks_eq, t.steady'.sound.chains.blocks_eq, ← map_view, ← map_view,
    t.shows]

theorem used_eq : heap.used = heap'.used := by
  have blocks := t.blocks_shown
  rw [t.steady.sound.chains.blocks_eq, t.steady'.sound.chains.blocks_eq] at blocks
  rw [t.steady.sound.used_eq, t.steady'.sound.used_eq, ← usedTotal_shown, blocks,
    usedTotal_shown]

theorem largestFree_eq : heap.largestFree = heap'.largestFree :=
  largestFree_of_shown t.blocks_shown

theorem noRoom_eq (size : Nat) : heap.noRoom size = heap'.noRoom size := by
  rw [noRoom, noRoom, t.largestFree_eq]

theorem firstFit?_eq_none (positive : 0 < size) (full : heap.layout.firstFit? size = none) :
    heap'.layout.firstFit? size = none := by
  rw [t.steady'.sound.chains.firstFit?_eq_none_iff]
  exact unfit_of_view t.shows positive (t.steady.sound.chains.firstFit?_eq_none_iff.mp full)

theorem exists_firstFit? (positive : 0 < size) (found : heap.layout.firstFit? size = some i) :
    ∃ before b after front j back, cells = before ++ (i, b) :: after ∧
      cells' = front ++ (j, b) :: back ∧ fits size b = true ∧
      heap'.layout.firstFit? size = some j ∧
      view (heap.names answers) before = view (heap'.names answers') front ∧
      view (heap.names answers) after = view (heap'.names answers') back := by
  obtain ⟨before, b, after, rfl, fit, unfit⟩ := t.steady.sound.chains.split_of_firstFit? found
  have seen : b.isShown = true :=
    Block.isShown_of_pos (Nat.lt_of_lt_of_le positive (fits_iff.mp fit).2)
  obtain ⟨front, j, back, rfl, left, right, _⟩ := exists_split_of_view t.shows seen
  refine ⟨before, b, after, front, j, back, rfl, rfl, fit, ?_, left, right⟩
  apply t.steady'.sound.chains.firstFit?_of_split fit
  rw [List.forall_mem_map]
  exact unfit_of_view left positive unfit

theorem exists_named (slots' : heap'.layout.slotCount < UInt32.size)
    (given : answers.handle? step = some handle) (given' : answers'.handle? step = some handle')
    (named : heap.range? handle = some b) :
    ∃ before after front back, cells = before ++ (handle.index.toNat, b) :: after ∧
      cells' = front ++ (handle'.index.toNat, b) :: back ∧ b.free = false ∧
      heap'.range? handle' = some b ∧
      view (heap.names answers) before = view (heap'.names answers') front ∧
      view (heap.names answers) after = view (heap'.names answers') back ∧
      heap.names answers handle.index.toNat = heap'.names answers' handle'.index.toNat := by
  obtain ⟨member, (inUse : b.free = false)⟩ :=
    mem_usedCells.mp (t.steady.sound.range?_eq_some_iff.mp named).1
  obtain ⟨before, after, rfl⟩ := List.append_of_mem member
  obtain ⟨front, j, back, rfl, left, right, same⟩ :=
    exists_split_of_view t.shows (Block.isShown_of_used inUse)
  have used : (j, b) ∈ usedCells (front ++ (j, b) :: back) :=
    mem_usedCells.mpr ⟨by simp, inUse⟩
  have small := t.steady'.sound.small slots' used
  have own : heap.names answers handle.index.toNat step := by
    rw [names, t.steady.sound.handleOf_eq named]
    exact given
  rw [same inUse, names, given', Option.some.injEq] at own
  have slot : handle'.index.toNat = j := by
    rw [own]
    exact UInt32.toNat_ofNat_of_lt' small
  refine ⟨before, after, front, back, rfl, by rw [slot], inUse, ?_, left, right, ?_⟩
  · rw [own]
    exact t.steady'.sound.range?_handleOf used small
  · rw [slot]
    exact same inUse

theorem range?_eq (slots : heap.layout.slotCount < UInt32.size)
    (slots' : heap'.layout.slotCount < UInt32.size)
    (given : answers.handle? step = some handle)
    (given' : answers'.handle? step = some handle') :
    heap.range? handle = heap'.range? handle' := by
  cases named : heap.range? handle with
  | some b =>
      obtain ⟨_, _, _, _, _, _, _, named', _⟩ := t.exists_named slots' given given' named
      exact named'.symm
  | none =>
      cases named' : heap'.range? handle' with
      | none => rfl
      | some b =>
          obtain ⟨_, _, _, _, _, _, _, again, _⟩ := t.symm.exists_named slots given' given named'
          rw [named] at again
          cases again

end Figures

/-! ## The parts of an operation -/

theorem answer (t : Twins heap cells answers heap' cells' answers')
    {answer answer' : Option (Except PoolError Pool.Reply)}
    (alike : answer.map Pool.anonymous = answer'.map Pool.anonymous)
    (other : ∀ handle, answer ≠ some (.ok (.handle handle)))
    (other' : ∀ handle, answer' ≠ some (.ok (.handle handle))) :
    Twins heap cells (answers ++ [answer]) heap' cells' (answers' ++ [answer']) where
  steady := t.steady
  steady' := t.steady'
  shows := by
    rw [names_concat_of_ne other, names_concat_of_ne other']
    exact t.shows
  agree := Pool.Answers.anonymous_concat t.agree alike
  buffer := t.buffer
  counters := t.counters
  config := t.config

theorem count (t : Twins heap cells answers heap' cells' answers')
    (change : Counters → Counters) :
    Twins (heap.count change) cells answers (heap'.count change) cells' answers' where
  steady := t.steady.count change
  steady' := t.steady'.count change
  shows := by
    rw [names_of_layout (layout_count ..), names_of_layout (layout_count ..)]
    exact t.shows
  agree := t.agree
  buffer := by
    rw [buffer_count, buffer_count]
    exact t.buffer
  counters := by
    obtain ⟨keeps, config⟩ := t.config
    rw [counters_count, counters_count, t.counters, config]
  config := by
    rw [config_count, config_count]
    exact t.config

theorem written (t : Twins heap cells answers heap' cells' answers') (start : Nat)
    (data : List UInt8) :
    Twins (heap.written start data) cells answers (heap'.written start data) cells' answers' where
  steady := t.steady.congr rfl (Buffer.size_overwrite ..) rfl rfl
  steady' := t.steady'.congr rfl (Buffer.size_overwrite ..) rfl rfl
  shows := t.shows
  agree := t.agree
  buffer := congrArg (·.overwrite start data) t.buffer
  counters := t.counters
  config := t.config

theorem copy (t : Twins heap cells answers heap' cells' answers') (source target length : Nat) :
    Twins (heap.copy source target length) cells answers (heap'.copy source target length) cells'
      answers' := by
  have same : heap'.copy source target length =
      heap'.written target (heap.buffer.slice source length) := by
    rw [t.buffer]
    rfl
  rw [same]
  exact t.written target _

theorem kept (t : Twins heap cells answers heap' cells' answers')
    (slots : heap.layout.slotCount < UInt32.size)
    (slots' : heap'.layout.slotCount < UInt32.size)
    (given : answers.handle? step = some handle) (given' : answers'.handle? step = some handle')
    (named : heap.range? handle = some b) :
    Twins heap cells (answers ++ [some (.ok (.handle handle))]) heap' cells'
      (answers' ++ [some (.ok (.handle handle'))]) where
  steady := t.steady
  steady' := t.steady'
  shows := by
    have own := t.steady.sound.handleOf_eq named
    obtain ⟨before, after, front, back, rfl, rfl, inUse, named', left, right, same⟩ :=
      t.exists_named slots' given given' named
    have own' := t.steady'.sound.handleOf_eq named'
    have kept := t.steady.sound.view_kept slots inUse answers
    have kept' := t.steady'.sound.view_kept slots' inUse answers'
    rw [own] at kept
    rw [own'] at kept'
    rw [kept, kept', left, right, same, Pool.Answers.length_eq t.agree]
  agree := Pool.Answers.anonymous_concat t.agree rfl
  buffer := t.buffer
  counters := t.counters
  config := t.config

theorem claimAt
    (t : Twins heap (before ++ (i, b) :: after) answers heap' (front ++ (j, b) :: back) answers')
    (slots : heap.layout.slotCount < UInt32.size)
    (slots' : heap'.layout.slotCount < UInt32.size) (fit : fits size b = true)
    (positive : 0 < size)
    (left : view (heap.names answers) before = view (heap'.names answers') front)
    (right : view (heap.names answers) after = view (heap'.names answers') back)
    (fresh : ∀ step, answers.handle? step ≠ some (heap.layout.handleOf i))
    (fresh' : ∀ step, answers'.handle? step ≠ some (heap'.layout.handleOf j)) :
    ∃ next next',
      Twins (heap.claimAt i size) next
        (answers ++ [some (.ok (.handle (heap.layout.handleOf i)))])
        (heap'.claimAt j size) next'
        (answers' ++ [some (.ok (.handle (heap'.layout.handleOf j)))]) := by
  obtain ⟨keeps, config⟩ := t.config
  have here : (i, b) ∈ before ++ (i, b) :: after := by simp
  have there : (j, b) ∈ front ++ (j, b) :: back := by simp
  refine ⟨_, _, t.steady.claimAt fit positive, t.steady'.claimAt fit positive, ?_, ?_, ?_, ?_, ?_⟩
  · rw [t.steady.sound.view_claimAt slots fresh, t.steady'.sound.view_claimAt slots' fresh', left,
      right, Pool.Answers.length_eq t.agree]
  · exact Pool.Answers.anonymous_concat t.agree rfl
  · rw [t.steady.sound.buffer_claimAt here, t.steady'.sound.buffer_claimAt there, t.buffer, config]
  · rw [t.steady.sound.counters_claimAt here, t.steady'.sound.counters_claimAt there, t.counters,
      t.used_eq, config]
  · rw [config_claimAt, config_claimAt]
    exact t.config

theorem release (t : Twins heap cells answers heap' cells' answers')
    (slots' : heap'.layout.slotCount < UInt32.size)
    (given : answers.handle? step = some handle) (given' : answers'.handle? step = some handle')
    (named : heap.range? handle = some b) :
    ∃ next next',
      Twins (heap.release handle.index.toNat).2 next answers
        (heap'.release handle'.index.toNat).2 next' answers' := by
  obtain ⟨before, after, front, back, rfl, rfl, inUse, named', left, right, _⟩ :=
    t.exists_named slots' given given' named
  obtain ⟨keeps, config⟩ := t.config
  have here : (handle.index.toNat, b) ∈ before ++ (handle.index.toNat, b) :: after := by simp
  have there : (handle'.index.toNat, b) ∈ front ++ (handle'.index.toNat, b) :: back := by simp
  have positive := t.steady.sized _ (mem_usedCells.mpr ⟨here, inUse⟩)
  refine ⟨_, _, t.steady.release inUse, t.steady'.release inUse, ?_, t.agree, ?_, ?_, ?_⟩
  · rw [t.steady.sound.view_release t.steady.coalesced inUse positive,
      t.steady'.sound.view_release t.steady'.coalesced inUse positive, left, right]
  · rw [t.steady.sound.buffer_release here, t.steady'.sound.buffer_release there, t.buffer, config]
  · rw [counters_release, counters_release, t.counters]
  · rw [config_release, config_release]
    exact t.config

theorem moved
    (t : Twins heap (before ++ (i, c) :: after) answers heap' (front ++ (j, c) :: back) answers')
    (slots : heap.layout.slotCount < UInt32.size)
    (slots' : heap'.layout.slotCount < UInt32.size)
    (roomy : (heap'.moved handle'.index.toNat b (j, c) size).layout.slotCount < UInt32.size)
    (given : answers.handle? step = some handle) (given' : answers'.handle? step = some handle')
    (named : heap.range? handle = some b) (fit : fits size c = true) (positive : 0 < size)
    (left : view (heap.names answers) before = view (heap'.names answers') front)
    (right : view (heap.names answers) after = view (heap'.names answers') back)
    (fresh : ∀ step, answers.handle? step ≠ some (heap.layout.handleOf i))
    (fresh' : ∀ step, answers'.handle? step ≠ some (heap'.layout.handleOf j)) :
    ∃ next next',
      Twins (heap.moved handle.index.toNat b (i, c) size) next
        (answers ++ [some (.ok (.handle (heap.layout.handleOf i)))])
        (heap'.moved handle'.index.toNat b (j, c) size) next'
        (answers' ++ [some (.ok (.handle (heap'.layout.handleOf j)))]) := by
  have here : (i, c) ∈ before ++ (i, c) :: after := by simp
  obtain ⟨_, _, claimed⟩ := t.claimAt slots slots' fit positive left right fresh fresh'
  have copied : Twins (heap.copied b (i, c) size) _ _ (heap'.copied b (j, c) size) _ _ :=
    claimed.copy b.offset c.offset b.size
  rw [Heap.moved, layout_count, slotCount_release] at roomy
  obtain ⟨next, next', released⟩ := copied.release roomy
    (Pool.Answers.handle?_concat.mpr (.inl given))
    (Pool.Answers.handle?_concat.mpr (.inl given'))
    (t.steady.sound.range?_copied named here fit)
  exact ⟨next, next', released.count Counters.addResize⟩

/-! ## Operations -/

theorem noRoom (t : Twins heap cells answers heap' cells' answers') (size : Nat) :
    Twins heap.countFailure cells (answers ++ [some (.error (heap.noRoom size))])
      heap'.countFailure cells' (answers' ++ [some (.error (heap'.noRoom size))]) := by
  rw [t.noRoom_eq]
  exact (t.count fun counters => { counters with failures := counters.failures + 1 }).answer rfl
    nofun nofun

theorem allocate (t : Twins heap cells answers heap' cells' answers')
    (slots : heap.layout.slotCount < UInt32.size)
    (slots' : heap'.layout.slotCount < UInt32.size) (positive : 0 < size)
    (fresh : ∀ new, (heap.allocate size).1 = .ok new → ∀ step, answers.handle? step ≠ some new)
    (fresh' : ∀ new, (heap'.allocate size).1 = .ok new →
      ∀ step, answers'.handle? step ≠ some new) :
    ∃ next next',
      Twins (heap.allocate size).2 next (answers ++ [some ((heap.allocate size).1.map .handle)])
        (heap'.allocate size).2 next'
        (answers' ++ [some ((heap'.allocate size).1.map .handle)]) := by
  cases found : heap.layout.firstFit? size with
  | none =>
      rw [allocate_of_none found, allocate_of_none (t.firstFit?_eq_none positive found)]
      exact ⟨cells, cells', t.noRoom size⟩
  | some i =>
      obtain ⟨before, b, after, front, j, back, rfl, rfl, fit, found', left, right⟩ :=
        t.exists_firstFit? positive found
      have placed := t.steady.sound.allocate_of_fit (by simp) fit found
      have placed' := t.steady'.sound.allocate_of_fit (by simp) fit found'
      rw [placed] at fresh ⊢
      rw [placed'] at fresh' ⊢
      obtain ⟨next, next', claimed⟩ := t.claimAt slots slots' fit positive left right
        (fresh _ rfl) (fresh' _ rfl)
      exact ⟨next, next', claimed.count _⟩

theorem deallocate (t : Twins heap cells answers heap' cells' answers')
    (slots : heap.layout.slotCount < UInt32.size)
    (slots' : heap'.layout.slotCount < UInt32.size)
    (given : answers.handle? step = some handle)
    (given' : answers'.handle? step = some handle') :
    ∃ next next',
      Twins (heap.deallocate handle).2 next
        (answers ++ [some ((heap.deallocate handle).1.map fun _ => .done)])
        (heap'.deallocate handle').2 next'
        (answers' ++ [some ((heap'.deallocate handle').1.map fun _ => .done)]) := by
  rw [deallocate_eq, deallocate_eq, ← t.range?_eq slots slots' given given']
  cases named : heap.range? handle with
  | none => exact ⟨cells, cells', t.answer rfl nofun nofun⟩
  | some b =>
      obtain ⟨next, next', released⟩ := t.release slots' given given' named
      exact ⟨next, next', (released.count _).answer rfl nofun nofun⟩

theorem write (t : Twins heap cells answers heap' cells' answers')
    (slots : heap.layout.slotCount < UInt32.size)
    (slots' : heap'.layout.slotCount < UInt32.size)
    (given : answers.handle? step = some handle)
    (given' : answers'.handle? step = some handle') (offset : Nat) (data : List UInt8) :
    Twins (heap.write handle offset data).2 cells
      (answers ++ [some ((heap.write handle offset data).1.map fun _ => .done)])
      (heap'.write handle' offset data).2 cells'
      (answers' ++ [some ((heap'.write handle' offset data).1.map fun _ => .done)]) := by
  rw [write_eq, write_eq, ← t.range?_eq slots slots' given given']
  cases named : heap.range? handle with
  | none => exact t.answer rfl nofun nofun
  | some b =>
      simp only
      split
      · exact (t.written _ data).answer rfl nofun nofun
      · exact t.answer rfl nofun nofun

theorem resize (t : Twins heap cells answers heap' cells' answers')
    (slots : (heap.resize handle size).2.layout.slotCount < UInt32.size)
    (slots' : (heap'.resize handle' size).2.layout.slotCount < UInt32.size)
    (given : answers.handle? step = some handle)
    (given' : answers'.handle? step = some handle')
    (fresh : ∀ new, (heap.resize handle size).1 = .ok new → new ≠ handle →
      ∀ step, answers.handle? step ≠ some new)
    (fresh' : ∀ new, (heap'.resize handle' size).1 = .ok new → new ≠ handle' →
      ∀ step, answers'.handle? step ≠ some new) :
    ∃ next next',
      Twins (heap.resize handle size).2 next
        (answers ++ [some ((heap.resize handle size).1.map .handle)])
        (heap'.resize handle' size).2 next'
        (answers' ++ [some ((heap'.resize handle' size).1.map .handle)]) := by
  have few := Nat.lt_of_le_of_lt
    (t.steady.sound.slotCount_le_serve (.resize handle size)) slots
  have few' := Nat.lt_of_le_of_lt
    (t.steady'.sound.slotCount_le_serve (.resize handle' size)) slots'
  have same := t.range?_eq few few' given given'
  cases named : heap.range? handle with
  | none =>
      rw [resize_of_none named, resize_of_none (same.symm.trans named)]
      exact ⟨cells, cells', t.answer rfl nofun nofun⟩
  | some b =>
      have named' := same.symm.trans named
      by_cases room : size ≤ b.size
      · rw [resize_of_le named room, resize_of_le named' room]
        exact ⟨cells, cells', t.kept few few' given given' named⟩
      · have larger : b.size < size := Nat.lt_of_not_le room
        have positive : 0 < size := Nat.zero_lt_of_lt larger
        cases found : heap.layout.firstFit? size with
        | none =>
            rw [resize_of_noRoom named larger found,
              resize_of_noRoom named' larger (t.firstFit?_eq_none positive found)]
            exact ⟨cells, cells', t.noRoom size⟩
        | some i =>
            obtain ⟨before, c, after, front, j, back, rfl, rfl, fit, found', left, right⟩ :=
              t.exists_firstFit? positive found
            have here : (i, c) ∈ before ++ (i, c) :: after := by simp
            have there : (j, c) ∈ front ++ (j, c) :: back := by simp
            have moved := t.steady.sound.resize_of_fit named larger here fit found
            have moved' := t.steady'.sound.resize_of_fit named' larger there fit found'
            rw [moved] at fresh ⊢
            rw [moved'] at fresh' slots' ⊢
            exact t.moved few few' slots' given given' named fit positive left right
              (fresh _ rfl (t.steady.sound.ne_of_moved few named here fit))
              (fresh' _ rfl (t.steady'.sound.ne_of_moved few' named' there fit))

end Twins

end Heap
end BlockPool
