import BlockPool.Proofs.Layout.Coalescence
import BlockPool.Proofs.Layout.Sizes

/-!
# How many blocks there are

Three properties of the blocks keep their number down.  Where no two
neighbours are free there is at most one free block more than used ones.
Where an empty block is free and comes right behind a used one there are no
more blocks than addresses and used blocks.  Where no address begins more than
a given number of blocks there are at most that many for each address.
-/

namespace BlockPool

def usedCount (blocks : List Block) : Nat := blocks.countP fun b => !b.free

theorem usedCount_cons (b : Block) (blocks : List Block) :
    usedCount (b :: blocks) = usedCount blocks + if b.free then 0 else 1 := by
  cases free : b.free <;> simp [usedCount, free]

theorem usedCount_map (cells : List Cell) :
    usedCount (cells.map Prod.snd) = (usedCells cells).length := by
  rw [usedCount, List.countP_map, List.countP_eq_length_filter]
  rfl

/-! ## Free blocks that are no neighbours -/

theorem Coalesced.length_le : ∀ {blocks : List Block}, Coalesced blocks →
    blocks.length ≤ 2 * usedCount blocks + 1
  | [], _ => by simp
  | [b], _ => by simp
  | b :: c :: rest, h => by
      rw [usedCount_cons, List.length_cons]
      cases free : b.free with
      | false =>
          have tail := h.of_cons.length_le
          simp only [Bool.false_eq_true, if_false]
          omega
      | true =>
          have used := (List.isChain_cons_cons.mp h).1 free
          have tail := h.of_cons.of_cons.length_le
          rw [usedCount_cons, used, List.length_cons]
          simp only [Bool.false_eq_true, if_false, if_true]
          omega

/-! ## Empty blocks behind used ones -/

/-- The second block may follow the first one: it is not empty, or free behind a used one. -/
def Block.Anchors (b c : Block) : Prop := 0 < c.size ∨ b.free = false ∧ c.free = true

/-- What stands before the first block; it anchors nothing that is empty. -/
def Block.edge : Block := ⟨0, 0, true⟩

def Anchored (blocks : List Block) : Prop := (Block.edge :: blocks).IsChain Block.Anchors

namespace Anchored

variable {b c : Block} {blocks xs ys : List Block}

theorem chain_congr (h : (b :: ys).IsChain Block.Anchors) (same : c.free = b.free) :
    (c :: ys).IsChain Block.Anchors := by
  rw [List.isChain_cons] at h ⊢
  refine ⟨fun next head => ?_, h.2⟩
  rw [Block.Anchors, same]
  exact h.1 next head

theorem chain_of_used (h : (b :: ys).IsChain Block.Anchors) (free : b.free = true) :
    (c :: ys).IsChain Block.Anchors := by
  rw [List.isChain_cons] at h ⊢
  refine ⟨fun next head => .inl ?_, h.2⟩
  rcases h.1 next head with positive | ⟨used, _⟩
  · exact positive
  · simp [free] at used

theorem chain_concat (h : (xs ++ [b]).IsChain Block.Anchors) (positive : 0 < c.size) :
    (xs ++ [c]).IsChain Block.Anchors := by
  rw [List.isChain_append] at h ⊢
  refine ⟨h.1, .singleton c, fun x _ y last => .inl ?_⟩
  obtain rfl : c = y := by simpa using last
  exact positive

theorem split_iff :
    Anchored (xs ++ b :: ys) ↔
      (Block.edge :: xs ++ [b]).IsChain Block.Anchors ∧ (b :: ys).IsChain Block.Anchors := by
  rw [Anchored, ← List.cons_append, List.isChain_split]

theorem pos_of_used (h : Anchored (xs ++ b :: ys)) (used : b.free = false) : 0 < b.size := by
  obtain ⟨front, _⟩ := split_iff.mp h
  rcases List.eq_nil_or_concat (Block.edge :: xs) with none | ⟨init, last, whole⟩
  · cases none
  · rw [whole, List.concat_eq_append, List.append_assoc, List.singleton_append] at front
    rcases (List.isChain_cons_cons.mp (List.isChain_append.mp front).2.1).1 with
      positive | ⟨_, free⟩
    · exact positive
    · simp [used] at free

theorem singleton (positive : 0 < b.size) : Anchored [b] :=
  List.isChain_cons_cons.mpr ⟨.inl positive, .singleton b⟩

theorem chain_length_le (h : (b :: blocks).IsChain Block.Anchors) :
    blocks.length ≤
      (blocks.map Block.size).sum + usedCount blocks + if b.free then 0 else 1 := by
  induction blocks generalizing b with
  | nil => simp
  | cons c rest ih =>
      obtain ⟨anchors, tail⟩ := List.isChain_cons_cons.mp h
      have shorter := ih tail
      rw [List.length_cons, List.map_cons, List.sum_cons, usedCount_cons]
      rcases anchors with positive | ⟨used, free⟩
      · split at shorter <;> simp_all <;> omega
      · simp_all
        omega

theorem length_le {size : Nat} (h : Anchored blocks) (covers : Covers 0 blocks size) :
    blocks.length ≤ size + usedCount blocks := by
  have total := covers.add_sum
  have bound := chain_length_le h
  simp only [Block.edge, if_true] at bound
  omega

end Anchored

/-! ## Blocks at one address -/

/-- Each block begins inside the range, and no more than `most + 1` of them at one address. -/
structure Spread (size most : Nat) (blocks : List Block) : Prop where
  inside : ∀ b ∈ blocks, b.offset < size
  few : ∀ offset, (blocks.map Block.offset).count offset ≤ most + 1

theorem length_le_of_count_le {n most : Nat} {xs : List Nat} (inside : ∀ x ∈ xs, x < n)
    (few : ∀ x, xs.count x ≤ most) : xs.length ≤ n * most := by
  induction n generalizing xs with
  | zero =>
      have none : xs = [] := List.eq_nil_iff_forall_not_mem.mpr fun x member =>
        Nat.not_lt_zero x (inside x member)
      simp [none]
  | succ n ih =>
      have below : (xs.filter (!· == n)).length ≤ n * most := by
        refine ih (fun x member => ?_) fun x => ?_
        · have bound := inside x (List.mem_filter.mp member).1
          have other : x ≠ n := by simpa using (List.mem_filter.mp member).2
          omega
        · exact Nat.le_trans (List.filter_sublist.count_le x) (few x)
      have parts : xs.length = xs.count n + (xs.filter (!· == n)).length := by
        rw [List.count_eq_length_filter]
        exact List.length_eq_length_filter_add (· == n)
      have here := few n
      rw [Nat.succ_mul]
      omega

theorem Spread.length_le {size most : Nat} {blocks : List Block}
    (h : Spread size most blocks) : blocks.length ≤ size * (most + 1) := by
  rw [← List.length_map Block.offset]
  exact length_le_of_count_le (by simpa using h.inside) h.few

theorem Spread.sublist {size most : Nat} {blocks blocks' : List Block}
    (h : Spread size most blocks)
    (fewer : (blocks'.map Block.offset).Sublist (blocks.map Block.offset)) :
    Spread size most blocks' where
  inside b member := by
    obtain ⟨c, there, same⟩ := List.mem_map.mp (fewer.subset (List.mem_map_of_mem member))
    exact same ▸ h.inside c there
  few offset := Nat.le_trans (fewer.count_le offset) (h.few offset)

theorem Spread.add {size most offset : Nat} {blocks blocks' : List Block}
    (h : Spread size most blocks)
    (offsets : (blocks'.map Block.offset).Perm (offset :: blocks.map Block.offset))
    (inside : offset < size) (few : (blocks.map Block.offset).count offset ≤ most) :
    Spread size most blocks' where
  inside b member := by
    have place : b.offset ∈ offset :: blocks.map Block.offset :=
      offsets.mem_iff.mp (List.mem_map_of_mem member)
    rcases List.mem_cons.mp place with new | old
    · rw [new]
      exact inside
    · obtain ⟨c, there, same⟩ := List.mem_map.mp old
      exact same ▸ h.inside c there
  few other := by
    rw [offsets.count_eq, List.count_cons]
    split
    · next own =>
        rw [← eq_of_beq own]
        exact Nat.succ_le_succ few
    · exact h.few other

namespace Layout

variable {before after cells : List Cell} {i new size most whole : Nat} {b : Block}
  {keepEmpty : Bool} {policy : Coalescing}

/-! ## What claims and releases keep -/

theorem anchored_claimed (h : Anchored ((before ++ (i, b) :: after).map Prod.snd))
    (free : b.free = true) (positive : 0 < size) :
    Anchored ((before ++ claimed keepEmpty new size (i, b) ++ after).map Prod.snd) := by
  rw [List.map_append, List.map_cons, Anchored.split_iff] at h
  simp only [claimed, List.cons_append, List.append_assoc, List.map_append, List.map_cons]
  refine Anchored.split_iff.mpr ⟨Anchored.chain_concat h.1 positive, ?_⟩
  split
  · exact List.isChain_cons_cons.mpr ⟨.inr ⟨rfl, rfl⟩, Anchored.chain_congr h.2 free.symm⟩
  · exact Anchored.chain_of_used h.2 free

theorem anchored_forward (h : Anchored ((before ++ (i, b) :: after).map Prod.snd))
    (inUse : b.free = false) :
    Anchored ((released .forward before i b after).map Prod.snd) := by
  rw [List.map_append, List.map_cons] at h
  have positive := h.pos_of_used inUse
  obtain ⟨front, back⟩ := Anchored.split_iff.mp h
  rw [released, List.map_append]
  cases after with
  | nil => exact Anchored.split_iff.mpr ⟨Anchored.chain_concat front positive, .singleton _⟩
  | cons next rest =>
      obtain ⟨anchors, tail⟩ := List.isChain_cons_cons.mp back
      rw [mergeNext]
      split
      · next free =>
          refine Anchored.split_iff.mpr ⟨Anchored.chain_concat front ?_, ?_⟩
          · exact Nat.add_pos_left positive _
          · exact Anchored.chain_congr tail free.symm
      · next used =>
          refine Anchored.split_iff.mpr ⟨Anchored.chain_concat front positive, ?_⟩
          refine List.isChain_cons_cons.mpr ⟨.inl ?_, tail⟩
          rcases anchors with positive | ⟨_, free⟩
          · exact positive
          · exact absurd free used

theorem offsets_mergeNext (cell : Cell) (after : List Cell) :
    ((mergeNext cell after).map fun cell => cell.2.offset).Sublist
      ((cell :: after).map fun cell => cell.2.offset) := by
  cases after with
  | nil => exact .refl _
  | cons next rest =>
      rw [mergeNext]
      split
      · exact (List.sublist_cons_self ..).cons_cons _
      · exact .refl _

theorem offsets_mergePrev (before cells : List Cell) :
    ((mergePrev before cells).map fun cell => cell.2.offset).Sublist
      ((before ++ cells).map fun cell => cell.2.offset) := by
  cases cells with
  | nil => simp [mergePrev]
  | cons cell rest =>
      rcases List.eq_nil_or_concat before with rfl | ⟨front, prev, rfl⟩
      · exact .refl _
      · rw [List.concat_eq_append, mergePrev_append]
        split
        · simp [grow]
        · simp

/-- A release merges blocks and moves none. -/
theorem offsets_released (policy : Coalescing) (before : List Cell) (i : Nat) (b : Block)
    (after : List Cell) :
    (((released policy before i b after).map Prod.snd).map Block.offset).Sublist
      (((before ++ (i, b) :: after).map Prod.snd).map Block.offset) := by
  rw [List.map_map, List.map_map]
  have forward := (offsets_mergeNext (i, { b with free := true }) after).append_left
    (before.map fun cell => cell.2.offset)
  rw [← List.map_append, ← List.map_append] at forward
  have freed : ((before ++ (i, { b with free := true }) :: after).map
      fun cell => cell.2.offset) =
      (before ++ (i, b) :: after).map fun cell => cell.2.offset := by simp
  rw [freed] at forward
  cases policy with
  | forward => exact forward
  | bidirectional => exact (offsets_mergePrev ..).trans forward

theorem count_offset_eq_zero {start stop : Nat}
    (covers : Covers start ((before ++ (i, b) :: after).map Prod.snd) stop)
    (positive : 0 < size) (rest : size < b.size) :
    (((before ++ (i, b) :: after).map Prod.snd).map Block.offset).count (b.offset + size) =
      0 := by
  rw [List.map_append, List.map_cons, Covers.append_iff] at covers
  obtain ⟨middle, front, (offset : b.offset = middle), back⟩ := covers
  rw [List.count_eq_zero]
  simp only [List.map_append, List.map_cons, List.mem_append, List.mem_cons, not_or]
  refine ⟨fun member => ?_, by omega, fun member => ?_⟩
  · obtain ⟨c, there, same⟩ := List.mem_map.mp member
    have low := front.bounds there
    omega
  · obtain ⟨c, there, same⟩ := List.mem_map.mp member
    have high := back.bounds there
    change b.offset + b.size ≤ c.offset ∧ _ at high
    omega

/-- Only blocks before the first free one begin where it does. -/
theorem count_offset_le {start stop : Nat}
    (covers : Covers start ((before ++ (i, b) :: after).map Prod.snd) stop)
    (rest : 0 < b.size) :
    (((before ++ (i, b) :: after).map Prod.snd).map Block.offset).count b.offset ≤
      before.length + 1 := by
  rw [List.map_append, List.map_cons, Covers.append_iff] at covers
  obtain ⟨middle, front, _, back⟩ := covers
  have behind : ((after.map Prod.snd).map Block.offset).count b.offset = 0 := by
    rw [List.count_eq_zero]
    intro member
    obtain ⟨c, there, same⟩ := List.mem_map.mp member
    have high := back.bounds there
    change b.offset + b.size ≤ c.offset ∧ _ at high
    omega
  have few : ((before.map Prod.snd).map Block.offset).count b.offset ≤ before.length := by
    simpa using List.count_le_length (l := (before.map Prod.snd).map Block.offset)
  simp only [List.map_append, List.map_cons, List.count_append, List.count_cons_self, behind]
  omega

theorem perm_offsets_claimed (before after : List Cell) (i new : Nat) (rest : size < b.size) :
    (((before ++ claimed false new size (i, b) ++ after).map Prod.snd).map Block.offset).Perm
      ((b.offset + size) :: ((before ++ (i, b) :: after).map Prod.snd).map Block.offset) := by
  have behind : ((before.map Prod.snd).map Block.offset ++ [b.offset] ++
      (b.offset + size) :: (after.map Prod.snd).map Block.offset).Perm
      ((b.offset + size) :: ((before.map Prod.snd).map Block.offset ++ [b.offset] ++
        (after.map Prod.snd).map Block.offset)) := List.perm_middle
  simpa [claimed, Nat.sub_pos_of_lt rest] using behind

/-- Where the first fit is cut, no more blocks begin than are used. -/
theorem count_offset_rest_le {start stop : Nat}
    (covers : Covers start ((before ++ (i, b) :: after).map Prod.snd) stop)
    (first : ∀ cell ∈ before, fits size cell.2 = false)
    (room : size = 0 →
      (usedCells (before ++ claimed false new size (i, b) ++ after)).length ≤ most)
    (rest : size < b.size) :
    (((before ++ (i, b) :: after).map Prod.snd).map Block.offset).count (b.offset + size) ≤
      most := by
  rcases Nat.eq_zero_or_pos size with rfl | positive
  · have used : usedCells before = before := by
      refine List.filter_eq_self.mpr fun cell member => ?_
      simpa [fits] using first cell member
    have out := room rfl
    rw [usedCells_append, usedCells_append, usedCells_claimed, used, List.length_append,
      List.length_append] at out
    have bound := count_offset_le covers rest
    simp only [Nat.add_zero, List.length_singleton] at out bound ⊢
    omega
  · rw [count_offset_eq_zero covers positive rest]
    exact Nat.zero_le most

theorem spread_claimed
    (h : Spread whole most ((before ++ (i, b) :: after).map Prod.snd))
    (covers : Covers 0 ((before ++ (i, b) :: after).map Prod.snd) whole)
    (first : ∀ cell ∈ before, fits size cell.2 = false)
    (room : size = 0 →
      (usedCells (before ++ claimed false new size (i, b) ++ after)).length ≤ most) :
    Spread whole most ((before ++ claimed false new size (i, b) ++ after).map Prod.snd) := by
  by_cases rest : size < b.size
  · have stop := (covers.bounds (List.mem_map_of_mem (a := (i, b)) (by simp))).2
    change b.offset + b.size ≤ whole at stop
    exact h.add (perm_offsets_claimed before after i new rest) (by omega)
      (count_offset_rest_le covers first room rest)
  · have same : ((before ++ claimed false new size (i, b) ++ after).map Prod.snd).map
        Block.offset = ((before ++ (i, b) :: after).map Prod.snd).map Block.offset := by
      simp [claimed, Nat.sub_eq_zero_of_le (Nat.le_of_not_lt rest)]
    exact h.sublist (same ▸ .refl _)

end Layout

end BlockPool
