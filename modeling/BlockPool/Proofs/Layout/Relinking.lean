import BlockPool.Proofs.Layout.Audit
import BlockPool.Proofs.Layout.Editing

/-!
# Links after a record comes or goes

In a layout whose links are whole a record is made behind any other one, and
any record is taken out, without harm to the links: the chain has one more
entry or one less, and all other records keep their ranges and generations.
Taking out the record that was made last gives back every link.
-/

namespace BlockPool.Layout

variable {l l' : Layout} {cells before after : List Cell} {i j : Nat} {b c : Block}

/-! ## Whole links read as a chain of cells -/

/-- A walk that is not cut short leads along records that lead back. -/
theorem linked_walk
    (next : ∀ i j record, l.get? i = some record → record.next = some j →
      ∃ other, l.get? j = some other ∧ other.prev = some i)
    {steps : Nat} {link prev : Option Nat} (short : (l.walk steps link).length < steps)
    (enters : ∀ i, link = some i → ∃ record, l.get? i = some record ∧ record.prev = prev) :
    link = headLink ((l.walk steps link).map fun entry => (entry.1, entry.2.block)) none ∧
      l.Linked prev ((l.walk steps link).map fun entry => (entry.1, entry.2.block)) none := by
  induction steps generalizing link prev with
  | zero => exact absurd short (Nat.not_lt_zero _)
  | succ steps ih =>
      cases link with
      | none => exact ⟨by simp, by simp [Linked]⟩
      | some i =>
          obtain ⟨record, found, back⟩ := enters i rfl
          simp only [walk, found, List.length_cons, Nat.add_lt_add_iff_right] at short ⊢
          obtain ⟨onward, rest⟩ := ih short fun j link => next i j record found link
          refine ⟨rfl, ?_, rest⟩
          rw [← onward, ← back]
          exact found

theorem WellLinked.chains (h : l.WellLinked) (sound : l.arena.Sound) : l.Chains l.chain := by
  have whole := h.ends (l.live + 1) (Nat.le_succ _)
  have short : (l.walk (l.live + 1) l.first).length < l.live + 1 := by
    rw [whole]
    exact Nat.lt_succ_of_le (l.length_walk_le l.live l.first)
  obtain ⟨first, linked⟩ := linked_walk h.next short h.first
  rw [whole] at first linked
  refine ⟨sound, first, linked, ?_, fun i live => ?_⟩
  · rw [chain, List.map_map]
    exact h.once
  · obtain ⟨record, found⟩ := Option.isSome_iff_exists.mp live
    rw [chain, List.map_map]
    exact List.mem_map_of_mem ((h.all i record).mpr found)

/-! ## What the cells tell about a record -/

theorem Chains.map_block_eq_some_iff (h : l.Chains cells) :
    (l.get? i).map Record.block = some b ↔ (i, b) ∈ cells := by
  rw [Option.map_eq_some_iff]
  constructor
  · rintro ⟨record, found, rfl⟩
    exact h.mem_of_get? found
  · intro member
    obtain ⟨prev, next, found⟩ := h.get?_of_mem member
    exact ⟨_, found, rfl⟩

theorem Chains.map_block_congr (h : l.Chains cells) {others : List Cell}
    (h' : l'.Chains others) (same : ∀ b, (i, b) ∈ others ↔ (i, b) ∈ cells) :
    (l'.get? i).map Record.block = (l.get? i).map Record.block := by
  refine Option.ext fun b => ?_
  rw [h.map_block_eq_some_iff, h'.map_block_eq_some_iff, same]

theorem Chains.get?_congr (h : l.Chains cells) (h' : l'.Chains cells) (i : Nat) :
    l'.get? i = l.get? i := by
  cases found : l.get? i with
  | some record =>
      obtain ⟨before, after, rfl, prev, next⟩ := h.exists_split found
      rw [h'.get?_of_split, ← prev, ← next]
      rfl
  | none =>
      cases found' : l'.get? i with
      | none => rfl
      | some record =>
          have live := (h.isSome_get?_iff i).mp (h'.complete i (by rw [found']; rfl))
          rw [found] at live
          cases live

/-! ## Making a record and taking one out -/

/-- The second layout is the first with one more record, which is right behind the one at `i`. -/
structure Gains (l l' : Layout) (i j : Nat) (c : Block) : Prop where
  linked : l'.WellLinked
  fresh : l.get? j = none
  chain : ∃ before b after, l.chain = before ++ (i, b) :: after ∧
    l'.chain = before ++ (i, b) :: (j, c) :: after
  kept : ∀ k, k ≠ j → (l'.get? k).map Record.block = (l.get? k).map Record.block ∧
    l'.generation k = l.generation k

/-- The second layout is the first without the record at `i`. -/
structure Loses (l l' : Layout) (i : Nat) : Prop where
  linked : l'.WellLinked
  gone : l'.get? i = none
  chain : ∃ before b after, l.chain = before ++ (i, b) :: after ∧ l'.chain = before ++ after
  kept : ∀ k, k ≠ i → (l'.get? k).map Record.block = (l.get? k).map Record.block ∧
    l'.generation k = l.generation k

theorem Chains.gains_insertAfter (h : l.Chains (before ++ (i, b) :: after)) (c : Block) :
    Gains l (l.insertAfter i c.offset c.size c.free).2 i l.nextIndex c := by
  have made := h.insertAfter c
  refine ⟨made.wellLinked, h.sound.get?_nextIndex, ⟨before, b, after, h.chain_eq, made.chain_eq⟩,
    fun k other => ⟨h.map_block_congr made fun d => ?_, generation_insertAfter h.sound ..⟩⟩
  simp [other]

theorem Chains.loses_remove (h : l.Chains (before ++ (i, b) :: after)) :
    Loses l (l.remove i).2 i := by
  have gone := h.remove
  refine ⟨gone.wellLinked, ?_, ⟨before, b, after, h.chain_eq, gone.chain_eq⟩,
    fun k other => ⟨h.map_block_congr gone fun d => ?_, ?_⟩⟩
  · rw [← Option.not_isSome_iff_eq_none, ← gone.isSome_get?_iff]
    exact (nodup_split_iff.mp h.nodup).1
  · simp [other]
  · rw [generation_remove h.get?_of_split, if_neg other]

theorem insertAfter_fst (l : Layout) (index offset size : Nat) (free : Bool) :
    (l.insertAfter index offset size free).1 = l.nextIndex := by
  rw [insertAfter_eq_bind]

theorem Chains.remove_insertAfter (h : l.Chains (before ++ (i, b) :: after)) (c : Block) :
    ((l.insertAfter i c.offset c.size c.free).2.remove l.nextIndex).2.Chains
      (before ++ (i, b) :: after) := by
  have made := h.insertAfter c
  rw [List.append_cons] at made
  have back := made.remove
  rwa [← List.append_cons] at back

/-- Whatever edits a layout comes from, if its links are whole then they stay so when a
record is made or taken out, and making one is undone by taking it out. -/
theorem edits_splice {size : Nat} {edits : List Edit} {i : Nat} {record : Record}
    (linked : ((spanning size).editAll edits).WellLinked)
    (found : ((spanning size).editAll edits).get? i = some record)
    (offset width : Nat) (free : Bool) :
    let l := (spanning size).editAll edits
    let made := l.insertAfter i offset width free
    let undone := (made.2.remove made.1).2
    Gains l made.2 i made.1 ⟨offset, width, free⟩ ∧
    (l.remove i).1 = some record ∧ Loses l (l.remove i).2 i ∧
    undone.first = l.first ∧ undone.chain = l.chain ∧ ∀ k, undone.get? k = l.get? k := by
  intro l made undone
  have sound : l.arena.Sound := sound_editAll (chains_spanning size).sound edits
  have chains := linked.chains sound
  obtain ⟨before, after, cells, -, -⟩ := chains.exists_split found
  have split : l.Chains (before ++ (i, record.block) :: after) := cells ▸ chains
  have index : made.1 = l.nextIndex := insertAfter_fst l i offset width free
  have back : undone.Chains (before ++ (i, record.block) :: after) := by
    change (made.2.remove made.1).2.Chains _
    rw [index]
    exact split.remove_insertAfter ⟨offset, width, free⟩
  refine ⟨?_, ?_, split.loses_remove, back.first.trans split.first.symm,
    back.chain_eq.trans split.chain_eq.symm, split.get?_congr back⟩
  · rw [index]
    exact split.gains_insertAfter ⟨offset, width, free⟩
  · rw [remove_eq found]

theorem edits_splice_middle :
    let l := (spanning 10).editAll
      [.insertAfter 0 4 6 false, .insertAfter 0 2 2 true, .insertAfter 2 3 1 true, .remove 2]
    let made := l.insertAfter 3 4 0 true
    let undone := (made.2.remove made.1).2
    Gains l made.2 3 made.1 ⟨4, 0, true⟩ ∧
    (l.remove 3).1 = some ⟨3, 1, true, some 1, some 0⟩ ∧ Loses l (l.remove 3).2 3 ∧
    undone.first = l.first ∧ undone.chain = l.chain ∧ ∀ k, undone.get? k = l.get? k := by
  intro l
  have first : (spanning 10).Chains ([] ++ (0, ⟨0, 10, true⟩) :: []) := chains_spanning 10
  have third := (first.insertAfter ⟨4, 6, false⟩).insertAfter ⟨2, 2, true⟩
  rw [List.append_cons] at third
  have chains : l.Chains [(0, ⟨0, 10, true⟩), (3, ⟨3, 1, true⟩), (1, ⟨4, 6, false⟩)] :=
    (third.insertAfter ⟨3, 1, true⟩).remove
  exact edits_splice chains.wellLinked rfl 4 0 true

/-- Links are not whole where one names no record, as the next record may be made there. -/
example :
    let l := (spanning 10).editAll
      [.insertAfter 0 5 5 true, .remove 1, .overwrite 0 ⟨0, 5, true, some 1, none⟩]
    (l.insertAfter 0 5 5 true).2.get? 1 = some ⟨5, 5, true, some 1, some 1⟩ := by decide

end BlockPool.Layout
