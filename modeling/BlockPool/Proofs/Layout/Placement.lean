import BlockPool.Layout.Placement
import BlockPool.Proofs.Layout.Coverage
import BlockPool.Proofs.Layout.Splice

/-!
# Placement on the cells of a chain

A claim replaces the first cell that fits by a used one and its rest.  A
release frees a cell, lets it take in a free cell behind it and, under the
bidirectional policy, lets a free cell before it take in the result.  The
slots whose handles a release retires are listed by `retiredBy`.
-/

namespace BlockPool.Layout

variable {l : Layout} {cells before after : List Cell} {i j : Nat} {b c : Block}
  {size : Nat}

/-! ## First fit -/

def fits (size : Nat) (b : Block) : Bool := b.free && size ≤ b.size

theorem fits_iff : fits size b = true ↔ b.free = true ∧ size ≤ b.size := by
  simp [fits]

theorem find?_recordsFrom (prev : Option Nat) (cells : List Cell) (size : Nat) :
    ((recordsFrom prev cells).find? fun entry =>
        entry.2.free && size ≤ entry.2.size).map Prod.fst =
      (cells.find? fun cell => fits size cell.2).map Prod.fst := by
  induction cells generalizing prev with
  | nil => rfl
  | cons cell rest ih =>
      have tail := ih (some cell.1)
      cases fit : fits size cell.2 with
      | true => simp_all [recordsFrom, Block.record, fits]
      | false => simp_all [recordsFrom, Block.record, fits]

theorem Chains.firstFit?_eq (h : l.Chains cells) (size : Nat) :
    l.firstFit? size = (cells.find? fun cell => fits size cell.2).map Prod.fst := by
  rw [firstFit?, h.entries_eq, find?_recordsFrom]

theorem Chains.split_of_firstFit? (h : l.Chains cells)
    (found : l.firstFit? size = some i) :
    ∃ before b after, cells = before ++ (i, b) :: after ∧ fits size b = true ∧
      ∀ cell ∈ before, fits size cell.2 = false := by
  rw [h.firstFit?_eq, Option.map_eq_some_iff] at found
  obtain ⟨⟨i, b⟩, found, rfl⟩ := found
  obtain ⟨fit, before, after, rfl, none_before⟩ := List.find?_eq_some_iff_append.mp found
  refine ⟨before, b, after, rfl, fit, fun cell member => ?_⟩
  simpa using none_before cell member

theorem Chains.firstFit?_of_split (h : l.Chains (before ++ (i, b) :: after))
    (fit : fits size b = true) (unfit : ∀ c ∈ before.map Prod.snd, fits size c = false) :
    l.firstFit? size = some i := by
  have none : before.find? (fun cell => fits size cell.2) = none := by
    refine List.find?_eq_none.mpr fun cell member => ?_
    simp [unfit cell.2 (List.mem_map_of_mem member)]
  rw [h.firstFit?_eq, List.find?_append, none, List.find?_cons, fit]
  rfl

theorem Chains.firstFit?_eq_none_iff (h : l.Chains cells) :
    l.firstFit? size = none ↔ ∀ cell ∈ cells, fits size cell.2 = false := by
  rw [h.firstFit?_eq, Option.map_eq_none_iff, List.find?_eq_none]
  simp

theorem foldr_max_lt_iff (positive : 0 < size) (sizes : List Nat) :
    sizes.foldr max 0 < size ↔ ∀ n ∈ sizes, n < size := by
  induction sizes with
  | nil => simp [positive]
  | cons n rest ih =>
      rw [List.foldr_cons, Nat.max_lt, ih]
      simp

theorem Chains.firstFit?_eq_none_iff_largestFree_lt (h : l.Chains cells)
    (positive : 0 < size) : l.firstFit? size = none ↔ l.largestFree < size := by
  rw [h.firstFit?_eq_none_iff, largestFree, foldr_max_lt_iff positive, freeSizes,
    h.blocks_eq]
  constructor
  · intro small n member
    simp only [List.mem_map, List.mem_filter] at member
    obtain ⟨_, ⟨⟨cell, there, rfl⟩, free⟩, rfl⟩ := member
    have unfit := small cell there
    simp only [fits, free, Bool.true_and, decide_eq_false_iff_not] at unfit
    omega
  · intro small cell there
    cases free : cell.2.free with
    | false => simp [fits, free]
    | true =>
        have less := small cell.2.size (List.mem_map_of_mem
          (List.mem_filter.mpr ⟨List.mem_map_of_mem there, free⟩))
        simp only [fits, free, Bool.true_and, decide_eq_false_iff_not]
        omega

/-! ## Claims -/

/-- What a claim makes of a cell; `new` is the slot for the rest. -/
def claimed (keepEmpty : Bool) (new size : Nat) (cell : Cell) : List Cell :=
  (cell.1, ⟨cell.2.offset, size, false⟩) ::
    if 0 < cell.2.size - size || keepEmpty then
      [(new, ⟨cell.2.offset + size, cell.2.size - size, true⟩)]
    else
      []

theorem claim_eq {prev next : Option Nat}
    (found : l.get? i = some (b.record prev next)) (keepEmpty : Bool) :
    l.claim keepEmpty i size =
      if 0 < b.size - size || keepEmpty then
        ((l.modify i fun record =>
          { record with free := false, size := size }).insertAfter i
            (b.offset + size) (b.size - size) true).2
      else
        l.modify i fun record => { record with free := false } := by
  rw [Layout.claim, found]
  rfl

theorem Chains.claim (h : l.Chains (before ++ (i, b) :: after))
    (keepEmpty : Bool) (fit : size ≤ b.size) :
    (l.claim keepEmpty i size).Chains
      (before ++ claimed keepEmpty l.nextIndex size (i, b) ++ after) := by
  rw [claim_eq h.get?_of_split, claimed]
  by_cases rest : (0 < b.size - size || keepEmpty) = true
  · have used := h.modify (fun record => { record with free := false, size := size })
      ⟨b.offset, size, false⟩ fun _ _ => rfl
    have split := used.insertAfter ⟨b.offset + size, b.size - size, true⟩
    rw [nextIndex_modify] at split
    rw [if_pos rest, if_pos rest]
    simpa using split
  · have whole : b.size = size := by
      simp only [Bool.or_eq_true, decide_eq_true_eq, not_or] at rest
      omega
    have used := h.modify (fun record => { record with free := false })
      ⟨b.offset, size, false⟩ fun _ _ => by simp [Block.record, whole]
    rw [if_neg rest, if_neg rest]
    simpa using used

/-! ## Releases -/

def grow (cell : Cell) (size : Nat) : Cell :=
  (cell.1, { cell.2 with size := cell.2.size + size })

def mergeNext (cell : Cell) : List Cell → List Cell
  | [] => [cell]
  | next :: rest =>
      if next.2.free then grow cell next.2.size :: rest else cell :: next :: rest

/-- The cell before takes in the first one of `cells` if it is free itself. -/
def mergePrev (before : List Cell) : List Cell → List Cell
  | [] => before
  | cell :: rest =>
      match before.getLast? with
      | some prev =>
          if prev.2.free then before.dropLast ++ grow prev cell.2.size :: rest
          else before ++ cell :: rest
      | none => cell :: rest

def released (policy : Coalescing) (before : List Cell) (i : Nat) (b : Block)
    (after : List Cell) : List Cell :=
  match policy with
  | .forward => before ++ mergeNext (i, { b with free := true }) after
  | .bidirectional => mergePrev before (mergeNext (i, { b with free := true }) after)

theorem Chains.absorb (h : l.Chains (before ++ (i, b) :: (j, c) :: after)) :
    (l.absorb i j).Chains (before ++ grow (i, b) c.size :: after) := by
  have shift : before ++ (i, b) :: (j, c) :: after =
      (before ++ [(i, b)]) ++ (j, c) :: after := by simp
  rw [shift] at h
  have found := h.get?_of_split
  have gone := h.remove
  rw [← List.append_cons] at gone
  have grown := gone.modify
    (fun record => { record with size := record.size + c.size })
    { b with size := b.size + c.size } fun _ _ => rfl
  rw [Layout.absorb, remove_eq found]
  rw [remove_eq found] at grown
  exact grown

theorem Chains.isFree_eq (h : l.Chains (before ++ (i, b) :: after)) :
    l.isFree i = b.free := by
  simp [isFree, h.get?_of_split]

theorem Chains.absorbNext (h : l.Chains (before ++ (i, b) :: after)) :
    (l.absorbNext i (headLink after none)).Chains
      (before ++ mergeNext (i, b) after) := by
  cases after with
  | nil => exact h
  | cons next rest =>
      have shift : before ++ (i, b) :: next :: rest =
          (before ++ [(i, b)]) ++ next :: rest := by simp
      have free := (shift ▸ h).isFree_eq
      simp only [headLink_cons, Layout.absorbNext, free, mergeNext]
      split
      · exact h.absorb
      · exact h

theorem exists_mergeNext_eq (i : Nat) (b : Block) (after : List Cell) :
    ∃ c rest, mergeNext (i, b) after = (i, c) :: rest ∧ c.free = b.free := by
  cases after with
  | nil => exact ⟨b, [], rfl, rfl⟩
  | cons next rest =>
      simp only [mergeNext, grow]
      split
      · exact ⟨_, rest, rfl, rfl⟩
      · exact ⟨b, next :: rest, rfl, rfl⟩

theorem mergePrev_append (front : List Cell) (prev cell : Cell) (rest : List Cell) :
    mergePrev (front ++ [prev]) (cell :: rest) =
      if prev.2.free then front ++ grow prev cell.2.size :: rest
      else front ++ prev :: cell :: rest := by
  simp [mergePrev]

def freeForward (l : Layout) (index : Nat) (next : Option Nat) : Layout :=
  ((l.modify index fun record => { record with free := true }).retire index).absorbNext
    index next

theorem Chains.freeForward (h : l.Chains (before ++ (i, b) :: after)) :
    (l.freeForward i (headLink after none)).Chains
      (before ++ mergeNext (i, { b with free := true }) after) :=
  ((h.modify (fun record => { record with free := true }) { b with free := true }
    fun _ _ => rfl).retire i).absorbNext

def absorbPrev (l : Layout) (policy : Coalescing) (index : Nat)
    (prev : Option Nat) : Nat × Layout :=
  match policy, prev with
  | .bidirectional, some prev =>
      if l.isFree prev then (prev, l.absorb prev index) else (index, l)
  | _, _ => (index, l)

theorem release_eq {prev next : Option Nat}
    (found : l.get? i = some (b.record prev next)) (policy : Coalescing) :
    l.release policy i = (l.freeForward i next).absorbPrev policy i prev := by
  rw [Layout.release, found]
  rfl

theorem Chains.absorbPrev {cell : Cell} {rest : List Cell}
    (h : l.Chains (before ++ cell :: rest)) :
    (l.absorbPrev .bidirectional cell.1 (lastLink none before)).2.Chains
      (mergePrev before (cell :: rest)) := by
  rcases List.eq_nil_or_concat before with rfl | ⟨front, prev, rfl⟩
  · exact h
  · rw [List.concat_eq_append] at h ⊢
    rw [List.append_assoc, List.singleton_append] at h
    simp only [lastLink_append, lastLink_cons, lastLink_nil, mergePrev_append,
      Layout.absorbPrev, h.isFree_eq]
    split
    · exact h.absorb
    · exact h

theorem Chains.release (h : l.Chains (before ++ (i, b) :: after))
    (policy : Coalescing) :
    (l.release policy i).2.Chains (released policy before i b after) := by
  have merged := h.freeForward
  rw [release_eq h.get?_of_split]
  unfold released
  cases policy with
  | forward => exact merged
  | bidirectional =>
      obtain ⟨c, rest, cells, _⟩ :=
        exists_mergeNext_eq i { b with free := true } after
      rw [cells] at merged ⊢
      exact merged.absorbPrev

/-! ## What stays in use and what is covered -/

theorem usedCells_claimed (keepEmpty : Bool) (new size : Nat) (cell : Cell) :
    usedCells (claimed keepEmpty new size cell) =
      [(cell.1, ⟨cell.2.offset, size, false⟩)] := by
  unfold claimed
  split <;> simp [usedCells_cons]

theorem usedCells_mergeNext (cell : Cell) (after : List Cell)
    (free : cell.2.free = true) :
    usedCells (mergeNext cell after) = usedCells after := by
  cases after with
  | nil => simp [mergeNext, usedCells_cons, free]
  | cons next rest =>
      simp only [mergeNext]
      split
      · simp_all [usedCells_cons, grow]
      · simp [usedCells_cons, free]

theorem usedCells_mergePrev (before : List Cell) (cell : Cell) (rest : List Cell)
    (free : cell.2.free = true) :
    usedCells (mergePrev before (cell :: rest)) = usedCells before ++ usedCells rest := by
  rcases List.eq_nil_or_concat before with rfl | ⟨front, prev, rfl⟩
  · simp [mergePrev, usedCells_cons, free]
  · rw [List.concat_eq_append, mergePrev_append]
    split
    · simp_all [usedCells_cons, grow]
    · simp_all [usedCells_cons]

theorem usedCells_released (policy : Coalescing) (before : List Cell) (i : Nat)
    (b : Block) (after : List Cell) :
    usedCells (released policy before i b after) =
      usedCells before ++ usedCells after := by
  have forward := usedCells_mergeNext (i, { b with free := true }) after rfl
  unfold released
  cases policy with
  | forward => simp only [usedCells_append, forward]
  | bidirectional =>
      obtain ⟨c, rest, cells, free⟩ :=
        exists_mergeNext_eq i { b with free := true } after
      rw [cells, usedCells_cons, if_pos free] at forward
      simp only [cells, usedCells_mergePrev before (i, c) rest free, forward]

theorem covers_claimed {start stop : Nat} {keepEmpty : Bool} {new : Nat}
    {cell : Cell} (fit : size ≤ cell.2.size)
    (h : Covers start ((before ++ cell :: after).map Prod.snd) stop) :
    Covers start
      ((before ++ claimed keepEmpty new size cell ++ after).map Prod.snd) stop := by
  rw [List.append_cons] at h
  simp only [List.map_append, List.append_assoc] at h ⊢
  refine h.replace fun low high here => ?_
  simp only [List.map_cons, List.map_nil, Covers] at here
  unfold claimed
  by_cases rest : (0 < cell.2.size - size || keepEmpty) = true
  · simp only [if_pos rest, List.map_cons, List.map_nil, Covers]
    refine ⟨here.1, trivial, ?_⟩
    omega
  · simp only [if_neg rest, List.map_cons, List.map_nil, Covers]
    simp only [Bool.or_eq_true, decide_eq_true_eq, not_or] at rest
    omega

theorem covers_mergeNext {start stop : Nat} {cell : Cell}
    (h : Covers start ((cell :: after).map Prod.snd) stop) :
    Covers start ((mergeNext cell after).map Prod.snd) stop := by
  cases after with
  | nil => exact h
  | cons next rest =>
      simp only [mergeNext]
      split
      · simp only [List.map_cons, Covers, grow] at h ⊢
        obtain ⟨offset, meets, tail⟩ := h
        refine ⟨offset, ?_⟩
        rwa [← Nat.add_assoc, ← meets]
      · exact h

theorem covers_mergePrev {start stop : Nat} {cells : List Cell}
    (h : Covers start ((before ++ cells).map Prod.snd) stop) :
    Covers start ((mergePrev before cells).map Prod.snd) stop := by
  cases cells with
  | nil => simpa [mergePrev] using h
  | cons cell rest =>
      rcases List.eq_nil_or_concat before with rfl | ⟨front, prev, rfl⟩
      · exact h
      · rw [List.concat_eq_append] at h ⊢
        rw [List.append_assoc, List.singleton_append] at h
        rw [mergePrev_append]
        split
        · simp only [List.map_append, Covers.append_iff] at h ⊢
          obtain ⟨middle, low, offset, meets, tail⟩ := h
          refine ⟨middle, low, offset, ?_⟩
          simp only [grow]
          rwa [← Nat.add_assoc, ← meets]
        · exact h

theorem covers_freeForward {start stop : Nat}
    (h : Covers start ((before ++ (i, b) :: after).map Prod.snd) stop) :
    Covers start
      ((before ++ mergeNext (i, { b with free := true }) after).map Prod.snd) stop := by
  rw [List.map_append, Covers.append_iff] at h ⊢
  obtain ⟨middle, low, high⟩ := h
  exact ⟨middle, low, covers_mergeNext high⟩

theorem covers_released {start stop : Nat} {policy : Coalescing}
    (h : Covers start ((before ++ (i, b) :: after).map Prod.snd) stop) :
    Covers start ((released policy before i b after).map Prod.snd) stop := by
  cases policy with
  | forward => exact covers_freeForward h
  | bidirectional => exact covers_mergePrev (covers_freeForward h)

end BlockPool.Layout
