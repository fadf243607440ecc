import BlockPool.Proofs.Layout.Chain

/-!
# Blocks that cover a range

Blocks cover a range of addresses if the first one begins where the range
does, each next one begins where the one before ends, and the last one ends
where the range does.  Different blocks of such a list share no address.
-/

namespace BlockPool

def Block.Apart (b c : Block) : Prop :=
  b.offset + b.size ≤ c.offset ∨ c.offset + c.size ≤ b.offset

def Covers : Nat → List Block → Nat → Prop
  | start, [], stop => start = stop
  | start, block :: rest, stop =>
      block.offset = start ∧ Covers (block.offset + block.size) rest stop

namespace Covers

variable {start stop : Nat} {blocks : List Block}

theorem append_iff {xs ys : List Block} :
    Covers start (xs ++ ys) stop ↔
      ∃ middle, Covers start xs middle ∧ Covers middle ys stop := by
  induction xs generalizing start with
  | nil => simp [Covers]
  | cons block xs ih =>
      simp only [List.cons_append, Covers, ih]
      constructor
      · rintro ⟨offset, middle, front, back⟩
        exact ⟨middle, ⟨offset, front⟩, back⟩
      · rintro ⟨middle, ⟨offset, front⟩, back⟩
        exact ⟨offset, middle, front, back⟩

theorem le (h : Covers start blocks stop) : start ≤ stop := by
  induction blocks generalizing start with
  | nil => exact Nat.le_of_eq h
  | cons block rest ih =>
      have tail := ih h.2
      have head := h.1
      omega

theorem bounds (h : Covers start blocks stop) {b : Block} (member : b ∈ blocks) :
    start ≤ b.offset ∧ b.offset + b.size ≤ stop := by
  obtain ⟨front, back, rfl⟩ := List.append_of_mem member
  obtain ⟨middle, first, offset, rest⟩ := append_iff.mp h
  have low := first.le
  have high := rest.le
  omega

theorem replace {xs ys zs ys' : List Block} (h : Covers start (xs ++ (ys ++ zs)) stop)
    (same : ∀ low high, Covers low ys high → Covers low ys' high) :
    Covers start (xs ++ (ys' ++ zs)) stop := by
  obtain ⟨low, front, rest⟩ := append_iff.mp h
  obtain ⟨high, middle, back⟩ := append_iff.mp rest
  exact append_iff.mpr ⟨low, front, append_iff.mpr ⟨high, same low high middle, back⟩⟩

theorem pairwise (h : Covers start blocks stop) :
    blocks.Pairwise fun b c => b.offset + b.size ≤ c.offset := by
  induction blocks generalizing start with
  | nil => exact .nil
  | cons block rest ih =>
      exact .cons (fun c member => (h.2.bounds member).1) (ih h.2)

theorem apart {cells : List Cell} (h : Covers start (cells.map Prod.snd) stop)
    {i j : Nat} {b c : Block} (first : (i, b) ∈ cells) (second : (j, c) ∈ cells)
    (distinct : i ≠ j) : b.Apart c := by
  have ordered := List.pairwise_map.mp h.pairwise
  obtain ⟨before, after, rfl⟩ := List.append_of_mem first
  have other : (j, c) ∈ before ∨ (j, c) ∈ after := by
    simp only [List.mem_append, List.mem_cons, Prod.mk.injEq] at second
    rcases second with inBefore | ⟨same, _⟩ | inAfter
    · exact .inl inBefore
    · exact absurd same.symm distinct
    · exact .inr inAfter
  obtain ⟨_, tail, across⟩ := List.pairwise_append.mp ordered
  rcases other with inBefore | inAfter
  · exact .inr (across (j, c) inBefore (i, b) List.mem_cons_self)
  · exact .inl ((List.pairwise_cons.mp tail).1 (j, c) inAfter)

end Covers

/-! ## Cells in use -/

def usedCells (cells : List Cell) : List Cell :=
  cells.filter fun cell => !cell.2.free

@[simp] theorem usedCells_nil : usedCells [] = [] := rfl

@[simp] theorem usedCells_append (xs ys : List Cell) :
    usedCells (xs ++ ys) = usedCells xs ++ usedCells ys :=
  List.filter_append ..

theorem usedCells_cons (cell : Cell) (rest : List Cell) :
    usedCells (cell :: rest) =
      if cell.2.free then usedCells rest else cell :: usedCells rest := by
  cases free : cell.2.free <;> simp [usedCells, free]

theorem mem_usedCells {cells : List Cell} {cell : Cell} :
    cell ∈ usedCells cells ↔ cell ∈ cells ∧ cell.2.free = false := by
  simp [usedCells]

def usedTotal : List Block → Nat
  | [] => 0
  | block :: rest => (if block.free then 0 else block.size) + usedTotal rest

theorem usedTotal_usedCells (cells : List Cell) :
    usedTotal ((usedCells cells).map Prod.snd) = usedTotal (cells.map Prod.snd) := by
  induction cells with
  | nil => rfl
  | cons cell rest ih =>
      rw [usedCells_cons]
      cases free : cell.2.free <;> simp [usedTotal, free, ih]

@[simp] theorem usedTotal_append (xs ys : List Block) :
    usedTotal (xs ++ ys) = usedTotal xs + usedTotal ys := by
  induction xs with
  | nil => simp [usedTotal]
  | cons block xs ih =>
      simp only [List.cons_append, usedTotal, ih]
      omega

theorem Layout.usedBytes_eq (l : Layout) : l.usedBytes = usedTotal l.blocks := by
  unfold usedBytes usedSizes
  induction l.blocks with
  | nil => rfl
  | cons block rest ih => cases free : block.free <;> simp [usedTotal, free, ih]

end BlockPool
