import BlockPool.Layout.Basic
import BlockPool.Proofs.Memory.Arena

/-!
# Chains read as lists

A layout chains a list of cells, each the index of a record and its range, if
following `next` from `first` meets these records and no other one, and `prev`
leads back the same way.  Making a record, taking one out and changing a range
are then edits of the list.
-/

namespace BlockPool

def Block.record (b : Block) (prev next : Option Nat) : Record :=
  ⟨b.offset, b.size, b.free, next, prev⟩

@[simp] theorem Block.block_record (b : Block) (prev next : Option Nat) :
    (b.record prev next).block = b := rfl

@[simp] theorem Block.offset_record (b : Block) (prev next : Option Nat) :
    (b.record prev next).offset = b.offset := rfl

@[simp] theorem Block.size_record (b : Block) (prev next : Option Nat) :
    (b.record prev next).size = b.size := rfl

@[simp] theorem Block.free_record (b : Block) (prev next : Option Nat) :
    (b.record prev next).free = b.free := rfl

@[simp] theorem Block.prev_record (b : Block) (prev next : Option Nat) :
    (b.record prev next).prev = prev := rfl

@[simp] theorem Block.next_record (b : Block) (prev next : Option Nat) :
    (b.record prev next).next = next := rfl

abbrev Cell := Nat × Block

namespace Layout

variable {l l' : Layout}

def headLink : List Cell → Option Nat → Option Nat
  | [], next => next
  | (index, _) :: _, _ => some index

def lastLink : Option Nat → List Cell → Option Nat
  | prev, [] => prev
  | _, (index, _) :: rest => lastLink (some index) rest

@[simp] theorem headLink_nil (next : Option Nat) : headLink [] next = next := rfl

@[simp] theorem headLink_cons (cell : Cell) (rest : List Cell) (next : Option Nat) :
    headLink (cell :: rest) next = some cell.1 := rfl

@[simp] theorem headLink_append (xs ys : List Cell) (next : Option Nat) :
    headLink (xs ++ ys) next = headLink xs (headLink ys next) := by
  cases xs <;> rfl

@[simp] theorem lastLink_nil (prev : Option Nat) : lastLink prev [] = prev := rfl

@[simp] theorem lastLink_cons (prev : Option Nat) (cell : Cell) (rest : List Cell) :
    lastLink prev (cell :: rest) = lastLink (some cell.1) rest := rfl

@[simp] theorem lastLink_append (prev : Option Nat) (xs ys : List Cell) :
    lastLink prev (xs ++ ys) = lastLink (lastLink prev xs) ys := by
  induction xs generalizing prev with
  | nil => rfl
  | cons cell xs ih => simp [ih]

theorem mem_of_headLink_eq {cells : List Cell} {i : Nat}
    (h : headLink cells none = some i) : i ∈ cells.map Prod.fst := by
  cases cells with
  | nil => simp at h
  | cons cell rest =>
      simp only [headLink_cons, Option.some.injEq] at h
      simp [h]

theorem mem_of_lastLink_eq {cells : List Cell} {i : Nat}
    (h : lastLink none cells = some i) : i ∈ cells.map Prod.fst := by
  rcases List.eq_nil_or_concat cells with rfl | ⟨front, cell, rfl⟩
  · simp at h
  · simp only [List.concat_eq_append, lastLink_append, lastLink_cons,
      lastLink_nil, Option.some.injEq] at h
    simp [h]

theorem lastLink_eq_none_iff {cells : List Cell} :
    lastLink none cells = none ↔ cells = [] := by
  rcases List.eq_nil_or_concat cells with rfl | ⟨front, cell, rfl⟩ <;> simp

/-! ## Segments of a chain -/

/-- The records of the cells lead to each other in both directions.

`prev` and `next` are the links out of both ends. -/
def Linked (l : Layout) : Option Nat → List Cell → Option Nat → Prop
  | _, [], _ => True
  | prev, (index, block) :: rest, next =>
      l.get? index = some (block.record prev (headLink rest next)) ∧
        l.Linked (some index) rest next

theorem linked_append (prev : Option Nat) (xs ys : List Cell) (next : Option Nat) :
    l.Linked prev (xs ++ ys) next ↔
      l.Linked prev xs (headLink ys next) ∧ l.Linked (lastLink prev xs) ys next := by
  induction xs generalizing prev with
  | nil => simp [Linked]
  | cons cell xs ih => simp [Linked, ih, and_assoc]

theorem Linked.congr {prev : Option Nat} {cells : List Cell} {next : Option Nat}
    (h : l.Linked prev cells next)
    (same : ∀ i ∈ cells.map Prod.fst, l'.get? i = l.get? i) :
    l'.Linked prev cells next := by
  induction cells generalizing prev with
  | nil => trivial
  | cons cell rest ih =>
      refine ⟨?_, ih h.2 fun i member => same i (by simp [member])⟩
      rw [same cell.1 (by simp)]
      exact h.1

theorem Linked.setPrev {prev prev' : Option Nat} {cells : List Cell}
    {next : Option Nat} (h : l.Linked prev cells next)
    (nodup : (cells.map Prod.fst).Nodup)
    (read : ∀ i ∈ cells.map Prod.fst, l'.get? i =
      if headLink cells none = some i then
        (l.get? i).map fun record => { record with prev := prev' }
      else
        l.get? i) :
    l'.Linked prev' cells next := by
  cases cells with
  | nil => trivial
  | cons cell rest =>
      rw [List.map_cons, List.nodup_cons] at nodup
      refine ⟨?_, h.2.congr fun i member => ?_⟩
      · rw [read cell.1 (by simp), headLink_cons, if_pos rfl, h.1]
        rfl
      · rw [read i (by simp [member]), headLink_cons, if_neg]
        rintro ⟨⟩
        exact nodup.1 member

theorem Linked.setNext {prev : Option Nat} {cells : List Cell}
    {next next' : Option Nat} (h : l.Linked prev cells next)
    (nodup : (cells.map Prod.fst).Nodup)
    (read : ∀ i ∈ cells.map Prod.fst, l'.get? i =
      if lastLink none cells = some i then
        (l.get? i).map fun record => { record with next := next' }
      else
        l.get? i) :
    l'.Linked prev cells next' := by
  rcases List.eq_nil_or_concat cells with rfl | ⟨front, cell, rfl⟩
  · trivial
  · rw [List.concat_eq_append] at h read nodup ⊢
    rw [List.map_append, List.nodup_append] at nodup
    rw [linked_append] at h ⊢
    refine ⟨h.1.congr fun i member => ?_, ?_, trivial⟩
    · rw [read i (by simp [member]), lastLink_append, lastLink_cons, lastLink_nil,
        if_neg]
      rintro ⟨⟩
      exact nodup.2.2 _ member _ (by simp) rfl
    · rw [read cell.1 (by simp), lastLink_append, lastLink_cons, lastLink_nil,
        if_pos rfl, h.2.1]
      rfl

/-! ## Whole chains -/

structure Chains (l : Layout) (cells : List Cell) : Prop where
  sound : l.arena.Sound
  first : l.first = headLink cells none
  linked : l.Linked none cells none
  nodup : (cells.map Prod.fst).Nodup
  complete : ∀ i, (l.get? i).isSome → i ∈ cells.map Prod.fst

section Reading

variable {cells before after : List Cell} {i : Nat} {b : Block}

theorem Chains.get?_of_split (h : l.Chains (before ++ (i, b) :: after)) :
    l.get? i = some (b.record (lastLink none before) (headLink after none)) :=
  ((linked_append _ _ _ _).mp h.linked).2.1

theorem Chains.get?_of_mem (h : l.Chains cells) (member : (i, b) ∈ cells) :
    ∃ prev next, l.get? i = some (b.record prev next) := by
  obtain ⟨before, after, rfl⟩ := List.append_of_mem member
  exact ⟨_, _, h.get?_of_split⟩

theorem Chains.isSome_get?_iff (h : l.Chains cells) (i : Nat) :
    i ∈ cells.map Prod.fst ↔ (l.get? i).isSome := by
  refine ⟨fun member => ?_, h.complete i⟩
  obtain ⟨⟨i, b⟩, cell, rfl⟩ := List.mem_map.mp member
  obtain ⟨prev, next, found⟩ := h.get?_of_mem cell
  simp [found]

theorem Chains.mem_of_get? (h : l.Chains cells) {record : Record}
    (found : l.get? i = some record) : (i, record.block) ∈ cells := by
  have live : i ∈ cells.map Prod.fst := h.complete i (by simp [found])
  obtain ⟨⟨i, b⟩, member, rfl⟩ := List.mem_map.mp live
  obtain ⟨prev, next, read⟩ := h.get?_of_mem member
  rw [found] at read
  cases read
  exact member

theorem Chains.lt_slotCount (h : l.Chains cells) (member : (i, b) ∈ cells) :
    i < l.slotCount := by
  obtain ⟨prev, next, found⟩ := h.get?_of_mem member
  exact Arena.lt_slotCount_of_get? found

theorem Chains.block_unique (h : l.Chains cells) {c : Block}
    (first : (i, b) ∈ cells) (second : (i, c) ∈ cells) : b = c := by
  obtain ⟨_, _, found⟩ := h.get?_of_mem first
  obtain ⟨_, _, again⟩ := h.get?_of_mem second
  rw [found, Option.some.injEq] at again
  exact congrArg Record.block again

theorem Chains.length_eq_live (h : l.Chains cells) : cells.length = l.live := by
  rw [← List.length_map]
  exact h.sound.length_eq_live h.nodup h.isSome_get?_iff

def recordsFrom : Option Nat → List Cell → List (Nat × Record)
  | _, [] => []
  | prev, (index, block) :: rest =>
      (index, block.record prev (headLink rest none)) ::
        recordsFrom (some index) rest

@[simp] theorem map_recordsFrom (prev : Option Nat) (cells : List Cell) :
    ((recordsFrom prev cells).map fun entry => (entry.1, entry.2.block)) = cells := by
  induction cells generalizing prev with
  | nil => rfl
  | cons cell rest ih => simp [recordsFrom, ih]

theorem Linked.walk_eq {prev : Option Nat} (h : l.Linked prev cells none)
    {steps : Nat} (enough : cells.length ≤ steps) :
    l.walk steps (headLink cells none) = recordsFrom prev cells := by
  -- There is a step for each cell, so the walk ends at the open link behind the last one.
  induction cells generalizing prev steps with
  | nil => simp [recordsFrom]
  | cons cell rest ih =>
      cases steps with
      | zero => simp at enough
      | succ steps =>
          have tail := ih h.2 (Nat.le_of_succ_le_succ enough)
          simp only [headLink_cons, walk, h.1, recordsFrom, Block.record, tail]

theorem Chains.entries_eq (h : l.Chains cells) :
    l.entries = recordsFrom none cells := by
  rw [entries, h.first, h.linked.walk_eq (Nat.le_of_eq h.length_eq_live)]

def chain (l : Layout) : List Cell := l.entries.map fun entry => (entry.1, entry.2.block)

theorem Chains.chain_eq (h : l.Chains cells) : l.chain = cells := by
  rw [chain, h.entries_eq, map_recordsFrom]

theorem map_chain (l : Layout) : l.chain.map Prod.snd = l.blocks := by
  rw [chain, List.map_map]
  rfl

theorem Chains.blocks_eq (h : l.Chains cells) :
    l.blocks = cells.map Prod.snd := by
  rw [← map_chain, h.chain_eq]

theorem Chains.unique (h : l.Chains cells) {others : List Cell}
    (h' : l.Chains others) : cells = others :=
  h.chain_eq.symm.trans h'.chain_eq

end Reading

theorem chains_spanning (size : Nat) :
    (spanning size).Chains [(0, ⟨0, size, true⟩)] where
  sound := Arena.sound_empty.insert _
  first := rfl
  linked := ⟨rfl, trivial⟩
  nodup := by simp
  complete i live := by
    rw [get?_spanning] at live
    split at live
    · simpa
    · simp at live

end Layout

end BlockPool
