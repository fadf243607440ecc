import BlockPool.Proofs.Pool.Heap

/-!
# Ranges that handles name

A handle names the used cell at its index as long as it has the generation of
the slot there.  A claim makes one handle name the range that was claimed, a
release makes the handle of the released cell name nothing, and neither of
them changes what any other handle names.
-/

namespace BlockPool

namespace Layout

variable {l : Layout} {i : Nat}

def handleOf (l : Layout) (index : Nat) : Handle :=
  ⟨UInt32.ofNat index, l.generation index⟩

theorem handle?_eq {record : Record} (found : l.get? i = some record) :
    l.handle? i = some (l.handleOf i) := by
  obtain ⟨⟨slots, vacant, live⟩, first⟩ := l
  cases slot : slots[i]? with
  | none => simp [get?, Arena.get?, slot] at found
  | some s =>
      obtain ⟨generation, content⟩ := s
      simp only [get?, Arena.get?, slot] at found
      simp [handle?, Arena.handle?, handleOf, Layout.generation, Arena.generation?,
        slot, found]

theorem resolve?_eq (l : Layout) (handle : Handle) :
    l.resolve? handle =
      if (l.get? handle.index.toNat).isSome ∧
          l.generation handle.index.toNat = handle.generation then
        some handle.index.toNat
      else
        none := by
  obtain ⟨⟨slots, vacant, live⟩, first⟩ := l
  cases slot : slots[handle.index.toNat]? with
  | none => simp [resolve?, Arena.resolve?, get?, Arena.get?, slot]
  | some s =>
      obtain ⟨generation, content⟩ := s
      cases content <;>
        simp [resolve?, Arena.resolve?, get?, Arena.get?, Layout.generation,
          Arena.generation?, slot]

/-- Where the index fits into a word, handles are told apart by slot and generation. -/
theorem eq_handleOf_iff (small : i < UInt32.size) (handle : Handle) :
    handle = l.handleOf i ↔
      handle.index.toNat = i ∧ l.generation i = handle.generation := by
  obtain ⟨index, generation⟩ := handle
  simp only [handleOf, Handle.mk.injEq]
  constructor
  · rintro ⟨rfl, rfl⟩
    exact ⟨UInt32.toNat_ofNat_of_lt' small, rfl⟩
  · rintro ⟨rfl, rfl⟩
    exact ⟨by simp, rfl⟩

end Layout

namespace Heap

open Layout

variable {heap : Heap} {cells : List Cell} {i size : Nat} {b : Block}
  {handle : Handle}

def range? (heap : Heap) (handle : Handle) : Option Block :=
  match heap.usedRecord handle with
  | .error _ => none
  | .ok (_, record) => some record.block

theorem usedRecord_eq (heap : Heap) (handle : Handle) :
    heap.usedRecord handle =
      match heap.layout.get? handle.index.toNat with
      | none => .error (.notFound handle)
      | some record =>
          if heap.layout.generation handle.index.toNat = handle.generation ∧
              record.free = false then
            .ok (handle.index.toNat, record)
          else
            .error (.notFound handle) := by
  rw [usedRecord, resolve?_eq]
  cases found : heap.layout.get? handle.index.toNat with
  | none => rfl
  | some record =>
      by_cases current :
        heap.layout.generation handle.index.toNat = handle.generation
      · cases free : record.free <;> simp [current, found, free]
      · simp [current]

theorem usedRecord_of_range?_eq_none (none : heap.range? handle = none) :
    heap.usedRecord handle = .error (.notFound handle) := by
  rw [range?] at none
  cases read : heap.usedRecord handle with
  | ok found => simp [read] at none
  | error error =>
      rw [usedRecord_eq] at read
      split at read
      · rw [← read]
      · split at read
        · cases read
        · rw [← read]

theorem exists_usedRecord_of_range? (named : heap.range? handle = some b) :
    ∃ record, heap.usedRecord handle = .ok (handle.index.toNat, record) ∧
      record.block = b := by
  rw [range?] at named
  cases read : heap.usedRecord handle with
  | error error => simp [read] at named
  | ok found =>
      obtain ⟨index, record⟩ := found
      simp only [read, Option.some.injEq] at named
      rw [usedRecord_eq] at read
      split at read
      · cases read
      · split at read
        · cases read
          exact ⟨record, rfl, named⟩
        · cases read

theorem Sound.range?_eq_some_iff (h : heap.Sound cells) :
    heap.range? handle = some b ↔
      (handle.index.toNat, b) ∈ usedCells cells ∧
        heap.layout.generation handle.index.toNat = handle.generation := by
  rw [mem_usedCells]
  constructor
  · intro named
    obtain ⟨record, read, rfl⟩ := exists_usedRecord_of_range? named
    rw [usedRecord_eq] at read
    split at read
    · cases read
    · next found =>
        split at read
        · next current =>
            cases read
            exact ⟨⟨h.chains.mem_of_get? found, current.2⟩, current.1⟩
        · cases read
  · rintro ⟨⟨member, (inUse : b.free = false)⟩, current⟩
    obtain ⟨prev, next, found⟩ := h.chains.get?_of_mem member
    rw [range?, usedRecord_eq, found]
    simp [current, inUse]

theorem Sound.range?_eq_none (h : heap.Sound cells) (member : (i, b) ∈ cells)
    (free : b.free = true) (own : handle.index.toNat = i) :
    heap.range? handle = none := by
  cases named : heap.range? handle with
  | none => rfl
  | some c =>
      obtain ⟨used, inUse⟩ := mem_usedCells.mp (h.range?_eq_some_iff.mp named).1
      have same := h.chains.block_unique (own ▸ member) used
      simp_all

/-! ## Claims and releases -/

theorem Sound.range?_claimAt (h : heap.Sound cells) (member : (i, b) ∈ cells)
    (fit : fits size b = true) (handle : Handle) :
    (heap.claimAt i size).range? handle =
      if handle.index.toNat = i ∧ heap.layout.generation i = handle.generation then
        some ⟨b.offset, size, false⟩
      else
        heap.range? handle := by
  obtain ⟨before, after, rfl⟩ := List.append_of_mem member
  have free := (fits_iff.mp fit).1
  obtain ⟨notBefore, notAfter⟩ := not_mem_of_split h.chains.nodup
  have outside {c : Block} : (i, c) ∉ usedCells before ∧ (i, c) ∉ usedCells after := by
    constructor
    · exact fun member => notBefore (List.mem_map_of_mem (mem_usedCells.mp member).1)
    · exact fun member => notAfter (List.mem_map_of_mem (mem_usedCells.mp member).1)
  ext c
  rw [(h.claimAt fit).range?_eq_some_iff, layout_claimAt, generation_claim h.chains]
  split
  · next own =>
      obtain ⟨rfl, current⟩ := own
      simp [usedCells_claimed, outside, current, eq_comm]
  · next other =>
      rw [h.range?_eq_some_iff]
      simp only [usedCells_append, usedCells_claimed, usedCells_cons, free,
        List.mem_append, List.mem_cons]
      grind

theorem generation_release (h : heap.Sound cells) (used : (i, b) ∈ usedCells cells)
    {j : Nat} {c : Block} (other : (j, c) ∈ usedCells cells) (distinct : j ≠ i) :
    (heap.release i).2.layout.generation j = heap.layout.generation j := by
  obtain ⟨before, after, rfl⟩ := List.append_of_mem (mem_usedCells.mp used).1
  obtain ⟨member, inUse⟩ := mem_usedCells.mp other
  obtain ⟨prev, next, found⟩ := h.chains.get?_of_mem member
  have kept : j ∉ heap.layout.retiredBy heap.config.coalesce i := by
    intro retired
    rcases mem_retiredBy retired with same | free
    · exact distinct same
    · simp_all [isFree]
  rw [layout_release, h.chains.raises_release heap.config.coalesce j,
    List.count_eq_zero.mpr kept]
  exact UInt32.add_zero _

theorem Sound.range?_release (h : heap.Sound cells) (used : (i, b) ∈ usedCells cells)
    (handle : Handle) :
    (heap.release i).2.range? handle =
      if handle.index.toNat = i then none else heap.range? handle := by
  obtain ⟨member, (inUse : b.free = false)⟩ := mem_usedCells.mp used
  obtain ⟨before, after, rfl⟩ := List.append_of_mem member
  obtain ⟨notBefore, notAfter⟩ := not_mem_of_split h.chains.nodup
  ext c
  rw [(h.release inUse).range?_eq_some_iff, usedCells_released]
  split
  · next own =>
      have outside : (i, c) ∉ usedCells before ++ usedCells after := by
        simp only [List.mem_append, mem_usedCells, not_or, not_and]
        exact ⟨fun member => absurd (List.mem_map_of_mem member) notBefore,
          fun member => absurd (List.mem_map_of_mem member) notAfter⟩
      simp [own, outside]
  · next other =>
      rw [h.range?_eq_some_iff]
      have same : (handle.index.toNat, c) ∈ usedCells before ++ usedCells after ↔
          (handle.index.toNat, c) ∈ usedCells (before ++ (i, b) :: after) := by
        simp [usedCells_cons, inUse, other]
      rw [same]
      refine and_congr_right fun there => ?_
      rw [generation_release h used there other]

end Heap

end BlockPool
