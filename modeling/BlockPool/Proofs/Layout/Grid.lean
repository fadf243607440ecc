import BlockPool.Proofs.Layout.Crowding

/-!
# Blocks on a grid

Where every block that is claimed has the same size, blocks begin at multiples
of that size, however they are merged.  A free block that is too small for one
more is then empty, unless it is the last one.  So no room is lost between the
blocks: one more fits as soon as the unused addresses are enough for it.
-/

namespace BlockPool

structure Gridded (unit : Nat) (blocks : List Block) : Prop where
  aligned : ∀ b ∈ blocks, unit ∣ b.offset
  whole : ∀ b ∈ blocks, b.free = false → b.size = unit

namespace Gridded

variable {unit start stop size : Nat} {b : Block} {blocks rest : List Block}

theorem of_cons (h : Gridded unit (b :: rest)) : Gridded unit rest where
  aligned c member := h.aligned c (List.mem_cons_of_mem b member)
  whole c member := h.whole c (List.mem_cons_of_mem b member)

theorem usedTotal_eq (h : Gridded unit blocks) :
    usedTotal blocks = unit * usedCount blocks := by
  induction blocks with
  | nil => rfl
  | cons b rest ih =>
      rw [usedTotal, usedCount_cons, ih h.of_cons]
      cases free : b.free with
      | true => simp
      | false =>
          have size := h.whole b List.mem_cons_self free
          simp only [size, Bool.false_eq_true, if_false]
          rw [Nat.mul_succ, Nat.add_comm]

/-- A free block that is too small is empty if another block begins where it ends. -/
theorem size_eq_zero (h : Gridded unit (b :: rest))
    (covers : Covers start (b :: rest) stop) (more : rest ≠ []) (small : b.size < unit) :
    b.size = 0 := by
  obtain ⟨c, others, rfl⟩ := List.exists_cons_of_ne_nil more
  have begins : c.offset = b.offset + b.size := covers.2.1
  have here := h.aligned b List.mem_cons_self
  have next := h.aligned c (by simp)
  rw [begins, Nat.dvd_add_right here] at next
  exact Nat.eq_zero_of_dvd_of_lt next small

theorem lt_of_small (h : Gridded unit blocks) (covers : Covers start blocks stop)
    (positive : 0 < unit) (small : ∀ b ∈ blocks, b.free = true → b.size < unit) :
    stop < start + usedTotal blocks + unit := by
  induction blocks generalizing start with
  | nil =>
      have same : start = stop := covers
      omega
  | cons b rest ih =>
      have begins := covers.1
      have tail := ih h.of_cons covers.2
        fun c member => small c (List.mem_cons_of_mem b member)
      rw [usedTotal]
      cases free : b.free with
      | false =>
          simp only [Bool.false_eq_true, if_false]
          omega
      | true =>
          have less := small b List.mem_cons_self free
          simp only [if_true]
          by_cases last : rest = []
          · subst last
            have ends : b.offset + b.size = stop := covers.2
            omega
          · have empty := h.size_eq_zero covers last less
            omega

theorem size_le_freeTotal (member : b ∈ blocks) (free : b.free = true) :
    b.size ≤ ((blocks.filter Block.free).map Block.size).sum := by
  obtain ⟨before, after, rfl⟩ := List.append_of_mem member
  simp only [List.filter_append, List.filter_cons_of_pos free, List.map_append,
    List.map_cons, List.sum_append, List.sum_cons]
  omega

theorem exists_room_iff (h : Gridded unit blocks) (covers : Covers 0 blocks size)
    (positive : 0 < unit) :
    (∃ b ∈ blocks, b.free = true ∧ unit ≤ b.size) ↔ usedTotal blocks + unit ≤ size := by
  constructor
  · rintro ⟨b, member, free, room⟩
    have part := size_le_freeTotal member free
    have parts := Layout.usedTotal_add_freeTotal blocks
    have total := covers.add_sum
    omega
  · intro room
    by_contra full
    have small : ∀ b ∈ blocks, b.free = true → b.size < unit := by
      intro b member free
      exact Nat.lt_of_not_le fun room => full ⟨b, member, free, room⟩
    have less := h.lt_of_small covers positive small
    omega

end Gridded

namespace Layout

variable {before after : List Cell} {i new unit : Nat} {b : Block} {keepEmpty : Bool}

theorem eq_of_mem_claimed {cell : Cell} {size : Nat}
    (member : cell ∈ claimed keepEmpty new size (i, b)) :
    cell.2 = ⟨b.offset, size, false⟩ ∨
      cell.2 = ⟨b.offset + size, b.size - size, true⟩ := by
  rcases List.mem_cons.mp member with rfl | rest
  · exact .inl rfl
  · split at rest
    · rw [List.mem_singleton.mp rest]
      exact .inr rfl
    · cases rest

theorem gridded_claimed (h : Gridded unit ((before ++ (i, b) :: after).map Prod.snd)) :
    Gridded unit
      ((before ++ claimed keepEmpty new unit (i, b) ++ after).map Prod.snd) := by
  have here := h.aligned b (by simp)
  have parts : ∀ c ∈ (before ++ claimed keepEmpty new unit (i, b) ++ after).map Prod.snd,
      c ∈ (before ++ (i, b) :: after).map Prod.snd ∨ c = ⟨b.offset, unit, false⟩ ∨
        c = ⟨b.offset + unit, b.size - unit, true⟩ := by
    intro c member
    obtain ⟨cell, there, rfl⟩ := List.mem_map.mp member
    rw [List.mem_append, List.mem_append] at there
    rcases there with (front | cut) | back
    · exact .inl (List.mem_map_of_mem (List.mem_append_left _ front))
    · exact .inr (eq_of_mem_claimed cut)
    · exact .inl (List.mem_map_of_mem
        (List.mem_append_right _ (List.mem_cons_of_mem _ back)))
  constructor
  · intro c member
    rcases parts c member with old | rfl | rfl
    · exact h.aligned c old
    · exact here
    · exact (Nat.dvd_add_right here).mpr (Nat.dvd_refl unit)
  · intro c member used
    rcases parts c member with old | rfl | rfl
    · exact h.whole c old used
    · rfl
    · cases used

theorem gridded_released (policy : Coalescing)
    (h : Gridded unit ((before ++ (i, b) :: after).map Prod.snd)) :
    Gridded unit ((released policy before i b after).map Prod.snd) := by
  constructor
  · intro c member
    have place := (offsets_released policy before i b after).subset
      (List.mem_map_of_mem member)
    obtain ⟨d, there, same⟩ := List.mem_map.mp place
    exact same ▸ h.aligned d there
  · intro c member used
    obtain ⟨cell, there, rfl⟩ := List.mem_map.mp member
    have kept := mem_usedCells.mpr ⟨there, used⟩
    rw [usedCells_released, ← usedCells_append, mem_usedCells, List.mem_append] at kept
    refine h.whole cell.2 (List.mem_map_of_mem ?_) used
    rw [List.mem_append]
    exact kept.1.imp_right (List.mem_cons_of_mem _)

theorem gridded_spanning (unit size : Nat) : Gridded unit [⟨0, size, true⟩] := by
  constructor
  · intro c member
    cases List.mem_singleton.mp member
    exact Nat.dvd_zero unit
  · intro c member used
    cases List.mem_singleton.mp member
    cases used

end Layout

end BlockPool
