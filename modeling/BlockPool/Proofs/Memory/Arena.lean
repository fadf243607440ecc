import BlockPool.Memory.Arena

/-!
# Arenas whose books are in order

The stack of vacant slots of a sound arena names every slot without content,
and names it once.  A content is then put into a slot that has none; this
leaves the generation of the slot alone, and only emptying or retiring a slot
raises it.
-/

namespace BlockPool.Arena

variable {α : Type} {a : Arena α}

structure Sound (a : Arena α) : Prop where
  nodup_vacant : a.vacant.Nodup
  mem_vacant : ∀ i, i ∈ a.vacant ↔ i < a.slotCount ∧ a.get? i = none
  live_add_vacant : a.live + a.vacant.length = a.slotCount

theorem lt_slotCount_of_get? {i : Nat} {content : α}
    (h : a.get? i = some content) : i < a.slotCount := by
  by_cases inside : i < a.slots.size
  · exact inside
  · simp [get?, inside] at h

theorem get?_eq_none_of_slotCount_le {i : Nat} (h : a.slotCount ≤ i) :
    a.get? i = none := by
  cases content : a.get? i with
  | none => rfl
  | some c =>
      have := lt_slotCount_of_get? content
      omega

theorem generation?_eq_none_iff (i : Nat) :
    a.generation? i = none ↔ a.slotCount ≤ i := by
  simp [generation?, slotCount]

/-! ## Which slot is filled -/

def nextIndex (a : Arena α) : Nat := a.vacant.headD a.slotCount

@[simp] theorem insert_fst (a : Arena α) (content : α) :
    (a.insert content).1 = a.nextIndex := by
  obtain ⟨slots, vacant, live⟩ := a
  cases vacant <;> rfl

theorem Sound.get?_nextIndex (h : a.Sound) : a.get? a.nextIndex = none := by
  obtain ⟨slots, vacant, live⟩ := a
  cases vacant with
  | nil => exact get?_eq_none_of_slotCount_le (Nat.le_refl _)
  | cons index vacant => exact ((h.mem_vacant index).mp (by simp)).2

theorem slotCount_insert (a : Arena α) (content : α) :
    (a.insert content).2.slotCount =
      if a.vacant = [] then a.slotCount + 1 else a.slotCount := by
  obtain ⟨slots, vacant, live⟩ := a
  cases vacant <;> simp [insert, slotCount]

@[simp] theorem slotCount_erase (a : Arena α) (index : Nat) :
    (a.erase index).slotCount = a.slotCount := by
  unfold erase
  cases a.get? index <;> simp [slotCount]

@[simp] theorem live_insert (a : Arena α) (content : α) :
    (a.insert content).2.live = a.live + 1 := by
  obtain ⟨slots, vacant, live⟩ := a
  cases vacant <;> rfl

theorem vacant_insert (a : Arena α) (content : α) :
    (a.insert content).2.vacant = a.vacant.tail := by
  obtain ⟨slots, vacant, live⟩ := a
  cases vacant <;> rfl

theorem Sound.get?_insert (h : a.Sound) (content : α) (i : Nat) :
    (a.insert content).2.get? i =
      if i = a.nextIndex then some content else a.get? i := by
  obtain ⟨slots, vacant, live⟩ := a
  cases vacant with
  | nil =>
      simp only [nextIndex, slotCount, List.headD_nil, insert, get?,
        Array.getElem?_push]
      by_cases last : i = slots.size <;> simp [last]
  | cons index vacant =>
      have inside := ((h.mem_vacant index).mp (by simp)).1
      simp only [slotCount] at inside
      simp only [nextIndex, List.headD_cons, insert, get?, Array.getElem?_modify]
      by_cases same : i = index
      · subst same
        simp [inside]
      · simp [same, Ne.symm same]

/-- A slot that is used again goes on with its generation; a new one starts at zero. -/
theorem Sound.generation?_insert (h : a.Sound) (content : α) (i : Nat) :
    (a.insert content).2.generation? i =
      if i = a.nextIndex then some ((a.generation? i).getD 0)
      else a.generation? i := by
  obtain ⟨slots, vacant, live⟩ := a
  cases vacant with
  | nil =>
      simp only [nextIndex, slotCount, List.headD_nil, insert, generation?,
        Array.getElem?_push]
      by_cases last : i = slots.size <;> simp [last]
  | cons index vacant =>
      have inside := ((h.mem_vacant index).mp (by simp)).1
      simp only [slotCount] at inside
      simp only [nextIndex, List.headD_cons, insert, generation?,
        Array.getElem?_modify]
      by_cases same : i = index
      · subst same
        simp [inside]
      · simp [same, Ne.symm same]

/-! ## Generations -/

@[simp] theorem generation?_modify (a : Arena α) (index i : Nat)
    (change : α → α) :
    (a.modify index change).generation? i = a.generation? i := by
  simp only [generation?, modify, Array.getElem?_modify]
  by_cases same : index = i <;> simp [same, Function.comp_def]

theorem generation?_retire (a : Arena α) (index i : Nat) :
    (a.retire index).generation? i =
      if i = index then (a.generation? i).map (· + 1)
      else a.generation? i := by
  simp only [generation?, retire, Array.getElem?_modify]
  by_cases same : i = index
  · simp [same, Function.comp_def]
  · simp [same, Ne.symm same]

theorem generation?_erase (a : Arena α) {index : Nat} {content : α}
    (found : a.get? index = some content) (i : Nat) :
    (a.erase index).generation? i =
      if i = index then (a.generation? i).map (· + 1)
      else a.generation? i := by
  simp only [generation?, erase, found, Array.getElem?_modify]
  by_cases same : i = index
  · simp [same, Function.comp_def]
  · simp [same, Ne.symm same]

theorem getD_generation?_succ {i : Nat} (inside : i < a.slotCount) :
    ((a.generation? i).map (· + 1)).getD 0 = (a.generation? i).getD 0 + 1 := by
  cases old : a.generation? i with
  | none =>
      have outside := (generation?_eq_none_iff i).mp old
      omega
  | some g => rfl

/-! ## Soundness -/

theorem Sound.live_le (h : a.Sound) : a.live ≤ a.slotCount :=
  Nat.le_of_add_right_le (Nat.le_of_eq h.live_add_vacant)

theorem sound_empty : (empty : Arena α).Sound where
  nodup_vacant := List.nodup_nil
  mem_vacant := by simp [empty, slotCount]
  live_add_vacant := rfl

theorem Sound.insert (h : a.Sound) (content : α) :
    (a.insert content).2.Sound := by
  have count := slotCount_insert a content
  have total := h.live_add_vacant
  refine ⟨?_, ?_, ?_⟩
  · rw [vacant_insert]
    exact h.nodup_vacant.sublist (List.tail_sublist _)
  · intro i
    rw [vacant_insert, h.get?_insert content, count]
    have vacant_iff := h.mem_vacant i
    have distinct := h.nodup_vacant
    unfold nextIndex
    cases stack : a.vacant with
    | nil =>
        rw [stack] at vacant_iff
        grind
    | cons index vacant =>
        rw [stack] at distinct vacant_iff
        grind
  · rw [vacant_insert, live_insert, count]
    cases stack : a.vacant with
    | nil => simp_all
    | cons index vacant =>
        rw [stack] at total
        simp at total ⊢
        omega

theorem Sound.modify (h : a.Sound) (index : Nat) (change : α → α) :
    (a.modify index change).Sound where
  nodup_vacant := h.nodup_vacant
  mem_vacant i := by
    rw [slotCount_modify, get?_modify]
    refine (h.mem_vacant i).trans ?_
    split <;> simp
  live_add_vacant := by
    rw [slotCount_modify]
    exact h.live_add_vacant

theorem Sound.retire (h : a.Sound) (index : Nat) : (a.retire index).Sound where
  nodup_vacant := h.nodup_vacant
  mem_vacant i := by
    rw [slotCount_retire, get?_retire]
    exact h.mem_vacant i
  live_add_vacant := by
    rw [slotCount_retire]
    exact h.live_add_vacant

/-- Slots with content and vacant ones do not overlap, so there is no room for more live slots
than are counted. -/
theorem Sound.length_le_live (h : a.Sound) {indices : List Nat} (nodup : indices.Nodup)
    (live : ∀ i ∈ indices, (a.get? i).isSome) : indices.length ≤ a.live := by
  have apart : (indices ++ a.vacant).Nodup := by
    refine List.nodup_append.mpr ⟨nodup, h.nodup_vacant, ?_⟩
    rintro i used j vacant rfl
    have content := live i used
    simp [((h.mem_vacant i).mp vacant).2] at content
  have inside : indices ++ a.vacant ⊆ List.range a.slotCount := by
    intro i member
    rcases List.mem_append.mp member with used | vacant
    · obtain ⟨content, found⟩ := Option.isSome_iff_exists.mp (live i used)
      exact List.mem_range.mpr (lt_slotCount_of_get? found)
    · exact List.mem_range.mpr ((h.mem_vacant i).mp vacant).1
  have bound := apart.length_le_of_subset inside
  have total := h.live_add_vacant
  rw [List.length_append, List.length_range] at bound
  omega

/-- As many different live slots as are counted are all the live slots. -/
theorem Sound.mem_of_live_le_length (h : a.Sound) {indices : List Nat} (nodup : indices.Nodup)
    (live : ∀ i ∈ indices, (a.get? i).isSome) (enough : a.live ≤ indices.length) {i : Nat}
    (content : (a.get? i).isSome) : i ∈ indices := by
  refine Decidable.byContradiction fun missing => ?_
  have more := h.length_le_live (List.nodup_cons.mpr ⟨missing, nodup⟩)
    (List.forall_mem_cons.mpr ⟨content, live⟩)
  rw [List.length_cons] at more
  omega

theorem Sound.length_vacant_lt (h : a.Sound) {index : Nat} {content : α}
    (found : a.get? index = some content) :
    a.vacant.length < a.slotCount := by
  have one : [index].length ≤ a.live := h.length_le_live (by simp) (by simp [found])
  have total := h.live_add_vacant
  rw [List.length_singleton] at one
  omega

theorem Sound.erase (h : a.Sound) (index : Nat) : (a.erase index).Sound := by
  cases found : a.get? index with
  | none => simpa [Arena.erase, found] using h
  | some content =>
      have vacant : (a.erase index).vacant = index :: a.vacant := by
        simp [Arena.erase, found]
      have live : (a.erase index).live = a.live - 1 := by
        simp [Arena.erase, found]
      have inside := lt_slotCount_of_get? found
      refine ⟨?_, ?_, ?_⟩
      · rw [vacant]
        refine List.nodup_cons.mpr ⟨fun member => ?_, h.nodup_vacant⟩
        simp [((h.mem_vacant index).mp member).2] at found
      · intro i
        rw [vacant, slotCount_erase, get?_erase, List.mem_cons, h.mem_vacant]
        by_cases same : i = index <;> simp [same, inside]
      · rw [vacant, live, slotCount_erase, List.length_cons]
        have room := h.length_vacant_lt found
        have total := h.live_add_vacant
        omega

theorem Sound.length_eq_live (h : a.Sound) {indices : List Nat}
    (nodup : indices.Nodup)
    (complete : ∀ i, i ∈ indices ↔ (a.get? i).isSome) :
    indices.length = a.live := by
  refine Nat.le_antisymm (h.length_le_live nodup fun i => (complete i).mp) ?_
  have covered : List.range a.slotCount ⊆ indices ++ a.vacant := by
    intro i inside
    rw [List.mem_append, complete i, h.mem_vacant i]
    cases content : a.get? i with
    | none => exact .inr ⟨List.mem_range.mp inside, rfl⟩
    | some c => exact .inl rfl
  have bound := List.nodup_range.length_le_of_subset covered
  have total := h.live_add_vacant
  rw [List.length_append, List.length_range] at bound
  omega

end BlockPool.Arena
