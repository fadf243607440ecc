import BlockPool.Proofs.Layout.Placement

/-!
# Which handles an operation retires

A claim leaves every generation as it is; the slot of a rest that is used for
the first time starts at zero.  A release raises the generations of the slots
in `retiredBy`, once for each time they are listed: its own slot, the slot of
a successor that it takes in, and its own once more if it is taken in itself.
-/

namespace BlockPool.Layout

variable {l : Layout} {cells before after : List Cell} {i j : Nat} {b c : Block}
  {size : Nat}

def retiredBy (l : Layout) (policy : Coalescing) (index : Nat) : List Nat :=
  match l.get? index with
  | none => []
  | some record =>
      index :: (record.next.filter l.isFree).toList ++
        match policy with
        | .forward => []
        | .bidirectional => if record.prev.any l.isFree then [index] else []

/-- Apart from its own slot, a release retires the slots of free records only. -/
theorem mem_retiredBy {policy : Coalescing} (h : j ∈ l.retiredBy policy i) :
    j = i ∨ l.isFree j = true := by
  unfold retiredBy at h
  split at h
  · simp at h
  · rw [List.cons_append, List.mem_cons, List.mem_append] at h
    rcases h with own | next | again
    · exact .inl own
    · rw [Option.mem_toList, Option.filter_eq_some_iff] at next
      exact .inr next.2
    · cases policy with
      | forward => simp at again
      | bidirectional =>
          simp only at again
          split at again
          · exact .inl (List.mem_singleton.mp again)
          · simp at again

def freeHead (cells : List Cell) : Option Nat :=
  match cells with
  | [] => none
  | cell :: _ => if cell.2.free then some cell.1 else none

def endsFree (cells : List Cell) : Bool := cells.getLast?.any fun cell => cell.2.free

theorem Chains.retiredBy_eq (h : l.Chains (before ++ (i, b) :: after))
    (policy : Coalescing) :
    l.retiredBy policy i =
      i :: (freeHead after).toList ++
        match policy with
        | .forward => []
        | .bidirectional => if endsFree before then [i] else [] := by
  have next : (headLink after none).filter l.isFree = freeHead after := by
    cases after with
    | nil => rfl
    | cons cell rest =>
        rw [List.append_cons] at h
        rw [headLink_cons, Option.filter_some, h.isFree_eq, freeHead]
  have prev : (lastLink none before).any l.isFree = endsFree before := by
    rcases List.eq_nil_or_concat before with rfl | ⟨front, cell, rfl⟩
    · rfl
    · rw [List.concat_eq_append] at h ⊢
      rw [List.append_assoc, List.singleton_append] at h
      simp [endsFree, h.isFree_eq]
  rw [retiredBy, h.get?_of_split]
  simp only [Block.prev_record, Block.next_record, next, prev]

/-- The second layout has the generations of the first, raised by one for each
time a slot is listed. -/
def Raises (l l' : Layout) (slots : List Nat) : Prop :=
  ∀ k, l'.generation k = l.generation k + UInt32.ofNat (slots.count k)

theorem raises_nil {l' : Layout} (same : ∀ k, l'.generation k = l.generation k) :
    Raises l l' [] := by
  intro k
  rw [same k]
  exact (UInt32.add_zero _).symm

theorem raises_one {l' : Layout}
    (raised : ∀ k, l'.generation k =
      if k = j then l.generation k + 1 else l.generation k) :
    Raises l l' [j] := by
  intro k
  rw [raised k]
  by_cases same : k = j
  · rw [if_pos same, same, List.count_singleton_self]
    rfl
  · rw [if_neg same, List.count_singleton, if_neg (by simpa using Ne.symm same)]
    exact (UInt32.add_zero _).symm

theorem Raises.trans {l₁ l₂ l₃ : Layout} {first second : List Nat}
    (h : Raises l₁ l₂ first) (h' : Raises l₂ l₃ second) :
    Raises l₁ l₃ (first ++ second) := by
  intro k
  rw [h' k, h k, List.count_append, UInt32.ofNat_add, UInt32.add_assoc]

/-! ## Claims -/

theorem generation_claim (h : l.Chains (before ++ (i, b) :: after))
    (keepEmpty : Bool) (j : Nat) :
    (l.claim keepEmpty i size).generation j = l.generation j := by
  rw [claim_eq h.get?_of_split]
  split
  · have used := h.modify (fun record => { record with free := false, size := size })
      ⟨b.offset, size, false⟩ fun _ _ => rfl
    rw [generation_insertAfter used.sound, generation_modify]
  · rw [generation_modify]

theorem slotCount_claim (h : l.Chains (before ++ (i, b) :: after)) (keepEmpty : Bool) :
    (l.claim keepEmpty i size).slotCount =
      if (0 < b.size - size || keepEmpty) ∧ l.live = l.slotCount then l.slotCount + 1
      else l.slotCount := by
  have full : l.arena.vacant = [] ↔ l.live = l.slotCount := by
    have total := h.sound.live_add_vacant
    rw [← List.length_eq_zero_iff]
    simp only [live, slotCount]
    omega
  rw [claim_eq h.get?_of_split]
  by_cases rest : (0 < b.size - size || keepEmpty) = true
  · have used := h.modify (fun record => { record with free := false, size := size })
      ⟨b.offset, size, false⟩ fun _ _ => rfl
    rw [if_pos rest, slotCount_insertAfter, slotCount_modify]
    simp only [rest, true_and, ← full]
    rfl
  · rw [if_neg rest, slotCount_modify, if_neg fun both => rest both.1]

theorem slotCount_claim_bounds (l : Layout) (keepEmpty : Bool) (i size : Nat) :
    l.slotCount ≤ (l.claim keepEmpty i size).slotCount ∧
      (l.claim keepEmpty i size).slotCount ≤ l.slotCount + 1 := by
  cases found : l.get? i with
  | none => simp [Layout.claim, found]
  | some record =>
      simp only [Layout.claim, found]
      split
      · rw [slotCount_insertAfter, slotCount_modify]
        split <;> omega
      · rw [slotCount_modify]
        omega

/-! ## Releases -/

theorem generation_retire (l : Layout) (i j : Nat) :
    (l.retire i).generation j =
      if j = i ∧ i < l.slotCount then l.generation j + 1 else l.generation j := by
  simp only [generation, retire, Arena.generation?_retire]
  by_cases same : j = i
  · subst same
    by_cases inside : j < l.slotCount
    · rw [if_pos rfl, if_pos ⟨rfl, inside⟩]
      exact Arena.getD_generation?_succ inside
    · have none := (Arena.generation?_eq_none_iff j).mpr (Nat.not_lt.mp inside)
      simp [none, inside]
  · rw [if_neg same, if_neg fun both => same both.1]

theorem raises_retire (inside : i < l.slotCount) : Raises l (l.retire i) [i] := by
  refine raises_one fun k => ?_
  rw [generation_retire]
  simp only [inside, and_true]

theorem generation_absorb {record : Record} (found : l.get? j = some record) (k : Nat) :
    (l.absorb i j).generation k =
      if k = j then l.generation k + 1 else l.generation k := by
  have removed := generation_remove found k
  rw [remove_eq found] at removed
  rw [absorb, remove_eq found]
  exact (generation_modify ..).trans removed

theorem Chains.raises_absorb (h : l.Chains (before ++ (i, b) :: (j, c) :: after)) :
    Raises l (l.absorb i j) [j] := by
  rw [List.append_cons] at h
  exact raises_one (generation_absorb h.get?_of_split)

theorem Chains.raises_absorbNext (h : l.Chains (before ++ (i, b) :: after)) :
    Raises l (l.absorbNext i (headLink after none)) (freeHead after).toList := by
  cases after with
  | nil => exact raises_nil fun k => rfl
  | cons next rest =>
      have free := (List.append_cons before (i, b) (next :: rest) ▸ h).isFree_eq
      simp only [headLink_cons, Layout.absorbNext, free, freeHead]
      split
      · exact h.raises_absorb
      · exact raises_nil fun k => rfl

theorem Chains.raises_freeForward (h : l.Chains (before ++ (i, b) :: after)) :
    Raises l (l.freeForward i (headLink after none))
      (i :: (freeHead after).toList) := by
  have freed := h.modify (fun record => { record with free := true })
    { b with free := true } fun _ _ => rfl
  have own : Raises l ((l.modify i fun record =>
      { record with free := true }).retire i) [i] :=
    (raises_nil fun k => generation_modify ..).trans
      (raises_retire (Arena.lt_slotCount_of_get? freed.get?_of_split))
  exact own.trans (freed.retire i).raises_absorbNext

theorem Chains.raises_absorbPrev {cell : Cell} {rest : List Cell}
    (h : l.Chains (before ++ cell :: rest)) :
    Raises l (l.absorbPrev .bidirectional cell.1 (lastLink none before)).2
      (if endsFree before then [cell.1] else []) := by
  rcases List.eq_nil_or_concat before with rfl | ⟨front, prev, rfl⟩
  · exact raises_nil fun k => rfl
  · rw [List.concat_eq_append] at h ⊢
    rw [List.append_assoc, List.singleton_append] at h
    simp only [lastLink_append, lastLink_cons, lastLink_nil, Layout.absorbPrev,
      h.isFree_eq, endsFree, List.getLast?_append, List.getLast?_singleton,
      Option.some_or, Option.any_some]
    split
    · exact h.raises_absorb
    · exact raises_nil fun k => rfl

theorem Chains.raises_release (h : l.Chains (before ++ (i, b) :: after))
    (policy : Coalescing) :
    Raises l (l.release policy i).2 (l.retiredBy policy i) := by
  have forward := h.raises_freeForward
  rw [release_eq h.get?_of_split, h.retiredBy_eq]
  cases policy with
  | forward =>
      rw [List.append_nil]
      exact forward
  | bidirectional =>
      obtain ⟨c, rest, cells, _⟩ :=
        exists_mergeNext_eq i { b with free := true } after
      have merged := h.freeForward
      rw [cells] at merged
      exact forward.trans merged.raises_absorbPrev

theorem slotCount_absorb (l : Layout) (i j : Nat) :
    (l.absorb i j).slotCount = l.slotCount := by
  cases found : l.get? j with
  | none => simp [absorb, remove, found]
  | some record =>
      have removed := slotCount_remove l j
      rw [remove_eq found] at removed
      rw [absorb, remove_eq found]
      exact (slotCount_modify ..).trans removed

theorem slotCount_freeForward (l : Layout) (i : Nat) (next : Option Nat) :
    (l.freeForward i next).slotCount = l.slotCount := by
  have freed : ((l.modify i fun record =>
      { record with free := true }).retire i).slotCount = l.slotCount :=
    (Arena.slotCount_retire ..).trans (slotCount_modify ..)
  cases next with
  | none => exact freed
  | some next =>
      simp only [freeForward, absorbNext]
      split
      · exact (slotCount_absorb ..).trans freed
      · exact freed

theorem slotCount_release (l : Layout) (policy : Coalescing) (i : Nat) :
    (l.release policy i).2.slotCount = l.slotCount := by
  cases found : l.get? i with
  | none => rw [release, found]
  | some record =>
      have result := release_eq (b := record.block) found policy
      rw [result]
      unfold Layout.absorbPrev
      split
      · split
        · exact (slotCount_absorb ..).trans (slotCount_freeForward ..)
        · exact slotCount_freeForward ..
      · exact slotCount_freeForward ..

end BlockPool.Layout
