import BlockPool.Proofs.Layout.Chain

/-!
# Splicing

Making a record behind another one, and taking one out, touch the links of the
neighbours only.  On the cells of a chain the first puts a cell behind another
and the second drops one, wherever in the chain this is.
-/

namespace BlockPool.Layout

variable {l : Layout} {index : Nat} {record : Record}

/-- The generation of a slot; that of a slot yet to be made is the first one. -/
def generation (l : Layout) (index : Nat) : UInt32 :=
  (l.arena.generation? index).getD 0

def nextIndex (l : Layout) : Nat := l.arena.nextIndex

@[simp] theorem nextIndex_modify (l : Layout) (index : Nat)
    (change : Record → Record) : (l.modify index change).nextIndex = l.nextIndex := by
  simp only [nextIndex, modify, Arena.nextIndex, Arena.slotCount_modify]
  rfl

/-! ## Changing the record at the end of a link -/

def modifyLink (l : Layout) (link : Option Nat) (change : Record → Record) :
    Layout :=
  match link with
  | none => l
  | some index => l.modify index change

theorem get?_modifyLink (l : Layout) (link : Option Nat)
    (change : Record → Record) (j : Nat) :
    (l.modifyLink link change).get? j =
      if link = some j then (l.get? j).map change else l.get? j := by
  cases link with
  | none => simp [modifyLink]
  | some index => simp [modifyLink, get?_modify, eq_comm]

theorem sound_modify (sound : l.arena.Sound) (index : Nat)
    (change : Record → Record) : (l.modify index change).arena.Sound :=
  sound.modify index change

theorem sound_modifyLink (sound : l.arena.Sound) (link : Option Nat)
    (change : Record → Record) : (l.modifyLink link change).arena.Sound := by
  cases link with
  | none => exact sound
  | some index => exact sound.modify index change

@[simp] theorem generation_modify (l : Layout) (index : Nat)
    (change : Record → Record) (j : Nat) :
    (l.modify index change).generation j = l.generation j := by
  simp [generation, modify]

@[simp] theorem generation_modifyLink (l : Layout) (link : Option Nat)
    (change : Record → Record) (j : Nat) :
    (l.modifyLink link change).generation j = l.generation j := by
  cases link with
  | none => rfl
  | some index => exact generation_modify ..

@[simp] theorem slotCount_modify (l : Layout) (index : Nat)
    (change : Record → Record) :
    (l.modify index change).slotCount = l.slotCount :=
  Arena.slotCount_modify ..

@[simp] theorem slotCount_modifyLink (l : Layout) (link : Option Nat)
    (change : Record → Record) :
    (l.modifyLink link change).slotCount = l.slotCount := by
  cases link with
  | none => rfl
  | some index => exact Arena.slotCount_modify ..

@[simp] theorem live_modifyLink (l : Layout) (link : Option Nat)
    (change : Record → Record) : (l.modifyLink link change).live = l.live := by
  cases link <;> rfl

@[simp] theorem first_modifyLink (l : Layout) (link : Option Nat)
    (change : Record → Record) : (l.modifyLink link change).first = l.first := by
  cases link <;> rfl

/-! ## Making a record -/

theorem insertAfter_eq_bind (l : Layout) (index offset size : Nat) (free : Bool) :
    l.insertAfter index offset size free =
      (l.nextIndex,
        (({ l with arena :=
              (l.arena.insert
                ⟨offset, size, free, (l.get? index).bind Record.next, some index⟩).2 }
          : Layout).modify index fun before =>
            { before with next := some l.nextIndex }).modifyLink
              ((l.get? index).bind Record.next) fun after =>
                { after with prev := some l.nextIndex }) := by
  simp only [insertAfter, Arena.insert_fst, nextIndex]
  cases (l.get? index).bind Record.next <;> rfl

theorem insertAfter_eq (found : l.get? index = some record)
    (offset size : Nat) (free : Bool) :
    l.insertAfter index offset size free =
      (l.nextIndex,
        (({ l with arena :=
              (l.arena.insert ⟨offset, size, free, record.next, some index⟩).2 }
          : Layout).modify index fun before =>
            { before with next := some l.nextIndex }).modifyLink record.next
              fun after => { after with prev := some l.nextIndex }) := by
  rw [insertAfter_eq_bind, found, Option.bind_some]

theorem get?_insertAfter (sound : l.arena.Sound)
    (found : l.get? index = some record) (other : record.next ≠ some index)
    (taken : record.next ≠ some l.nextIndex) (offset size : Nat) (free : Bool)
    (j : Nat) :
    (l.insertAfter index offset size free).2.get? j =
      if j = l.nextIndex then
        some ⟨offset, size, free, record.next, some index⟩
      else if j = index then
        some { record with next := some l.nextIndex }
      else if record.next = some j then
        (l.get? j).map fun after => { after with prev := some l.nextIndex }
      else
        l.get? j := by
  have vacant : l.get? l.nextIndex = none := sound.get?_nextIndex
  have made (content : Record) (i : Nat) :
      ({ l with arena := (l.arena.insert content).2 } : Layout).get? i =
        if i = l.nextIndex then some content else l.get? i :=
    sound.get?_insert content i
  rw [insertAfter_eq found, get?_modifyLink, get?_modify, made]
  grind

theorem first_insertAfter (l : Layout) (index offset size : Nat) (free : Bool) :
    (l.insertAfter index offset size free).2.first = l.first := by
  simp only [insertAfter]
  cases (l.get? index).bind Record.next <;> rfl

theorem sound_insertAfter (sound : l.arena.Sound) (index offset size : Nat)
    (free : Bool) : (l.insertAfter index offset size free).2.arena.Sound := by
  rw [insertAfter_eq_bind]
  exact sound_modifyLink (sound_modify (l := { l with arena := _ })
    (sound.insert _) _ _) _ _

theorem generation_insertAfter (sound : l.arena.Sound) (index offset size : Nat)
    (free : Bool) (j : Nat) :
    (l.insertAfter index offset size free).2.generation j = l.generation j := by
  rw [insertAfter_eq_bind, generation_modifyLink, generation_modify]
  simp only [generation, sound.generation?_insert]
  split <;> rfl

theorem slotCount_insertAfter (l : Layout) (index offset size : Nat) (free : Bool) :
    (l.insertAfter index offset size free).2.slotCount =
      if l.arena.vacant = [] then l.slotCount + 1 else l.slotCount := by
  rw [insertAfter_eq_bind, slotCount_modifyLink, slotCount_modify]
  exact Arena.slotCount_insert ..

@[simp] theorem live_insertAfter (l : Layout) (index offset size : Nat) (free : Bool) :
    (l.insertAfter index offset size free).2.live = l.live + 1 := by
  rw [insertAfter_eq_bind, live_modifyLink, live_modify]
  exact Arena.live_insert ..

/-! ## Taking a record out -/

/-- A layout whose record at `index` is gone but still linked. -/
def erase (l : Layout) (index : Nat) : Layout :=
  { l with arena := l.arena.erase index }

theorem get?_erase (l : Layout) (index j : Nat) :
    (l.erase index).get? j = if j = index then none else l.get? j :=
  Arena.get?_erase ..

/-- Makes the record before a gap, or the head where there is none, lead past it. -/
def bypass (l : Layout) (prev next : Option Nat) : Layout :=
  match prev with
  | none => { l with first := next }
  | some prev => l.modify prev fun before => { before with next := next }

theorem get?_bypass (l : Layout) (prev next : Option Nat) (j : Nat) :
    (l.bypass prev next).get? j =
      if prev = some j then
        (l.get? j).map fun before => { before with next := next }
      else
        l.get? j := by
  cases prev with
  | none => rfl
  | some prev => simp [bypass, get?_modify, eq_comm]

theorem first_bypass (l : Layout) (prev next : Option Nat) :
    (l.bypass prev next).first = if prev = none then next else l.first := by
  cases prev <;> rfl

theorem sound_bypass (sound : l.arena.Sound) (prev next : Option Nat) :
    (l.bypass prev next).arena.Sound := by
  cases prev with
  | none => exact sound
  | some prev => exact sound.modify prev _

@[simp] theorem generation_bypass (l : Layout) (prev next : Option Nat) (j : Nat) :
    (l.bypass prev next).generation j = l.generation j := by
  cases prev with
  | none => rfl
  | some prev => exact generation_modify ..

@[simp] theorem slotCount_bypass (l : Layout) (prev next : Option Nat) :
    (l.bypass prev next).slotCount = l.slotCount := by
  cases prev with
  | none => rfl
  | some prev => exact Arena.slotCount_modify ..

theorem remove_eq (found : l.get? index = some record) :
    l.remove index =
      (some record,
        ((l.erase index).bypass
          (record.prev.filter fun prev => ((l.erase index).get? prev).isSome)
          record.next).modifyLink record.next
            fun after => { after with prev := record.prev }) := by
  simp only [remove, found, erase]
  generalize record.prev.filter _ = prev
  cases prev <;> cases record.next <;> rfl

theorem get?_remove (found : l.get? index = some record)
    (distinct : ∀ j, record.prev = some j → record.next ≠ some j) (j : Nat) :
    (l.remove index).2.get? j =
      if j = index then
        none
      else if record.prev = some j then
        (l.get? j).map fun before => { before with next := record.next }
      else if record.next = some j then
        (l.get? j).map fun after => { after with prev := record.prev }
      else
        l.get? j := by
  rw [remove_eq found, get?_modifyLink, get?_bypass, get?_erase]
  simp only [Option.filter_eq_some_iff, get?_erase]
  by_cases same : j = index
  · simp [same]
  · simp only [if_neg same]
    cases l.get? j with
    | none => simp
    | some neighbour => grind

theorem first_remove (found : l.get? index = some record)
    (live : ∀ j, record.prev = some j → j ≠ index ∧ (l.get? j).isSome) :
    (l.remove index).2.first =
      if record.prev = none then record.next else l.first := by
  rw [remove_eq found, first_modifyLink, first_bypass]
  cases prev : record.prev with
  | none => rfl
  | some j =>
      obtain ⟨other, before⟩ := live j prev
      have kept : ((l.erase index).get? j).isSome := by
        rw [get?_erase, if_neg other]
        exact before
      rw [Option.filter_some, if_pos kept]
      rfl

theorem sound_remove (sound : l.arena.Sound) (index : Nat) :
    (l.remove index).2.arena.Sound := by
  cases found : l.get? index with
  | none => simpa [remove, found] using sound
  | some record =>
      rw [remove_eq found]
      exact sound_modifyLink (sound_bypass (l := l.erase index) (sound.erase index) _ _) _ _

theorem generation_erase (found : l.get? index = some record) (j : Nat) :
    (l.erase index).generation j =
      if j = index then l.generation j + 1 else l.generation j := by
  have inside := Arena.lt_slotCount_of_get? found
  simp only [generation, erase, Arena.generation?_erase l.arena found]
  by_cases same : j = index
  · rw [if_pos same, if_pos same]
    exact Arena.getD_generation?_succ (same ▸ inside)
  · rw [if_neg same, if_neg same]

theorem generation_remove (found : l.get? index = some record) (j : Nat) :
    (l.remove index).2.generation j =
      if j = index then l.generation j + 1 else l.generation j := by
  rw [remove_eq found, generation_modifyLink, generation_bypass, generation_erase found]

@[simp] theorem slotCount_remove (l : Layout) (index : Nat) :
    (l.remove index).2.slotCount = l.slotCount := by
  cases found : l.get? index with
  | none => simp [remove, found]
  | some record =>
      rw [remove_eq found, slotCount_modifyLink, slotCount_bypass]
      exact Arena.slotCount_erase ..

/-! ## Lists with distinct keys -/

section Keys

variable {α β : Type} {before after : List (α × β)} {i : α} {b : β}

theorem nodup_split_iff :
    ((before ++ (i, b) :: after).map Prod.fst).Nodup ↔
      i ∉ (before ++ after).map Prod.fst ∧
        ((before ++ after).map Prod.fst).Nodup := by
  rw [(List.perm_middle.map Prod.fst).nodup_iff, List.map_cons, List.nodup_cons]

theorem not_mem_of_split
    (nodup : ((before ++ (i, b) :: after).map Prod.fst).Nodup) :
    i ∉ before.map Prod.fst ∧ i ∉ after.map Prod.fst := by
  have apart := (nodup_split_iff.mp nodup).1
  rw [List.map_append, List.mem_append, not_or] at apart
  exact apart

theorem disjoint_of_nodup (nodup : ((before ++ after).map Prod.fst).Nodup) (j : α)
    (first : j ∈ before.map Prod.fst) : j ∉ after.map Prod.fst := by
  rw [List.map_append, List.nodup_append] at nodup
  exact fun second => nodup.2.2 j first j second rfl

theorem nodup_before (nodup : ((before ++ after).map Prod.fst).Nodup) :
    (before.map Prod.fst).Nodup := by
  rw [List.map_append, List.nodup_append] at nodup
  exact nodup.1

theorem nodup_after (nodup : ((before ++ after).map Prod.fst).Nodup) :
    (after.map Prod.fst).Nodup := by
  rw [List.map_append, List.nodup_append] at nodup
  exact nodup.2.1

end Keys

/-! ## Edits of the cells -/

section Cells

variable {cells before after : List Cell} {i : Nat} {b : Block}

theorem Chains.nextIndex_not_mem (h : l.Chains cells) :
    l.nextIndex ∉ cells.map Prod.fst := by
  intro member
  have live := (h.isSome_get?_iff _).mp member
  rw [get?, nextIndex, h.sound.get?_nextIndex] at live
  cases live

theorem Chains.modify (h : l.Chains (before ++ (i, b) :: after))
    (change : Record → Record) (c : Block)
    (keeps : ∀ prev next, change (b.record prev next) = c.record prev next) :
    (l.modify i change).Chains (before ++ (i, c) :: after) := by
  obtain ⟨notBefore, notAfter⟩ := not_mem_of_split h.nodup
  obtain ⟨front, here, back⟩ := (linked_append _ _ _ _).mp h.linked
  have other (j : Nat) (distinct : j ≠ i) :
      (l.modify i change).get? j = l.get? j := by
    rw [get?_modify, if_neg distinct]
  refine ⟨h.sound.modify i change, ?_, ?_, ?_, ?_⟩
  · have first := h.first
    rw [headLink_append] at first ⊢
    exact first
  · refine (linked_append _ _ _ _).mpr ⟨front.congr fun j member => ?_, ?_, ?_⟩
    · exact other j fun same => notBefore (same ▸ member)
    · rw [get?_modify, if_pos rfl, here, Option.map_some, keeps]
    · exact back.congr fun j member => other j fun same => notAfter (same ▸ member)
  · simpa using h.nodup
  · intro j live
    have member := h.complete j (by
      rw [get?_modify] at live
      split at live <;> simpa using live)
    simpa using member

theorem Chains.retire (h : l.Chains cells) (j : Nat) : (l.retire j).Chains cells where
  sound := h.sound.retire j
  first := h.first
  linked := h.linked.congr fun i _ => get?_retire l j i
  nodup := h.nodup
  complete i live := h.complete i (by simpa using live)

theorem Chains.insertAfter (h : l.Chains (before ++ (i, b) :: after))
    (c : Block) :
    (l.insertAfter i c.offset c.size c.free).2.Chains
      (before ++ (i, b) :: (l.nextIndex, c) :: after) := by
  obtain ⟨notBefore, notAfter⟩ := not_mem_of_split h.nodup
  have rest := (nodup_split_iff.mp h.nodup).2
  obtain ⟨front, here, back⟩ := (linked_append _ _ _ _).mp h.linked
  have new := h.nextIndex_not_mem
  have found := h.get?_of_split
  have newNext : headLink after none ≠ some l.nextIndex := fun taken =>
    new (by simp [mem_of_headLink_eq taken])
  have read := get?_insertAfter h.sound found
    (fun loop => notAfter (mem_of_headLink_eq loop)) newNext c.offset c.size c.free
  have newBefore : l.nextIndex ∉ before.map Prod.fst := by
    intro member
    exact new (by simp [member])
  have newAfter : l.nextIndex ∉ after.map Prod.fst := by
    intro member
    exact new (by simp [member])
  have newHere : i ≠ l.nextIndex := by
    rintro rfl
    exact new (by simp)
  -- Apart from the new record only the one at `i` and the one behind it have changed.
  refine ⟨sound_insertAfter h.sound .., ?_, ?_, ?_, ?_⟩
  · have first := h.first
    rw [headLink_append] at first ⊢
    rw [first_insertAfter]
    exact first
  · refine (linked_append _ _ _ _).mpr ⟨front.congr fun j member => ?_, ?_, ?_, ?_⟩
    · rw [read, if_neg, if_neg, if_neg]
      · exact fun next => disjoint_of_nodup rest j member (mem_of_headLink_eq next)
      · exact fun same => notBefore (same ▸ member)
      · exact fun same => newBefore (same ▸ member)
    · rw [read, if_neg newHere, if_pos rfl]
      rfl
    · rw [read, if_pos rfl]
      rfl
    · refine back.setPrev (nodup_after rest) fun j member => ?_
      rw [read, if_neg, if_neg]
      · rfl
      · exact fun same => notAfter (same ▸ member)
      · exact fun same => newAfter (same ▸ member)
  · have shift (cells : List Cell) :
        before ++ (i, b) :: cells = (before ++ [(i, b)]) ++ cells := by simp
    rw [shift, nodup_split_iff, ← shift]
    exact ⟨new, h.nodup⟩
  · intro j live
    have old := h.complete j
    rw [read] at live
    simp only [List.map_append, List.map_cons, List.mem_append, List.mem_cons] at old ⊢
    by_cases same : j = l.nextIndex
    · exact .inr (.inr (.inl same))
    · have known : (l.get? j).isSome := by
        split at live
        · contradiction
        · split at live
          · simp_all
          · split at live <;> simpa using live
      rcases old known with inBefore | here | inAfter
      · exact .inl inBefore
      · exact .inr (.inl here)
      · exact .inr (.inr (.inr inAfter))

theorem Chains.remove (h : l.Chains (before ++ (i, b) :: after)) :
    (l.remove i).2.Chains (before ++ after) := by
  obtain ⟨notBefore, notAfter⟩ := not_mem_of_split h.nodup
  have rest := (nodup_split_iff.mp h.nodup).2
  obtain ⟨front, here, back⟩ := (linked_append _ _ _ _).mp h.linked
  have found := h.get?_of_split
  have distinct (j : Nat) (prev : lastLink none before = some j) :
      headLink after none ≠ some j := fun next =>
    disjoint_of_nodup rest j (mem_of_lastLink_eq prev) (mem_of_headLink_eq next)
  have read := get?_remove found distinct
  -- The last record before the gap and the first one behind it lead to each other.
  refine ⟨sound_remove h.sound i, ?_, ?_, rest, ?_⟩
  · have first := h.first
    rw [first_remove found, headLink_append]
    · by_cases empty : before = []
      · subst empty
        rfl
      · rw [Block.prev_record,
          if_neg fun none => empty (lastLink_eq_none_iff.mp none), first]
        cases before with
        | nil => contradiction
        | cons cell before => rfl
    · intro j prev
      have inBefore := mem_of_lastLink_eq prev
      refine ⟨fun same => notBefore (same ▸ inBefore), ?_⟩
      refine (h.isSome_get?_iff j).mp ?_
      rw [List.map_append]
      exact List.mem_append_left _ inBefore
  · refine (linked_append _ _ _ _).mpr ⟨?_, ?_⟩
    · refine front.setNext (nodup_before rest) fun j member => ?_
      rw [read, if_neg fun same : j = i => notBefore (same ▸ member)]
      have notNext : headLink after none ≠ some j := fun next =>
        disjoint_of_nodup rest j member (mem_of_headLink_eq next)
      simp only [Block.prev_record, Block.next_record, notNext, if_false]
    · refine back.setPrev (nodup_after rest) fun j member => ?_
      rw [read, if_neg fun same : j = i => notAfter (same ▸ member)]
      have notPrev : lastLink none before ≠ some j := fun prev =>
        disjoint_of_nodup rest j (mem_of_lastLink_eq prev) member
      simp only [Block.prev_record, Block.next_record, notPrev, if_false]
      rfl
  · intro j live
    have old := h.complete j
    rw [read] at live
    simp only [List.map_append, List.map_cons, List.mem_append, List.mem_cons] at old ⊢
    by_cases same : j = i
    · simp [same] at live
    · have known : (l.get? j).isSome := by
        rw [if_neg same] at live
        split at live
        · simpa using live
        · split at live <;> simpa using live
      rcases old known with inBefore | here | inAfter
      · exact .inl inBefore
      · exact absurd here same
      · exact .inr inAfter

end Cells

end BlockPool.Layout
