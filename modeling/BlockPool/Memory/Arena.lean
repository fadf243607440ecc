import BlockPool.Memory.Handle

/-!
# Arenas

An arena is a growing table of slots, each with a generation and perhaps a
content.  Slots that lose their content wait on a stack of vacant ones and are
taken again last emptied first.  Emptying a slot, or retiring it, raises its
generation, so that the handles issued for it stop resolving.
-/

namespace BlockPool

structure Slot (α : Type) where
  generation : UInt32
  content : Option α
  deriving DecidableEq, Repr

structure Arena (α : Type) where
  slots : Array (Slot α)
  /-- Indices of the slots without content, the last emptied first. -/
  vacant : List Nat
  live : Nat
  deriving DecidableEq, Repr

namespace Arena

variable {α : Type}

def empty : Arena α := ⟨#[], [], 0⟩

def slotCount (a : Arena α) : Nat := a.slots.size

def get? (a : Arena α) (index : Nat) : Option α :=
  match a.slots[index]? with
  | none => none
  | some slot => slot.content

def generation? (a : Arena α) (index : Nat) : Option UInt32 :=
  a.slots[index]?.map Slot.generation

def modify (a : Arena α) (index : Nat) (change : α → α) : Arena α :=
  { a with slots := a.slots.modify index fun slot =>
      { slot with content := slot.content.map change } }

/-- Raises the generation of a slot, whether it has content or not. -/
def retire (a : Arena α) (index : Nat) : Arena α :=
  { a with slots := a.slots.modify index fun slot =>
      { slot with generation := slot.generation + 1 } }

/-- Puts a content into the last vacated slot, or else into a new one. -/
def insert (a : Arena α) (content : α) : Nat × Arena α :=
  match a with
  | ⟨slots, index :: vacant, live⟩ =>
      (index,
        { slots := slots.modify index fun slot =>
            { slot with content := some content }
          vacant
          live := live + 1 })
  | ⟨slots, [], live⟩ =>
      (slots.size,
        { slots := slots.push ⟨0, some content⟩
          vacant := []
          live := live + 1 })

def erase (a : Arena α) (index : Nat) : Arena α :=
  match a.get? index with
  | none => a
  | some _ =>
      { slots := a.slots.modify index fun slot =>
          { generation := slot.generation + 1, content := none }
        vacant := index :: a.vacant
        live := a.live - 1 }

/-! ## Handles of slots -/

def handle? (a : Arena α) (index : Nat) : Option Handle :=
  match a.slots[index]? with
  | some ⟨generation, some _⟩ => some ⟨UInt32.ofNat index, generation⟩
  | _ => none

def resolve? (a : Arena α) (h : Handle) : Option Nat :=
  match a.slots[h.index.toNat]? with
  | some ⟨generation, some _⟩ =>
      if generation = h.generation then some h.index.toNat else none
  | _ => none

/-! ## What each operation does to a look-up -/

theorem get?_modify (a : Arena α) (index i : Nat) (change : α → α) :
    (a.modify index change).get? i =
      if i = index then (a.get? i).map change else a.get? i := by
  by_cases same : i = index
  · subst same
    simp only [get?, modify, Array.getElem?_modify, if_true]
    cases a.slots[i]? <;> rfl
  · simp [get?, modify, Array.getElem?_modify, Ne.symm same, same]

@[simp] theorem get?_retire (a : Arena α) (index i : Nat) :
    (a.retire index).get? i = a.get? i := by
  by_cases same : index = i
  · subst same
    simp only [get?, retire, Array.getElem?_modify, if_true]
    cases a.slots[index]? <;> rfl
  · simp [get?, retire, Array.getElem?_modify, same]

@[simp] theorem slotCount_modify (a : Arena α) (index : Nat) (change : α → α) :
    (a.modify index change).slotCount = a.slotCount := by
  simp [slotCount, modify]

@[simp] theorem slotCount_retire (a : Arena α) (index : Nat) :
    (a.retire index).slotCount = a.slotCount := by
  simp [slotCount, retire]

theorem get?_erase (a : Arena α) (index i : Nat) :
    (a.erase index).get? i = if i = index then none else a.get? i := by
  by_cases same : i = index
  · subst same
    cases content : a.get? i with
    | none => simp [erase, content]
    | some x =>
        simp only [erase, content, if_true]
        simp only [get?, Array.getElem?_modify, if_true]
        cases a.slots[i]? <;> rfl
  · cases content : a.get? index with
    | none => simp [erase, content, same]
    | some x =>
        simp only [erase, content, if_neg same]
        simp [get?, Array.getElem?_modify, Ne.symm same]

end Arena

end BlockPool
