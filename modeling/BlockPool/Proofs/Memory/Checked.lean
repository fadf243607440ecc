import Mathlib.Algebra.Ring.Nat
import BlockPool.Proofs.Memory.Arena
import BlockPool.Proofs.Memory.Buffer

/-!
# Checked memory

Sums, differences, indices and ranges as a machine checks them: each operation
here is `none` where a number does not fit into its word or a place does not
exist.  In a sound arena, and inside a buffer, they are the plain operations.
-/

namespace BlockPool

namespace Word

def add? (a b : Nat) : Option Nat := if a + b < UInt64.size then some (a + b) else none

def sub? (a b : Nat) : Option Nat := if b ≤ a then some (a - b) else none

def sum? (words : List Nat) : Option Nat := words.foldlM add? 0

def span? (start stop size : Nat) : Option Nat :=
  if start ≤ stop ∧ stop ≤ size then some (stop - start) else none

variable {a b start length size : Nat}

theorem add?_eq (small : a + b < UInt64.size) : add? a b = some (a + b) := if_pos small

theorem sub?_eq (le : b ≤ a) : sub? a b = some (a - b) := if_pos le

theorem foldlM_add? (words : List Nat) (small : a + words.sum < UInt64.size) :
    words.foldlM add? a = some (a + words.sum) := by
  induction words generalizing a with
  | nil => rfl
  | cons word rest ih =>
      rw [List.sum_cons, ← Nat.add_assoc] at small ⊢
      rw [List.foldlM_cons, add?_eq (by omega)]
      exact ih small

theorem sum?_eq {words : List Nat} (small : words.sum < UInt64.size) :
    sum? words = some words.sum := by
  rw [sum?, foldlM_add? words (by omega), Nat.zero_add]

theorem span?_eq (inside : start + length ≤ size) :
    span? start (start + length) size = some length := by
  rw [span?, if_pos ⟨Nat.le_add_right .., inside⟩, Nat.add_sub_cancel_left]

end Word

/-! ## Arenas -/

namespace Arena

variable {α : Type} {a : Arena α}

/-- Counts the new content and puts it into a slot.  The indices of slots are half words. -/
def insert? (a : Arena α) (content : α) : Option (Nat × Arena α) := do
  let live ← Word.add? a.live 1
  match a.vacant with
  | index :: vacant =>
      if index < a.slotCount then
        return (index,
          { slots := a.slots.modify index fun slot =>
              { slot with content := some content }
            vacant
            live })
      else none
  | [] =>
      if a.slotCount < UInt32.size then
        return (a.slotCount, { slots := a.slots.push ⟨0, some content⟩, vacant := [], live })
      else none

def erase? (a : Arena α) (index : Nat) : Option (Arena α) :=
  match a.get? index with
  | none => some a
  | some _ => do
      let live ← Word.sub? a.live 1
      return { slots := a.slots.modify index fun slot =>
                { generation := slot.generation + 1, content := none }
               vacant := index :: a.vacant
               live }

theorem Sound.insert?_eq (h : a.Sound) {content : α}
    (slots : (a.insert content).2.slotCount < UInt32.size) :
    a.insert? content = some (a.insert content) := by
  have words : UInt32.size < UInt64.size := by decide
  have live := (h.insert content).live_le
  rw [live_insert] at live
  rw [insert?, Word.add?_eq (by omega)]
  obtain ⟨entries, vacant, count⟩ := a
  cases vacant with
  | cons index vacant => exact if_pos ((h.mem_vacant index).mp List.mem_cons_self).1
  | nil =>
      rw [slotCount_insert, if_pos rfl] at slots
      exact if_pos (Nat.lt_of_succ_lt slots)

theorem Sound.erase?_eq (h : a.Sound) (index : Nat) :
    a.erase? index = some (a.erase index) := by
  cases found : a.get? index with
  | none => rw [erase?, Arena.erase, found]
  | some content =>
      have total := h.live_add_vacant
      have room := h.length_vacant_lt found
      simp only [erase?, Arena.erase, found]
      rw [Word.sub?_eq (by omega)]
      rfl

theorem modify_const {index : Nat} {content : α} (found : a.get? index = some content)
    (change : α → α) :
    a.modify index (fun _ => change content) = a.modify index change := by
  have same : a.slots.modify index (fun slot =>
      { slot with content := slot.content.map fun _ => change content }) =
        a.slots.modify index fun slot =>
          { slot with content := slot.content.map change } := by
    refine Array.ext_getElem? fun i => ?_
    simp only [Array.getElem?_modify]
    split
    · next own =>
        subst own
        rw [get?] at found
        cases slot : a.slots[index]? with
        | none => rfl
        | some entry =>
            rw [slot] at found
            simp only at found
            simp [found]
    · rfl
  exact congrArg (fun slots => { a with slots }) same

end Arena

/-! ## Buffers -/

namespace Buffer

variable {b : Buffer} {start length : Nat}

def fill? (b : Buffer) (start stop : Nat) (byte : UInt8) : Option Buffer := do
  let length ← Word.span? start stop b.size
  return b.fill start length byte

def slice? (b : Buffer) (start stop : Nat) : Option (List UInt8) := do
  let length ← Word.span? start stop b.size
  return b.slice start length

def copy? (b : Buffer) (start stop target : Nat) : Option Buffer := do
  let length ← Word.span? start stop b.size
  let last ← Word.sub? b.size length
  if target ≤ last then return b.overwrite target (b.slice start length) else none

def part? (bytes : List UInt8) (start stop : Nat) : Option (List UInt8) := do
  let length ← Word.span? start stop bytes.length
  return (bytes.drop start).take length

theorem fill?_eq (inside : start + length ≤ b.size) (byte : UInt8) :
    b.fill? start (start + length) byte = some (b.fill start length byte) := by
  rw [fill?, Word.span?_eq inside]
  rfl

theorem slice?_eq (inside : start + length ≤ b.size) :
    b.slice? start (start + length) = some (b.slice start length) := by
  rw [slice?, Word.span?_eq inside]
  rfl

theorem copy?_eq {target : Nat} (inside : start + length ≤ b.size)
    (room : target + length ≤ b.size) :
    b.copy? start (start + length) target =
      some (b.overwrite target (b.slice start length)) := by
  rw [copy?, Word.span?_eq inside]
  change (Word.sub? b.size length).bind _ = _
  rw [Word.sub?_eq (by omega)]
  exact if_pos (by omega)

theorem part?_slice {offset count : Nat} (inside : start + count ≤ b.size)
    (within : offset + length ≤ count) :
    part? (b.slice start count) offset (offset + length) =
      some (b.slice (start + offset) length) := by
  rw [part?, length_slice inside, Word.span?_eq within, slice_sub within]
  rfl

end Buffer

end BlockPool
