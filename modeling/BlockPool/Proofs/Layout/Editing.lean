import Mathlib.Data.List.Induction
import BlockPool.Proofs.Layout.Retirement

/-!
# Slots under arbitrary edits

The edits of a layout are its operations on links and handles, at any index
whatsoever, and the overwriting of a record by any other.  However they are
mixed, every slot without a record waits on the vacant stack once, there are
never more slots than there have been records at one time, and the generation
of a slot counts how often the slot was emptied or retired.
-/

namespace BlockPool.Layout

inductive Edit where
  | insertAfter (index offset size : Nat) (free : Bool)
  | remove (index : Nat)
  | retire (index : Nat)
  | overwrite (index : Nat) (record : Record)
  deriving DecidableEq, Repr

def edit (l : Layout) : Edit → Layout
  | .insertAfter index offset size free => (l.insertAfter index offset size free).2
  | .remove index => (l.remove index).2
  | .retire index => l.retire index
  | .overwrite index record => l.modify index fun _ => record

def editAll (l : Layout) (edits : List Edit) : Layout := edits.foldl edit l

/-- The slot whose generation an edit raises: taking out hits a record and retiring hits a slot. -/
def hit? (l : Layout) : Edit → Option Nat
  | .remove index => if (l.get? index).isSome then some index else none
  | .retire index => if index < l.slotCount then some index else none
  | _ => none

/-- The slots hit by some edits, once for each hit. -/
def hits (l : Layout) : List Edit → List Nat
  | [] => []
  | edit :: rest => (l.hit? edit).toList ++ (l.edit edit).hits rest

variable {l : Layout}

theorem editAll_append (l : Layout) (edits others : List Edit) :
    l.editAll (edits ++ others) = (l.editAll edits).editAll others :=
  List.foldl_append

/-! ## One edit -/

theorem sound_edit (sound : l.arena.Sound) (edit : Edit) : (l.edit edit).arena.Sound := by
  cases edit with
  | insertAfter index offset size free => exact sound_insertAfter sound ..
  | remove index => exact sound_remove sound index
  | retire index => exact sound.retire index
  | overwrite index record => exact sound_modify sound ..

/-- A slot is added only when every slot has a record. -/
theorem slotCount_edit (sound : l.arena.Sound) (edit : Edit) :
    (l.edit edit).slotCount = max l.slotCount (l.edit edit).live := by
  have kept (same : (l.edit edit).slotCount = l.slotCount) :
      (l.edit edit).slotCount = max l.slotCount (l.edit edit).live := by
    have bound : (l.edit edit).live ≤ (l.edit edit).slotCount := (sound_edit sound edit).live_le
    rw [same] at bound ⊢
    exact (Nat.max_eq_left bound).symm
  cases edit with
  | insertAfter index offset size free =>
      have total : l.live + l.arena.vacant.length = l.slotCount := sound.live_add_vacant
      simp only [Layout.edit, slotCount_insertAfter, live_insertAfter]
      cases stack : l.arena.vacant with
      | nil =>
          rw [stack, List.length_nil] at total
          rw [if_pos rfl]
          omega
      | cons index vacant =>
          rw [stack, List.length_cons] at total
          rw [if_neg (List.cons_ne_nil _ _)]
          omega
  | remove index => exact kept (slotCount_remove l index)
  | retire index => exact kept (Arena.slotCount_retire ..)
  | overwrite index record => exact kept (slotCount_modify ..)

theorem raises_edit (sound : l.arena.Sound) (edit : Edit) :
    Raises l (l.edit edit) (l.hit? edit).toList := by
  cases edit with
  | insertAfter index offset size free =>
      exact raises_nil (generation_insertAfter sound index offset size free)
  | remove index =>
      cases found : l.get? index with
      | none =>
          simp only [Layout.edit, remove, hit?, found]
          exact raises_nil fun k => rfl
      | some record =>
          simp only [Layout.edit, hit?, found]
          exact raises_one (generation_remove found)
  | retire index =>
      simp only [Layout.edit, hit?]
      split
      · next inside => exact raises_retire inside
      · next outside =>
          refine raises_nil fun k => ?_
          rw [generation_retire, if_neg fun both => outside both.2]
  | overwrite index record => exact raises_nil (generation_modify l index _)

/-! ## Many edits -/

theorem sound_editAll (sound : l.arena.Sound) (edits : List Edit) :
    (l.editAll edits).arena.Sound := by
  induction edits generalizing l with
  | nil => exact sound
  | cons edit rest ih => exact ih (sound_edit sound edit)

theorem slotCount_le_editAll (sound : l.arena.Sound) (edits : List Edit) :
    l.slotCount ≤ (l.editAll edits).slotCount := by
  induction edits generalizing l with
  | nil => exact Nat.le_refl _
  | cons edit rest ih =>
      have first : l.slotCount ≤ (l.edit edit).slotCount := by
        rw [slotCount_edit sound edit]
        exact Nat.le_max_left ..
      exact Nat.le_trans first (ih (sound_edit sound edit))

theorem live_le_of_isPrefix (sound : l.arena.Sound) {before edits : List Edit}
    (part : before <+: edits) : (l.editAll before).live ≤ (l.editAll edits).slotCount := by
  obtain ⟨rest, rfl⟩ := part
  have then_sound := sound_editAll sound before
  rw [editAll_append]
  exact Nat.le_trans then_sound.live_le (slotCount_le_editAll then_sound rest)

theorem exists_isPrefix_live_eq (sound : l.arena.Sound) (full : l.live = l.slotCount)
    (edits : List Edit) :
    ∃ before, before <+: edits ∧ (l.editAll before).live = (l.editAll edits).slotCount := by
  induction edits using List.reverseRecOn with
  | nil => exact ⟨[], List.prefix_rfl, full⟩
  | append_singleton edits edit ih =>
      obtain ⟨before, part, live⟩ := ih
      have count : (l.editAll (edits ++ [edit])).slotCount =
          max (l.editAll edits).slotCount (l.editAll (edits ++ [edit])).live := by
        rw [editAll_append]
        exact slotCount_edit (sound_editAll sound edits) edit
      rcases Nat.le_total (l.editAll (edits ++ [edit])).live (l.editAll edits).slotCount
        with less | more
      · refine ⟨before, part.trans (List.prefix_append ..), ?_⟩
        rw [count, Nat.max_eq_left less, live]
      · refine ⟨edits ++ [edit], List.prefix_rfl, ?_⟩
        rw [count, Nat.max_eq_right more]

theorem raises_editAll (sound : l.arena.Sound) (edits : List Edit) :
    Raises l (l.editAll edits) (l.hits edits) := by
  induction edits generalizing l with
  | nil => exact raises_nil fun k => rfl
  | cons edit rest ih => exact (raises_edit sound edit).trans (ih (sound_edit sound edit))

/-! ## Layouts that are made by edits -/

theorem generation_spanning (size i : Nat) : (spanning size).generation i = 0 := by
  cases i <;> rfl

theorem generation?_eq {i : Nat} (inside : i < l.slotCount) :
    l.arena.generation? i = some (l.generation i) := by
  cases known : l.arena.generation? i with
  | none =>
      have outside := (Arena.generation?_eq_none_iff i).mp known
      exact absurd inside (Nat.not_lt.mpr outside)
  | some g => rw [generation, known, Option.getD_some]

/-- No slot is lost: those without a record are vacant, each once, there are as many slots
as there have been records at one time, and a slot keeps count of its retirements. -/
theorem edits_lose_no_slot (size : Nat) (edits : List Edit) :
    let l := (spanning size).editAll edits
    (l.arena.vacant.Nodup ∧
      ∀ i, i ∈ l.arena.vacant ↔ i < l.slotCount ∧ l.get? i = none) ∧
    l.live = ((List.range l.slotCount).filter fun i => (l.get? i).isSome).length ∧
    ((∀ before, before <+: edits → ((spanning size).editAll before).live ≤ l.slotCount) ∧
      ∃ before, before <+: edits ∧ ((spanning size).editAll before).live = l.slotCount) ∧
    ∀ i, i < l.slotCount →
      l.arena.generation? i =
        some (UInt32.ofNat (((spanning size).hits edits).count i)) := by
  intro l
  have start := (chains_spanning size).sound
  have sound : l.arena.Sound := sound_editAll start edits
  refine ⟨⟨sound.nodup_vacant, sound.mem_vacant⟩, ?_,
    ⟨fun before => live_le_of_isPrefix start, exists_isPrefix_live_eq start rfl edits⟩, ?_⟩
  · refine (sound.length_eq_live (List.nodup_range.filter _) fun i => ?_).symm
    rw [List.mem_filter, List.mem_range]
    refine ⟨fun both => both.2, fun live => ⟨?_, live⟩⟩
    obtain ⟨record, found⟩ := Option.isSome_iff_exists.mp live
    exact Arena.lt_slotCount_of_get? found
  · intro i inside
    rw [generation?_eq inside, raises_editAll start edits i, generation_spanning, UInt32.zero_add]

theorem edits_lose_no_slot_reused :
    let edits : List Edit :=
      [.insertAfter 0 5 5 true, .insertAfter 7 0 0 false, .remove 1, .remove 9, .retire 1,
        .insertAfter 0 3 3 true]
    let l := (spanning 10).editAll edits
    ((spanning 10).editAll (edits.take 2)).live ≤ l.slotCount ∧
      l.arena.generation? 1 = some (UInt32.ofNat (((spanning 10).hits edits).count 1)) ∧
      ((spanning 10).hits edits).count 1 = 2 := by
  intro edits l
  obtain ⟨_, _, ⟨bounded, _⟩, generations⟩ := edits_lose_no_slot 10 edits
  exact ⟨bounded _ (List.take_prefix ..), generations 1 (by decide), by decide⟩

end BlockPool.Layout
