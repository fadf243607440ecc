import BlockPool.Pool.Script
import BlockPool.Proofs.Pool.Operation

/-!
# Runs of a ready pool

A pool that is ready stays so until it is closed.  Each request takes its heap
to a sound heap of the same size that has lost no slot, so the same holds of
every run.
-/

namespace BlockPool

namespace Heap

open Layout

variable {heap : Heap} {cells : List Cell} {i : Nat} {b : Block}

def serve (heap : Heap) : Pool.Request → Heap
  | .allocate size => (heap.allocate size).2
  | .deallocate handle => (heap.deallocate handle).2
  | .resize handle size => (heap.resize handle size).2
  | .write handle offset data => (heap.write handle offset data).2
  | _ => heap

/-! ## The ways in which a request changes a heap -/

inductive Change (heap : Heap) (cells : List Cell) : Heap → Prop where
  | same (heap' : Heap) (layout : heap'.layout = heap.layout)
      (size : heap'.size = heap.size) (used : heap'.used = heap.used)
      (config : heap'.config = heap.config) : Change heap cells heap'
  | placed (i : Nat) (b : Block) (size : Nat) (member : (i, b) ∈ cells)
      (fit : fits size b = true) : Change heap cells (heap.placed i size)
  | freed (handle : Handle) (b : Block) (named : heap.range? handle = some b) :
      Change heap cells (heap.freed handle.index.toNat)
  | moved (handle : Handle) (b : Block) (target : Nat) (c : Block) (size : Nat)
      (named : heap.range? handle = some b) (member : (target, c) ∈ cells)
      (fit : fits size c = true) :
      Change heap cells (heap.moved handle.index.toNat b (target, c) size)

theorem Change.refl (heap : Heap) (cells : List Cell) : heap.Change cells heap :=
  .same heap rfl rfl rfl rfl

theorem Change.countFailure (heap : Heap) (cells : List Cell) :
    heap.Change cells heap.countFailure :=
  .same _ (layout_count ..) (size_count ..) (used_count ..) (config_count ..)

theorem Sound.change (h : heap.Sound cells) (request : Pool.Request) :
    heap.Change cells (heap.serve request) := by
  cases request with
  | allocate size =>
      rw [serve]
      cases h.allocation size with
      | noRoom _ result =>
          rw [result]
          exact .countFailure heap cells
      | placed i b member fit _ result =>
          rw [result]
          exact .placed i b size member fit
  | deallocate handle =>
      rw [serve, deallocate_eq]
      cases named : heap.range? handle with
      | none => exact .refl heap cells
      | some b => exact .freed handle b named
  | resize handle size =>
      rw [serve]
      cases h.resizing handle size with
      | unnamed _ result =>
          rw [result]
          exact .refl heap cells
      | kept _ _ _ result =>
          rw [result]
          exact .refl heap cells
      | noRoom _ _ _ _ result =>
          rw [result]
          exact .countFailure heap cells
      | moved b target c named _ member fit _ result =>
          rw [result]
          exact .moved handle b target c size named member fit
  | write handle offset data =>
      rw [serve, write_eq]
      cases heap.range? handle with
      | none => exact .refl heap cells
      | some b =>
          simp only
          split
          · exact .same _ rfl (Buffer.size_overwrite ..) rfl rfl
          · exact .refl heap cells
  | _ => exact .refl heap cells

theorem Sound.of_change {heap' : Heap} (h : heap.Sound cells)
    (change : heap.Change cells heap') : ∃ cells', heap'.Sound cells' := by
  cases change with
  | same _ layout size used _ => exact ⟨cells, h.congr layout size used⟩
  | placed i b size member fit => exact h.exists_placed member fit
  | freed handle b named =>
      exact h.exists_freed (h.range?_eq_some_iff.mp named).1
  | moved handle b target c size named member fit =>
      exact h.exists_moved named member fit

theorem Change.config_eq {heap' : Heap} (change : heap.Change cells heap') :
    heap'.config = heap.config := by
  cases change with
  | same _ _ _ _ config => exact config
  | placed i b size member fit => simp [Heap.placed]
  | freed handle b named => simp [Heap.freed]
  | moved handle b target c size named member fit =>
      simp [Heap.moved, Heap.copied, Heap.copy]

theorem Change.size_eq {heap' : Heap} (change : heap.Change cells heap') :
    heap'.size = heap.size := by
  cases change with
  | same _ _ size _ _ => exact size
  | placed i b size member fit => simp [Heap.placed]
  | freed handle b named => simp [Heap.freed]
  | moved handle b target c size named member fit => simp [Heap.moved, Heap.copied]

theorem slotCount_release (heap : Heap) (i : Nat) :
    (heap.release i).2.layout.slotCount = heap.layout.slotCount := by
  rw [layout_release]
  exact Layout.slotCount_release ..

theorem slotCount_freed (heap : Heap) (i : Nat) :
    (heap.freed i).layout.slotCount = heap.layout.slotCount := by
  rw [Heap.freed, layout_count, slotCount_release]

theorem slotCount_deallocate (heap : Heap) (handle : Handle) :
    (heap.deallocate handle).2.layout.slotCount = heap.layout.slotCount := by
  rw [Heap.deallocate_eq]
  cases heap.range? handle with
  | none => rfl
  | some b => exact slotCount_freed ..

theorem slotCount_claimAt_bounds (heap : Heap) (i size : Nat) :
    heap.layout.slotCount ≤ (heap.claimAt i size).layout.slotCount ∧
      (heap.claimAt i size).layout.slotCount ≤ heap.layout.slotCount + 1 := by
  rw [layout_claimAt]
  exact slotCount_claim_bounds ..

theorem Change.slotCount_bounds {heap' : Heap} (change : heap.Change cells heap') :
    heap.layout.slotCount ≤ heap'.layout.slotCount ∧
      heap'.layout.slotCount ≤ heap.layout.slotCount + 1 := by
  cases change with
  | same _ layout _ _ _ =>
      rw [layout]
      exact ⟨Nat.le_refl _, Nat.le_succ _⟩
  | placed i b size member fit =>
      rw [Heap.placed, layout_count]
      exact slotCount_claimAt_bounds ..
  | freed handle b named =>
      rw [slotCount_freed]
      exact ⟨Nat.le_refl _, Nat.le_succ _⟩
  | moved handle b target c size named member fit =>
      rw [Heap.moved, layout_count, slotCount_release]
      exact slotCount_claimAt_bounds ..

theorem Sound.small_of_placed (h : heap.Sound cells) (member : (i, b) ∈ cells) {size : Nat}
    (slots : (heap.placed i size).layout.slotCount < UInt32.size) : i < UInt32.size := by
  rw [Heap.placed, layout_count] at slots
  have grown := (heap.slotCount_claimAt_bounds i size).1
  exact Nat.lt_trans (Nat.lt_of_lt_of_le (h.chains.lt_slotCount member) grown) slots

/-! ## Steps and runs -/

theorem Sound.serve (h : heap.Sound cells) (request : Pool.Request) :
    ∃ cells', (heap.serve request).Sound cells' :=
  h.of_change (h.change request)

theorem Sound.slotCount_le_serve (h : heap.Sound cells) (request : Pool.Request) :
    heap.layout.slotCount ≤ (heap.serve request).layout.slotCount :=
  (h.change request).slotCount_bounds.1

theorem Sound.foldl_serve (h : heap.Sound cells) (requests : List Pool.Request) :
    ∃ cells', (requests.foldl Heap.serve heap).Sound cells' ∧
      (requests.foldl Heap.serve heap).size = heap.size ∧
      (requests.foldl Heap.serve heap).config = heap.config ∧
      heap.layout.slotCount ≤ (requests.foldl Heap.serve heap).layout.slotCount := by
  induction requests generalizing heap cells with
  | nil => exact ⟨cells, h, rfl, rfl, Nat.le_refl _⟩
  | cons request rest ih =>
      have change := h.change request
      obtain ⟨cells₁, next⟩ := h.serve request
      obtain ⟨cells', sound, size, config, slots⟩ := ih next
      exact ⟨cells', sound, size.trans change.size_eq, config.trans change.config_eq,
        Nat.le_trans (h.slotCount_le_serve request) slots⟩

end Heap

theorem map_ne_error {ε α β : Type} (result : Except ε α) {form : α → β} {error : ε}
    (clean : result ≠ .error error) : result.map form ≠ .error error := by
  cases result with
  | ok value => exact nofun
  | error other =>
      intro same
      cases same
      exact clean rfl

namespace Pool

variable {config : Config} {heap : Heap} {request : Request}

theorem run_cons (p : Pool) (request : Request) (rest : List Request) :
    p.run (request :: rest) =
      ((p.perform request).1 :: ((p.perform request).2.run rest).1,
        ((p.perform request).2.run rest).2) := rfl

theorem perform_ready (isOpen : request ≠ .close) :
    ((⟨config, .ready heap⟩ : Pool).perform request).2 =
      ⟨config, .ready (heap.serve request)⟩ := by
  cases request with
  | close => exact absurd rfl isOpen
  | _ => rfl

theorem perform_allocate {size : Nat} {handle : Handle} {next : Heap}
    (result : heap.allocate size = (.ok handle, next)) :
    (⟨config, .ready heap⟩ : Pool).perform (.allocate size) =
      (.ok (.handle handle), ⟨config, .ready next⟩) := by
  rw [perform, allocate, onHeap_of_ok _ rfl, result]
  rfl

theorem perform_deallocate {handle : Handle} {b : Block}
    (named : heap.range? handle = some b) :
    (⟨config, .ready heap⟩ : Pool).perform (.deallocate handle) =
      (.ok .done, ⟨config, .ready (heap.freed handle.index.toNat)⟩) := by
  rw [perform, deallocate, onHeap_of_ok _ rfl, Heap.deallocate_eq, named]
  rfl

theorem run_ready {requests : List Request} (isOpen : .close ∉ requests) :
    ((⟨config, .ready heap⟩ : Pool).run requests).2 =
      ⟨config, .ready (requests.foldl Heap.serve heap)⟩ := by
  induction requests generalizing heap with
  | nil => rfl
  | cons request rest ih =>
      rw [List.mem_cons, not_or] at isOpen
      rw [run_cons, perform_ready (Ne.symm isOpen.1), ih isOpen.2]
      rfl

theorem setUp_of_pos {size : Nat} (positive : 0 < size) :
    (⟨config, .uninitialized⟩ : Pool).setUp size =
      (.ok (), ⟨config, .ready (.ofSize size config)⟩) :=
  if_neg (Nat.ne_of_gt positive)

theorem ready_of_setUp {p : Pool} {size : Nat}
    (opened : (⟨config, .uninitialized⟩ : Pool).setUp size = (.ok (), p)) :
    0 < size ∧ p = ⟨config, .ready (.ofSize size config)⟩ := by
  rw [setUp] at opened
  split at opened
  · cases opened
  · next positive =>
      cases opened
      exact ⟨Nat.pos_of_ne_zero positive, rfl⟩

theorem run_setUp {size : Nat} (positive : 0 < size) (requests : List Request) :
    (⟨config, .uninitialized⟩ : Pool).run (.setUp size :: requests) =
      (.ok .done ::
          ((⟨config, .ready (.ofSize size config)⟩ : Pool).run requests).1,
        ((⟨config, .ready (.ofSize size config)⟩ : Pool).run requests).2) := by
  rw [run_cons, perform, setUp_of_pos positive]
  rfl

theorem withConfig_of_valid (valid : config.validate = .ok ()) :
    withConfig config = .ok ⟨config, .uninitialized⟩ := by
  rw [withConfig, valid]

theorem eq_of_withConfig {p : Pool} (made : withConfig config = .ok p) :
    p = ⟨config, .uninitialized⟩ := by
  rw [withConfig] at made
  cases valid : config.validate with
  | error fault => simp [valid] at made
  | ok _ =>
      simp only [valid, Except.ok.injEq] at made
      exact made.symm

theorem exists_sound_run (config : Config) {size : Nat} {requests : List Request}
    (positive : 0 < size) (isOpen : .close ∉ requests) :
    ∃ heap cells, ((⟨config, .uninitialized⟩ : Pool).run (.setUp size :: requests)).2 =
        ⟨config, .ready heap⟩ ∧ heap.Sound cells ∧ heap.size = size := by
  obtain ⟨cells, sound, same, _⟩ := (Heap.sound_ofSize size config).foldl_serve requests
  refine ⟨_, cells, ?_, sound, same.trans (Buffer.size_zeros size)⟩
  rw [run_setUp positive]
  exact run_ready isOpen

end Pool

end BlockPool
