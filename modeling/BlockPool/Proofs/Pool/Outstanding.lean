import BlockPool.Proofs.Pool.Outcome

/-!
# Handles that are out

The handles that were given out and not given back are read off the requests
and their results.  They are the handles of the used cells, each as often as
there are such cells; this holds for any number of slots.
-/

namespace BlockPool

namespace Layout

variable {l l' : Layout} {cells : List Cell}

def usedHandles (l : Layout) (cells : List Cell) : List Handle :=
  (usedCells cells).map fun cell => l.handleOf cell.1

theorem usedHandles_congr
    (same : ∀ cell ∈ usedCells cells, l'.generation cell.1 = l.generation cell.1) :
    l'.usedHandles cells = l.usedHandles cells := by
  refine List.map_congr_left fun cell member => ?_
  rw [handleOf, same cell member, handleOf]

theorem usedHandles_append (xs ys : List Cell) :
    l.usedHandles (xs ++ ys) = l.usedHandles xs ++ l.usedHandles ys := by
  rw [usedHandles, usedCells_append, List.map_append]
  rfl

theorem length_usedHandles (l : Layout) (cells : List Cell) :
    (l.usedHandles cells).length = (usedCells cells).length :=
  List.length_map ..

end Layout

namespace Heap

open Layout

variable {heap : Heap} {cells cells' : List Cell} {handle : Handle} {i target size : Nat}
  {b c : Block}

theorem Sound.handleOf_eq (h : heap.Sound cells) (named : heap.range? handle = some b) :
    heap.layout.handleOf handle.index.toNat = handle := by
  have current := (h.range?_eq_some_iff.mp named).2
  obtain ⟨index, generation⟩ := handle
  simp only [handleOf, current, UInt32.ofNat_toNat]

theorem Sound.usedHandles_claimAt (h : heap.Sound cells) (member : (i, b) ∈ cells)
    (fit : fits size b = true) (claimed : (heap.claimAt i size).Sound cells') :
    ((heap.claimAt i size).layout.usedHandles cells').Perm
      (heap.layout.handleOf i :: heap.layout.usedHandles cells) := by
  obtain ⟨before, after, rfl⟩ := List.append_of_mem member
  have free := (fits_iff.mp fit).1
  rw [claimed.chains.unique (h.claimAt fit).chains]
  have same : (heap.claimAt i size).layout.usedHandles = heap.layout.usedHandles := by
    funext cells
    refine usedHandles_congr fun cell _ => ?_
    rw [layout_claimAt, generation_claim h.chains]
  have whole : heap.layout.usedHandles (before ++ (i, b) :: after) =
      heap.layout.usedHandles before ++ heap.layout.usedHandles after := by
    simp [usedHandles, usedCells_cons, free]
  rw [same, whole, usedHandles_append, usedHandles_append, List.append_assoc]
  simp only [usedHandles, usedCells_claimed]
  exact List.perm_middle

theorem Sound.usedHandles_release (h : heap.Sound cells)
    (used : (i, b) ∈ usedCells cells) (released : (heap.release i).2.Sound cells') :
    (heap.layout.usedHandles cells).Perm
      (heap.layout.handleOf i :: (heap.release i).2.layout.usedHandles cells') := by
  obtain ⟨member, (inUse : b.free = false)⟩ := mem_usedCells.mp used
  obtain ⟨before, after, rfl⟩ := List.append_of_mem member
  obtain ⟨notBefore, notAfter⟩ := not_mem_of_split h.chains.nodup
  have left : usedCells cells' = usedCells before ++ usedCells after := by
    rw [released.chains.unique (h.release inUse).chains, usedCells_released]
  -- The other used cells keep the generations of their slots.
  have same : (heap.release i).2.layout.usedHandles cells' =
      heap.layout.usedHandles cells' := by
    refine usedHandles_congr fun cell there => ?_
    rw [left, List.mem_append, mem_usedCells, mem_usedCells] at there
    have distinct : cell.1 ≠ i := by
      rintro rfl
      rcases there with ⟨there, _⟩ | ⟨there, _⟩
      · exact notBefore (List.mem_map_of_mem there)
      · exact notAfter (List.mem_map_of_mem there)
    have other : (cell.1, cell.2) ∈ usedCells (before ++ (i, b) :: after) := by
      rw [mem_usedCells]
      rcases there with ⟨there, inUse⟩ | ⟨there, inUse⟩
      · exact ⟨List.mem_append_left _ there, inUse⟩
      · exact ⟨List.mem_append_right _ (List.mem_cons_of_mem _ there), inUse⟩
    exact generation_release h used other distinct
  rw [same]
  simp only [usedHandles, left, usedCells_append, usedCells_cons, inUse, List.map_append]
  exact List.perm_middle

theorem Sound.usedHandles_moved (h : heap.Sound cells)
    (named : heap.range? handle = some b) (member : (target, c) ∈ cells)
    (fit : fits size c = true)
    (moved : (heap.moved handle.index.toNat b (target, c) size).Sound cells') :
    (heap.layout.handleOf target :: heap.layout.usedHandles cells).Perm
      (handle :: (heap.moved handle.index.toNat b (target, c) size).layout.usedHandles
        cells') := by
  obtain ⟨_, cells₁, copied, used⟩ := h.exists_copied named member fit
  have released : ((heap.copied b (target, c) size).release handle.index.toNat).2.Sound
      cells' :=
    moved.congr (layout_count ..).symm (size_count ..).symm (used_count ..).symm
  have claimed : (heap.claimAt target size).Sound cells₁ :=
    copied.congr rfl (size_copy ..).symm rfl
  have after := copied.usedHandles_release used released
  rw [copied.handleOf_eq (h.range?_copied named member fit)] at after
  rw [Heap.moved, layout_count]
  exact (h.usedHandles_claimAt member fit claimed).symm.trans after

end Heap

/-! ## What requests do to the handles that are out -/

namespace Pool

/-- The handles that are out after one more request.

A resize gives one handle back for another; where the block stays in its place
both are the same. -/
def settle (out : List Handle) : Entry → List Handle
  | (.allocate _, .ok (.handle new)) => new :: out
  | (.deallocate handle, .ok _) => out.erase handle
  | (.resize handle _, .ok (.handle new)) => new :: out.erase handle
  | _ => out

def history (p : Pool) (requests : List Request) : List Entry :=
  requests.zip (p.run requests).1

def outstanding (p : Pool) (requests : List Request) : List Handle :=
  (p.history requests).foldl settle []

theorem history_cons (p : Pool) (request : Request) (rest : List Request) :
    p.history (request :: rest) =
      (request, (p.perform request).1) :: (p.perform request).2.history rest := rfl

end Pool

namespace Heap

open Layout

variable {heap heap' : Heap} {cells : List Cell} {handle : Handle} {b c : Block}
  {i target size : Nat} {out : List Handle}

/-- The handles are those of the used cells, in some order. -/
def Lends (heap : Heap) (out : List Handle) : Prop :=
  ∃ cells, heap.Sound cells ∧ out.Perm (heap.layout.usedHandles cells)

theorem Lends.congr (h : heap.Lends out) (layout : heap'.layout = heap.layout)
    (size : heap'.size = heap.size) (used : heap'.used = heap.used) :
    heap'.Lends out := by
  obtain ⟨cells, sound, perm⟩ := h
  exact ⟨cells, sound.congr layout size used, layout ▸ perm⟩

theorem Lends.countFailure (h : heap.Lends out) : heap.countFailure.Lends out :=
  h.congr (layout_count ..) (size_count ..) (used_count ..)

theorem Sound.mem_usedHandles (h : heap.Sound cells)
    (named : heap.range? handle = some b) : handle ∈ heap.layout.usedHandles cells := by
  rw [← h.handleOf_eq named]
  exact List.mem_map_of_mem (h.range?_eq_some_iff.mp named).1

theorem settle_error (out : List Handle) (request : Pool.Request) (error : PoolError) :
    Pool.settle out (request, .error error) = out := by
  cases request <;> rfl

theorem settle_query (out : List Handle) {request : Pool.Request}
    (query : request.isQuery = true) (reply : Pool.Reply) :
    Pool.settle out (request, .ok reply) = out := by
  cases request <;> first | rfl | cases query

theorem Lends.placed (h : heap.Sound cells) (perm : out.Perm (heap.layout.usedHandles cells))
    (member : (i, b) ∈ cells) (fit : fits size b = true) :
    (heap.placed i size).Lends (heap.layout.handleOf i :: out) := by
  obtain ⟨cells', claimed⟩ := h.exists_claimAt member fit
  have grown := h.usedHandles_claimAt member fit claimed
  have given : (heap.claimAt i size).Lends (heap.layout.handleOf i :: out) :=
    ⟨cells', claimed, (perm.cons _).trans grown.symm⟩
  exact given.congr (layout_count ..) (size_count ..) (used_count ..)

theorem Lends.freed (h : heap.Sound cells) (perm : out.Perm (heap.layout.usedHandles cells))
    (named : heap.range? handle = some b) :
    (heap.freed handle.index.toNat).Lends (out.erase handle) := by
  have used := (h.range?_eq_some_iff.mp named).1
  obtain ⟨cells', released⟩ := h.exists_release used
  have shrunk := h.usedHandles_release used released
  rw [h.handleOf_eq named] at shrunk
  have rest := (perm.trans shrunk).erase handle
  rw [List.erase_cons_head] at rest
  have back : (heap.release handle.index.toNat).2.Lends (out.erase handle) :=
    ⟨cells', released, rest⟩
  exact back.congr (layout_count ..) (size_count ..) (used_count ..)

theorem Sound.perm_erase (h : heap.Sound cells)
    (perm : out.Perm (heap.layout.usedHandles cells))
    (named : heap.range? handle = some b) : (handle :: out.erase handle).Perm out :=
  (List.perm_cons_erase (perm.mem_iff.mpr (h.mem_usedHandles named))).symm

theorem Lends.freed_head (h : heap.Lends (handle :: out)) (named : heap.range? handle = some b) :
    (heap.freed handle.index.toNat).Lends out := by
  obtain ⟨cells, sound, perm⟩ := h
  have freed := Lends.freed sound perm named
  rwa [List.erase_cons_head] at freed

theorem Lends.moved (h : heap.Sound cells) (perm : out.Perm (heap.layout.usedHandles cells))
    (named : heap.range? handle = some b) (member : (target, c) ∈ cells)
    (fit : fits size c = true) :
    (heap.moved handle.index.toNat b (target, c) size).Lends
      (heap.layout.handleOf target :: out.erase handle) := by
  obtain ⟨cells', moved⟩ := h.exists_moved named member fit
  have exchanged := h.usedHandles_moved named member fit moved
  have given : (heap.layout.handleOf target :: handle :: out.erase handle).Perm
      (heap.layout.handleOf target :: heap.layout.usedHandles cells) :=
    ((h.perm_erase perm named).trans perm).cons _
  -- The old handle stands in front on both sides, and the claim of the new one goes past it.
  have settled := (List.Perm.swap ..).trans (given.trans exchanged)
  exact ⟨cells', moved, settled.cons_inv⟩

theorem Outcome.lends {entry : Pool.Entry} (outcome : heap.Outcome cells entry heap')
    (h : heap.Sound cells) (perm : out.Perm (heap.layout.usedHandles cells)) :
    heap'.Lends (Pool.settle out entry) := by
  have same : heap.Lends out := ⟨cells, h, perm⟩
  cases outcome with
  | rejected _ error _ =>
      rw [settle_error]
      exact same
  | noRoom size => exact same.countFailure
  | noRoomToMove handle size b _ _ => exact same.countFailure
  | answered _ query reply =>
      rw [settle_query out query]
      exact same
  | written handle offset data start =>
      exact same.congr rfl (Buffer.size_overwrite ..) rfl
  | placed size i b member fit => exact .placed h perm member fit
  | freed handle b named => exact .freed h perm named
  | kept handle size b named => exact ⟨cells, h, (h.perm_erase perm named).trans perm⟩
  | moved handle size b target c named member fit => exact .moved h perm named member fit

theorem Lends.induct {P : Heap → List Handle → Prop} (h : heap.Lends out)
    (start : P heap out)
    (step : ∀ {now cells held entry next}, now.config = heap.config → now.Sound cells →
      held.Perm (now.layout.usedHandles cells) → now.Outcome cells entry next →
      P now held → P next (Pool.settle held entry))
    (config : Config) {requests : List Pool.Request} (isOpen : .close ∉ requests) :
    (requests.foldl Heap.serve heap).Lends
        (((⟨config, .ready heap⟩ : Pool).history requests).foldl Pool.settle out) ∧
      P (requests.foldl Heap.serve heap)
        (((⟨config, .ready heap⟩ : Pool).history requests).foldl Pool.settle out) := by
  induction requests generalizing heap out with
  | nil => exact ⟨h, start⟩
  | cons request rest ih =>
      rw [List.mem_cons, not_or] at isOpen
      have going : request ≠ .close := Ne.symm isOpen.1
      obtain ⟨cells, sound, perm⟩ := h
      have outcome := sound.outcome config going
      have same := (sound.change request).config_eq
      rw [Pool.history_cons, Pool.perform_ready going]
      refine ih (outcome.lends sound perm) (step rfl sound perm outcome start) ?_ isOpen.2
      intro now cells held entry next config
      exact step (config.trans same)

theorem Lends.run (h : heap.Lends out) (config : Config) {requests : List Pool.Request}
    (isOpen : .close ∉ requests) :
    (requests.foldl Heap.serve heap).Lends
      (((⟨config, .ready heap⟩ : Pool).history requests).foldl Pool.settle out) :=
  (h.induct (P := fun _ _ => True) trivial (fun _ _ _ _ _ => trivial) config isOpen).1

theorem lends_ofSize (size : Nat) (config : Config) :
    (Heap.ofSize size config).Lends [] :=
  ⟨_, sound_ofSize size config, .nil⟩

theorem Lends.exists_of_nil (h : heap.Lends []) :
    ∃ cells, heap.Sound cells ∧ usedCells cells = [] := by
  obtain ⟨cells, sound, perm⟩ := h
  exact ⟨cells, sound, List.map_eq_nil_iff.mp perm.nil_eq.symm⟩

theorem Lends.free_of_nil (h : heap.Lends []) : ∀ b ∈ heap.layout.blocks, b.free = true := by
  obtain ⟨cells, sound, none⟩ := h.exists_of_nil
  intro b member
  rw [sound.chains.blocks_eq] at member
  obtain ⟨cell, there, rfl⟩ := List.mem_map.mp member
  cases inUse : cell.2.free with
  | true => rfl
  | false =>
      have used := mem_usedCells.mpr ⟨there, inUse⟩
      simp [none] at used

theorem Lends.used_of_nil (h : heap.Lends []) : heap.used = 0 := by
  obtain ⟨cells, sound, none⟩ := h.exists_of_nil
  rw [sound.used_eq, ← usedTotal_usedCells, none]
  rfl

end Heap

end BlockPool
