import BlockPool.Proofs.Pool.Contents

/-!
# A pool is a map from handles to byte strings

Each request to a ready pool is a step of a map that knows nothing of buffers
and layouts, and after every step the pool shows what the map holds: the bytes
of each block, their number, and any part of them.
-/

namespace BlockPool

def Pool.Request.handle? : Pool.Request → Option Handle
  | .deallocate handle => some handle
  | .resize handle _ => some handle
  | .read handle => some handle
  | .readAt handle _ _ => some handle
  | .write handle _ _ => some handle
  | .block handle => some handle
  | _ => none

def Pool.Request.isQuery : Pool.Request → Bool
  | .allocate _ => false
  | .deallocate _ => false
  | .resize _ _ => false
  | .write _ _ _ => false
  | .close => false
  | _ => true

namespace Contents

inductive Step (config : Config) (m : Contents) :
    Pool.Request → Except PoolError Pool.Reply → Contents → Prop where
  | allocated {size : Nat} {handle : Handle} {bytes : List UInt8}
      (unused : m handle = none) (fresh : Fresh config size bytes) :
      Step config m (.allocate size) (.ok (.handle handle)) (m.set handle (some bytes))
  | noRoom {size largest : Nat} :
      Step config m (.allocate size) (.error (.allocationFailed size largest)) m
  | freed {handle : Handle} {bytes : List UInt8} (live : m handle = some bytes) :
      Step config m (.deallocate handle) (.ok .done) (m.set handle none)
  | written {handle : Handle} {offset : Nat} {data bytes : List UInt8}
      (live : m handle = some bytes) (inside : offset + data.length ≤ bytes.length) :
      Step config m (.write handle offset data) (.ok .done)
        (m.set handle (some (patch bytes offset data)))
  | outside {handle : Handle} {offset : Nat} {data bytes : List UInt8}
      (live : m handle = some bytes) (outside : bytes.length < offset + data.length) :
      Step config m (.write handle offset data)
        (.error (.outOfBounds offset data.length bytes.length)) m
  | kept {handle : Handle} {size : Nat} {bytes : List UInt8}
      (live : m handle = some bytes) (room : size ≤ bytes.length) :
      Step config m (.resize handle size) (.ok (.handle handle)) m
  | moved {handle new : Handle} {size : Nat} {bytes rest : List UInt8}
      (live : m handle = some bytes) (larger : bytes.length < size)
      (unused : m new = none) (fresh : Fresh config (size - bytes.length) rest) :
      Step config m (.resize handle size) (.ok (.handle new))
        ((m.set handle none).set new (some (bytes ++ rest)))
  | noRoomToMove {handle : Handle} {size largest : Nat} {bytes : List UInt8}
      (live : m handle = some bytes) (larger : bytes.length < size) :
      Step config m (.resize handle size) (.error (.allocationFailed size largest)) m
  | unknown {request : Pool.Request} {handle : Handle}
      (about : request.handle? = some handle) (dead : m handle = none) :
      Step config m request (.error (.notFound handle)) m
  | asked {request : Pool.Request} {result : Except PoolError Pool.Reply}
      (query : request.isQuery = true) : Step config m request result m

theorem Step.frame {config : Config} {m m' : Contents} {request : Pool.Request}
    {result : Except PoolError Pool.Reply} (step : m.Step config request result m')
    {handle : Handle} (live : (m handle).isSome)
    (other : request.isQuery = true ∨ request.handle? ≠ some handle) :
    m' handle = m handle := by
  -- Handles that are given out were not in use, so they are not this one either.
  have used {new : Handle} (unused : m new = none) : handle ≠ new := by
    rintro rfl
    simp [unused] at live
  have distinct {about : Handle} (changes : request.isQuery = false)
      (named : request.handle? = some about) : handle ≠ about := by
    rintro rfl
    rcases other with query | other
    · simp [changes] at query
    · exact other named
  cases step with
  | allocated unused _ => exact set_of_ne _ _ (used unused)
  | freed _ => exact set_of_ne _ _ (distinct rfl rfl)
  | written _ _ => exact set_of_ne _ _ (distinct rfl rfl)
  | moved _ _ unused _ =>
      rw [set_of_ne _ _ (used unused)]
      exact set_of_ne _ _ (distinct rfl rfl)
  | _ => rfl

structure Shows (m : Contents) (p : Pool) : Prop where
  read : ∀ handle bytes, m handle = some bytes → p.read handle = .ok bytes
  block : ∀ handle bytes, m handle = some bytes →
    ∃ b, p.block handle = .ok b ∧ b.size = bytes.length
  readAt : ∀ handle bytes offset length, m handle = some bytes →
    p.readAt handle offset length =
      if offset + length ≤ bytes.length then .ok ((bytes.drop offset).take length)
      else .error (.outOfBounds offset length bytes.length)
  unknown : ∀ handle, m handle = none →
    p.read handle = .error (.notFound handle) ∧
      p.block handle = .error (.notFound handle) ∧
      ∀ offset length, p.readAt handle offset length = .error (.notFound handle)

/-- The requests are steps of the map, and the pool shows the map all along. -/
def Follows (m : Contents) (p : Pool) : List Pool.Request → Prop
  | [] => m.Shows p
  | request :: rest =>
      m.Shows p ∧ ∃ m' : Contents,
        m.Step p.config request (p.perform request).1 m' ∧
          m'.Follows (p.perform request).2 rest

end Contents

def Pool.slotCount (p : Pool) : Nat :=
  match p.phase with
  | .ready heap => heap.layout.slotCount
  | _ => 0

namespace Heap

open Layout

variable {heap : Heap} {cells : List Cell} {config : Config}

theorem Sound.shows (h : heap.Sound cells) :
    heap.contents.Shows ⟨config, .ready heap⟩ := by
  have block (handle : Handle) (bytes : List UInt8)
      (live : heap.contents handle = some bytes) :
      ∃ b, heap.block handle = .ok b ∧ b.size = bytes.length ∧
        bytes = heap.buffer.slice b.offset b.size := by
    obtain ⟨b, named, rfl⟩ := Option.map_eq_some_iff.mp live
    exact ⟨b, by rw [block_eq, named], (h.length_contents named).symm, rfl⟩
  refine ⟨?_, ?_, ?_, ?_⟩
  · intro handle bytes live
    obtain ⟨b, found, _, rfl⟩ := block handle bytes live
    change heap.read handle = _
    rw [Heap.read, found]
    rfl
  · intro handle bytes live
    obtain ⟨b, found, size, _⟩ := block handle bytes live
    exact ⟨b, found, size⟩
  · intro handle bytes offset length live
    obtain ⟨b, found, size, same⟩ := block handle bytes live
    change heap.readAt handle offset length = _
    simp only [Heap.readAt, found, ← size]
    split
    · next inside => rw [Buffer.slice_sub inside, same]
    · rfl
  · intro handle dead
    have found : heap.block handle = .error (.notFound handle) := by
      rw [block_eq, contents_eq_none_iff.mp dead]
    refine ⟨?_, found, fun offset length => ?_⟩
    · change heap.read handle = _
      rw [Heap.read, found]
      rfl
    · change heap.readAt handle offset length = _
      rw [Heap.readAt, found]

theorem Sound.contents_handleOf (h : heap.Sound cells) {i size : Nat} {b : Block}
    (member : (i, b) ∈ cells) (fit : fits size b = true) (small : i < UInt32.size) :
    heap.contents (heap.layout.handleOf i) = none := by
  apply contents_eq_none_iff.mpr
  exact h.range?_eq_none member (fits_iff.mp fit).1 ((eq_handleOf_iff small _).mp rfl).1

theorem Sound.allocate_step (h : heap.Sound cells) {size : Nat}
    (slots : (heap.allocate size).2.layout.slotCount < UInt32.size) :
    heap.contents.Step heap.config (.allocate size)
      ((heap.allocate size).1.map .handle) (heap.allocate size).2.contents := by
  have grown := h.slotCount_le_serve (.allocate size)
  rw [Heap.serve] at grown
  cases h.allocation size with
  | noRoom _ result =>
      rw [result]
      simp only [contents_countFailure]
      exact .noRoom
  | placed i b member fit _ result =>
      have inside := h.chains.lt_slotCount member
      have small : i < UInt32.size := by omega
      obtain ⟨bytes, fresh, after⟩ := h.contents_placed member fit small
      rw [result]
      simp only [after]
      exact .allocated (h.contents_handleOf member fit small) fresh

theorem Sound.deallocate_step (h : heap.Sound cells) (handle : Handle) :
    heap.contents.Step heap.config (.deallocate handle)
      ((heap.deallocate handle).1.map fun _ => .done)
      (heap.deallocate handle).2.contents := by
  rw [deallocate_eq]
  cases named : heap.range? handle with
  | none => exact .unknown rfl (contents_eq_none_iff.mpr named)
  | some b =>
      simp only [h.contents_freed named]
      exact .freed (contents_of_range? named)

theorem Sound.write_step (h : heap.Sound cells) (handle : Handle) (offset : Nat)
    (data : List UInt8) :
    heap.contents.Step heap.config (.write handle offset data)
      ((heap.write handle offset data).1.map fun _ => .done)
      (heap.write handle offset data).2.contents := by
  rw [write_eq]
  cases named : heap.range? handle with
  | none => exact .unknown rfl (contents_eq_none_iff.mpr named)
  | some b =>
      have live := contents_of_range? named
      have length := h.length_contents named
      by_cases inside : offset + data.length ≤ b.size
      · simp only [if_pos inside, h.contents_written named inside]
        exact .written live (length.symm ▸ inside)
      · simp only [if_neg inside]
        have outside : (heap.buffer.slice b.offset b.size).length <
            offset + data.length := by omega
        exact length ▸ .outside live outside

theorem Sound.resize_step (h : heap.Sound cells) {handle : Handle} {size : Nat}
    (slots : (heap.resize handle size).2.layout.slotCount < UInt32.size) :
    heap.contents.Step heap.config (.resize handle size)
      ((heap.resize handle size).1.map .handle)
      (heap.resize handle size).2.contents := by
  have grown := h.slotCount_le_serve (.resize handle size)
  rw [Heap.serve] at grown
  cases h.resizing handle size with
  | unnamed unnamed result =>
      rw [result]
      exact .unknown rfl (contents_eq_none_iff.mpr unnamed)
  | kept b named room result =>
      rw [result]
      have length := h.length_contents named
      rw [← length] at room
      exact .kept (contents_of_range? named) room
  | noRoom b named larger _ result =>
      rw [result]
      simp only [contents_countFailure]
      have length := h.length_contents named
      rw [← length] at larger
      exact .noRoomToMove (contents_of_range? named) larger
  | moved b target c named larger member fit _ result =>
      have inside := h.chains.lt_slotCount member
      have small : target < UInt32.size := by omega
      have length := h.length_contents named
      obtain ⟨rest, fresh, after⟩ := h.contents_moved named larger member fit small
      rw [result]
      simp only [after]
      rw [← length] at larger fresh
      exact .moved (contents_of_range? named) larger
        (h.contents_handleOf member fit small) fresh

theorem Sound.step (h : heap.Sound cells) (config : Config) {request : Pool.Request}
    (isOpen : request ≠ .close)
    (slots : (heap.serve request).layout.slotCount < UInt32.size) :
    heap.contents.Step heap.config request
      ((⟨config, .ready heap⟩ : Pool).perform request).1
      (heap.serve request).contents := by
  cases request with
  | allocate size => exact h.allocate_step slots
  | deallocate handle => exact h.deallocate_step handle
  | resize handle size => exact h.resize_step slots
  | write handle offset data => exact h.write_step handle offset data
  | close => exact absurd rfl isOpen
  | _ => exact .asked rfl

end Heap

theorem Heap.contents_ofSize (size : Nat) (config : Config) :
    (Heap.ofSize size config).contents = Contents.empty := by
  have sound := Heap.sound_ofSize size config
  funext handle
  rw [Contents.empty, Heap.contents_eq_none_iff]
  cases named : (Heap.ofSize size config).range? handle with
  | none => rfl
  | some b =>
      have used := (sound.range?_eq_some_iff.mp named).1
      simp [usedCells_cons] at used

namespace Pool

variable {config : Config} {heap : Heap} {cells : List Cell}

theorem follows_ready (h : heap.Sound cells) (same : heap.config = config)
    {requests : List Request} (isOpen : .close ∉ requests)
    (slots : ((⟨config, .ready heap⟩ : Pool).run requests).2.slotCount <
      UInt32.size) :
    heap.contents.Follows ⟨config, .ready heap⟩ requests := by
  -- No request gives slots back, so the bound at the end of the run holds all along.
  induction requests generalizing heap cells with
  | nil => exact h.shows
  | cons request rest ih =>
      rw [List.mem_cons, not_or] at isOpen
      have going : request ≠ .close := Ne.symm isOpen.1
      obtain ⟨cells', next⟩ := h.serve request
      have config' := (h.change request).config_eq
      rw [run_cons, perform_ready going] at slots
      have later : (heap.serve request).layout.slotCount < UInt32.size := by
        obtain ⟨_, _, _, _, grown⟩ := next.foldl_serve rest
        rw [run_ready isOpen.2] at slots
        exact Nat.lt_of_le_of_lt grown slots
      refine ⟨h.shows, (heap.serve request).contents, ?_, ?_⟩
      · exact same ▸ h.step config going later
      · rw [perform_ready going]
        exact ih next (config'.trans same) isOpen.2 slots

theorem run_follows_contents {p : Pool} {size : Nat} {requests : List Request}
    (opened : (⟨config, .uninitialized⟩ : Pool).setUp size = (.ok (), p))
    (isOpen : .close ∉ requests) (slots : (p.run requests).2.slotCount < UInt32.size) :
    Contents.empty.Follows p requests := by
  rw [setUp] at opened
  split at opened
  · cases opened
  · cases opened
    rw [← Heap.contents_ofSize size config]
    exact follows_ready (Heap.sound_ofSize size config) rfl isOpen slots

theorem run_follows_contents_moved :
    Contents.empty.Follows ⟨.debug, .ready (.ofSize 16 .debug)⟩
      [.allocate 2, .write ⟨0, 0⟩ 1 [7], .allocate 0, .resize ⟨0, 0⟩ 4,
        .read ⟨0, 0⟩, .deallocate ⟨1, 0⟩] :=
  run_follows_contents (setUp_of_pos (by decide)) (by decide) (by decide +kernel)

end Pool

end BlockPool
