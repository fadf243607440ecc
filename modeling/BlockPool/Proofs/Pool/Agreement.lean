import BlockPool.Proofs.Pool.Tally

/-!
# Heaps that differ in what they are filled with

Fill patterns and counters are written and never looked at.  Heaps that agree
on layout and policies answer every request alike, but for the bytes in their
blocks and the counters in their statistics, and they go on to agree.
-/

namespace BlockPool

namespace Heap

variable {heap heap' heap'' : Heap}

/-- The heaps may differ in their bytes, fill patterns and counters, in nothing else. -/
structure Agrees (heap heap' : Heap) : Prop where
  layout : heap.layout = heap'.layout
  size : heap.size = heap'.size
  used : heap.used = heap'.used
  coalesce : heap.config.coalesce = heap'.config.coalesce
  remainder : heap.config.recordEmptyRemainder = heap'.config.recordEmptyRemainder

namespace Agrees

theorem refl (heap : Heap) : heap.Agrees heap := ⟨rfl, rfl, rfl, rfl, rfl⟩

theorem symm (h : heap.Agrees heap') : heap'.Agrees heap :=
  ⟨h.layout.symm, h.size.symm, h.used.symm, h.coalesce.symm, h.remainder.symm⟩

theorem trans (h : heap.Agrees heap') (h' : heap'.Agrees heap'') : heap.Agrees heap'' :=
  ⟨h.layout.trans h'.layout, h.size.trans h'.size, h.used.trans h'.used,
    h.coalesce.trans h'.coalesce, h.remainder.trans h'.remainder⟩

theorem ofSize {config config' : Config} (size : Nat)
    (coalesce : config.coalesce = config'.coalesce)
    (remainder : config.recordEmptyRemainder = config'.recordEmptyRemainder) :
    (Heap.ofSize size config).Agrees (.ofSize size config') :=
  ⟨rfl, rfl, rfl, coalesce, remainder⟩

/-! ## Changes that do not matter -/

theorem count (heap : Heap) (change : Counters → Counters) :
    (heap.count change).Agrees heap :=
  ⟨layout_count .., size_count .., used_count .., by rw [config_count],
    by rw [config_count]⟩

theorem paint (heap : Heap) (pattern : Option UInt8) (start length : Nat) :
    (heap.paint pattern start length).Agrees heap :=
  ⟨layout_paint .., size_paint .., used_paint .., by rw [config_paint],
    by rw [config_paint]⟩

theorem written (heap : Heap) (start : Nat) (data : List UInt8) :
    (heap.written start data).Agrees heap :=
  ⟨rfl, Buffer.size_overwrite .., rfl, rfl, rfl⟩

theorem copy (heap : Heap) (source target length : Nat) :
    (heap.copy source target length).Agrees heap :=
  ⟨rfl, size_copy .., rfl, rfl, rfl⟩

theorem congr_count (h : heap.Agrees heap') (change change' : Counters → Counters) :
    (heap.count change).Agrees (heap'.count change') :=
  (count ..).trans (h.trans (count ..).symm)

theorem congr_paint (h : heap.Agrees heap') (pattern pattern' : Option UInt8)
    (start length : Nat) :
    (heap.paint pattern start length).Agrees (heap'.paint pattern' start length) :=
  (paint ..).trans (h.trans (paint ..).symm)

theorem congr_copy (h : heap.Agrees heap') (source target length : Nat) :
    (heap.copy source target length).Agrees (heap'.copy source target length) :=
  (copy ..).trans (h.trans (copy ..).symm)

/-! ## Claims and releases -/

theorem claimAt (h : heap.Agrees heap') (i size : Nat) :
    (heap.claimAt i size).Agrees (heap'.claimAt i size) := by
  cases found : heap.layout.get? i with
  | none => simpa only [Heap.claimAt, ← h.layout, found] using h
  | some record =>
      rw [claimAt_eq found, claimAt_eq (h.layout ▸ found)]
      refine congr_paint (congr_count ?_ ..) ..
      exact ⟨by rw [h.layout, h.remainder], h.size, by rw [h.used], h.coalesce, h.remainder⟩

theorem release (h : heap.Agrees heap') (i : Nat) :
    (heap.release i).1 = (heap'.release i).1 ∧
      (heap.release i).2.Agrees (heap'.release i).2 := by
  cases found : heap.layout.get? i with
  | none =>
      simp only [Heap.release, ← h.layout, found]
      exact ⟨trivial, h⟩
  | some record =>
      rw [release_eq found, release_eq (h.layout ▸ found)]
      refine ⟨by simp only [h.layout, h.coalesce], congr_paint ?_ ..⟩
      exact ⟨by rw [h.layout, h.coalesce], h.size, by rw [h.used], h.coalesce, h.remainder⟩

theorem freed (h : heap.Agrees heap') (i : Nat) : (heap.freed i).Agrees (heap'.freed i) :=
  congr_count (h.release i).2 ..

/-! ## Lookups -/

theorem usedRecord (h : heap.Agrees heap') (handle : Handle) :
    heap.usedRecord handle = heap'.usedRecord handle := by
  rw [Heap.usedRecord, h.layout]
  rfl

theorem range? (h : heap.Agrees heap') (handle : Handle) :
    heap.range? handle = heap'.range? handle :=
  (range?_congr h.layout.symm handle).symm

theorem block (h : heap.Agrees heap') (handle : Handle) :
    heap.block handle = heap'.block handle := by
  rw [Heap.block, h.usedRecord, Heap.block]

theorem largestFree (h : heap.Agrees heap') : heap.largestFree = heap'.largestFree :=
  congrArg Layout.largestFree h.layout

theorem handleAt (h : heap.Agrees heap') (i : Nat) : heap.handleAt i = heap'.handleAt i := by
  rw [Heap.handleAt, h.layout]
  rfl

theorem noRoom (h : heap.Agrees heap') (size : Nat) : heap.noRoom size = heap'.noRoom size := by
  rw [Heap.noRoom, h.largestFree]
  rfl

theorem isSome_contents (h : heap.Agrees heap') (handle : Handle) :
    (heap.contents handle).isSome = (heap'.contents handle).isSome := by
  simp only [Heap.contents, h.range? handle, Option.isSome_map]

/-! ## Operations -/

theorem allocate (h : heap.Agrees heap') (size : Nat) :
    (heap.allocate size).1 = (heap'.allocate size).1 ∧
      (heap.allocate size).2.Agrees (heap'.allocate size).2 := by
  cases found : heap.layout.firstFit? size with
  | none =>
      have refused : heap.countFailure.Agrees heap'.countFailure := h.congr_count ..
      rw [allocate_of_none found, allocate_of_none (h.layout ▸ found)]
      exact ⟨congrArg Except.error (h.noRoom size), refused⟩
  | some i =>
      simp only [Heap.allocate, ← h.layout, found]
      have claimed := (h.claimAt i size).congr_count Counters.addAllocation .addAllocation
      exact ⟨claimed.handleAt i, claimed⟩

theorem deallocate (h : heap.Agrees heap') (handle : Handle) :
    (heap.deallocate handle).1 = (heap'.deallocate handle).1 ∧
      (heap.deallocate handle).2.Agrees (heap'.deallocate handle).2 := by
  rw [deallocate_eq, deallocate_eq, ← h.range? handle]
  cases heap.range? handle with
  | none => exact ⟨rfl, h⟩
  | some b => exact ⟨rfl, h.freed _⟩

theorem resize (h : heap.Agrees heap') (handle : Handle) (size : Nat) :
    (heap.resize handle size).1 = (heap'.resize handle size).1 ∧
      (heap.resize handle size).2.Agrees (heap'.resize handle size).2 := by
  simp only [Heap.resize, ← h.usedRecord, ← h.layout]
  cases heap.usedRecord handle with
  | error error => exact ⟨rfl, h⟩
  | ok found =>
      obtain ⟨index, record⟩ := found
      simp only
      split
      · exact ⟨rfl, h⟩
      · cases heap.layout.firstFit? size with
        | none =>
            have refused : heap.countFailure.Agrees heap'.countFailure := h.congr_count ..
            exact ⟨congrArg Except.error (h.noRoom size), refused⟩
        | some target =>
            have claimed := h.claimAt target size
            simp only [← claimed.layout]
            cases (heap.claimAt target size).layout.get? target with
            | none => exact ⟨rfl, claimed⟩
            | some c =>
                have copied := claimed.congr_copy record.offset c.offset record.size
                have moved := (copied.release index).2.congr_count
                  Counters.addResize .addResize
                exact ⟨moved.handleAt target, moved⟩

theorem write (h : heap.Agrees heap') (handle : Handle) (offset : Nat) (data : List UInt8) :
    (heap.write handle offset data).1 = (heap'.write handle offset data).1 ∧
      (heap.write handle offset data).2.Agrees (heap'.write handle offset data).2 := by
  rw [write_eq, write_eq, ← h.range? handle]
  cases heap.range? handle with
  | none => exact ⟨rfl, h⟩
  | some b =>
      simp only
      split
      · exact ⟨rfl, (written ..).trans (h.trans (written ..).symm)⟩
      · exact ⟨rfl, h⟩

theorem serve (h : heap.Agrees heap') (request : Pool.Request) :
    (heap.serve request).Agrees (heap'.serve request) := by
  cases request with
  | allocate size => exact (h.allocate size).2
  | deallocate handle => exact (h.deallocate handle).2
  | resize handle size => exact (h.resize handle size).2
  | write handle offset data => exact (h.write handle offset data).2
  | _ => exact h

theorem foldl_serve (h : heap.Agrees heap') (requests : List Pool.Request) :
    (requests.foldl Heap.serve heap).Agrees (requests.foldl Heap.serve heap') := by
  induction requests generalizing heap heap' with
  | nil => exact h
  | cons request rest ih => exact ih (h.serve request)

theorem check (h : heap.Agrees heap') : heap.check = heap'.check := by
  simp only [Heap.check, h.layout, h.size, h.used]

end Agrees

/-! ## Heaps that differ in their bytes alone -/

/-- The heaps may differ in the bytes of their buffers, in nothing else. -/
structure Rewritten (heap heap' : Heap) : Prop where
  agrees : heap.Agrees heap'
  config : heap.config = heap'.config
  counters : heap.counters = heap'.counters

namespace Rewritten

theorem refl (heap : Heap) : heap.Rewritten heap := ⟨.refl heap, rfl, rfl⟩

theorem trans (h : heap.Rewritten heap') (h' : heap'.Rewritten heap'') :
    heap.Rewritten heap'' :=
  ⟨h.agrees.trans h'.agrees, h.config.trans h'.config, h.counters.trans h'.counters⟩

theorem written (heap : Heap) (start : Nat) (data : List UInt8) :
    (heap.written start data).Rewritten heap :=
  ⟨.written .., rfl, rfl⟩

theorem freed (h : heap.Rewritten heap') (i : Nat) :
    (heap.freed i).Rewritten (heap'.freed i) where
  agrees := h.agrees.freed i
  config := by simpa [Heap.freed] using h.config
  counters := by rw [counters_freed, counters_freed, h.config, h.counters]

end Rewritten

end Heap

/-! ## Answers but for bytes and counters -/

def Statistics.blot (s : Statistics) : Statistics :=
  { s with
    allocationCount := 0
    deallocationCount := 0
    resizeCount := 0
    failedAllocations := 0
    peakUsedBytes := 0 }

namespace Pool

def Reply.blot : Reply → Reply
  | .bytes content => .bytes (content.map fun _ => 0)
  | .statistics account => .statistics account.blot
  | reply => reply

def Request.asksConfig : Request → Bool
  | .config => true
  | .debug => true
  | _ => false

end Pool

namespace Heap.Agrees

variable {heap heap' : Heap} {config config' : Config}

theorem statistics_blot (h : heap.Agrees heap') :
    heap.statistics.blot = heap'.statistics.blot := by
  simp only [Heap.statistics, Statistics.blot, h.layout, h.size, h.used, h.largestFree]

theorem map_slice (h : heap.Agrees heap') (start length : Nat) :
    (heap.buffer.slice start length).map (fun _ => (0 : UInt8)) =
      (heap'.buffer.slice start length).map fun _ => 0 := by
  have same : heap.buffer.bytes.size = heap'.buffer.bytes.size := h.size
  have length : (heap.buffer.slice start length).length =
      (heap'.buffer.slice start length).length := by
    simp only [Buffer.slice, Array.length_toList, Array.size_extract, same]
  rw [List.map_const', List.map_const', length]

theorem map_blot_congr {α : Type} {result result' : Except PoolError α}
    (form : α → Pool.Reply) (same : result = result') :
    (result.map form).map Pool.Reply.blot = (result'.map form).map Pool.Reply.blot := by
  rw [same]

theorem perform (h : heap.Agrees heap') (config config' : Config) {request : Pool.Request}
    (discreet : request.asksConfig = false) :
    ((⟨config, .ready heap⟩ : Pool).perform request).1.map Pool.Reply.blot =
      ((⟨config', .ready heap'⟩ : Pool).perform request).1.map Pool.Reply.blot := by
  cases request with
  | setUp size => rfl
  | close => exact congrArg (fun s => Except.ok (Pool.Reply.statistics s)) h.statistics_blot
  | allocate size => exact map_blot_congr .handle (h.allocate size).1
  | deallocate handle => exact map_blot_congr (fun _ => .done) (h.deallocate handle).1
  | resize handle size => exact map_blot_congr .handle (h.resize handle size).1
  | write handle offset data => exact map_blot_congr (fun _ => .done) (h.write handle offset data).1
  | read handle =>
      change ((heap.read handle).map _).map _ = ((heap'.read handle).map _).map _
      rw [Heap.read, Heap.read, ← h.block handle]
      cases heap.block handle with
      | error error => rfl
      | ok b => exact congrArg (fun bytes => Except.ok (Pool.Reply.bytes bytes)) (h.map_slice ..)
  | readAt handle offset length =>
      change ((heap.readAt handle offset length).map _).map _ =
        ((heap'.readAt handle offset length).map _).map _
      rw [Heap.readAt, Heap.readAt, ← h.block handle]
      cases heap.block handle with
      | error error => rfl
      | ok b =>
          simp only
          split
          · exact congrArg (fun bytes => Except.ok (Pool.Reply.bytes bytes)) (h.map_slice ..)
          · rfl
  | block handle => exact map_blot_congr .block (h.block handle)
  | blocks =>
      exact congrArg (fun layout => Except.ok (Pool.Reply.blocks layout.blocks)) h.layout
  | statistics =>
      exact congrArg (fun s => Except.ok (Pool.Reply.statistics s)) h.statistics_blot
  | check => exact map_blot_congr (fun _ => .done) h.check
  | phase => rfl
  | isReady => rfl
  | config => cases discreet
  | debug => cases discreet

end Heap.Agrees

end BlockPool
