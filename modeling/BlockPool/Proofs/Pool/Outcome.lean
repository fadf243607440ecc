import BlockPool.Proofs.Pool.Refinement

/-!
# How requests end

A request to a sound heap is turned away, finds no room, or is done.  For each
way of these its result and the heap that it leaves are known together, so
that a statement about all requests is one about these ways.
-/

namespace BlockPool

/-- Whether it is something else than a lack of room that is wrong. -/
def PoolError.IsRejection (error : PoolError) : Prop :=
  ∀ requested largest, error ≠ .allocationFailed requested largest

abbrev Pool.Entry := Pool.Request × Except PoolError Pool.Reply

theorem eq_error_of_map {α β : Type} {result : Except PoolError α} {form : α → β}
    {error : PoolError} (failed : result.map form = .error error) :
    result = .error error := by
  cases result with
  | ok value => cases failed
  | error other =>
      cases failed
      rfl

namespace Heap

open Layout

variable {heap : Heap} {cells : List Cell} {handle : Handle} {offset length : Nat}
  {error : PoolError}

/-! ## Why queries are turned away -/

theorem block_of_error (failed : heap.block handle = .error error) :
    error.IsRejection := by
  rw [block_eq] at failed
  cases named : heap.range? handle with
  | none =>
      rw [named] at failed
      cases failed
      exact nofun
  | some b =>
      rw [named] at failed
      cases failed

theorem readAt_of_error (failed : heap.readAt handle offset length = .error error) :
    error.IsRejection := by
  rw [readAt] at failed
  cases found : heap.block handle with
  | error other =>
      rw [found] at failed
      cases failed
      exact block_of_error found
  | ok b =>
      simp only [found] at failed
      split at failed
      · cases failed
      · cases failed
        intro requested largest same
        cases same

theorem check_of_error (failed : heap.check = .error error) : error.IsRejection := by
  rw [check] at failed
  split at failed
  · cases failed
    exact nofun
  · simp only at failed
    split at failed
    · cases failed
    · cases failed
      exact nofun

theorem query_of_error {config : Config} {request : Pool.Request}
    (query : request.isQuery = true)
    (failed : ((⟨config, .ready heap⟩ : Pool).perform request).1 = .error error) :
    error.IsRejection := by
  cases request with
  | setUp size =>
      cases failed
      exact nofun
  | read handle =>
      have read : heap.read handle = .error error := eq_error_of_map failed
      exact block_of_error (eq_error_of_map read)
  | readAt handle offset length => exact readAt_of_error (eq_error_of_map failed)
  | block handle => exact block_of_error (eq_error_of_map failed)
  | check => exact check_of_error (eq_error_of_map failed)
  | allocate size => cases query
  | deallocate handle => cases query
  | resize handle size => cases query
  | write handle offset data => cases query
  | close => cases query
  | _ => cases failed

/-! ## Outcomes -/

inductive Outcome (heap : Heap) (cells : List Cell) : Pool.Entry → Heap → Prop where
  | rejected (request : Pool.Request) (error : PoolError)
      (rejection : error.IsRejection) : Outcome heap cells (request, .error error) heap
  | noRoom (size : Nat) :
      Outcome heap cells (.allocate size, .error (heap.noRoom size)) heap.countFailure
  | noRoomToMove (handle : Handle) (size : Nat) (b : Block)
      (named : heap.range? handle = some b) (larger : b.size < size) :
      Outcome heap cells (.resize handle size, .error (heap.noRoom size))
        heap.countFailure
  | answered (request : Pool.Request) (query : request.isQuery = true)
      (reply : Pool.Reply) : Outcome heap cells (request, .ok reply) heap
  | written (handle : Handle) (offset : Nat) (data : List UInt8) (start : Nat) :
      Outcome heap cells (.write handle offset data, .ok .done)
        (heap.written start data)
  | placed (size i : Nat) (b : Block) (member : (i, b) ∈ cells)
      (fit : fits size b = true) :
      Outcome heap cells (.allocate size, .ok (.handle (heap.layout.handleOf i)))
        (heap.placed i size)
  | freed (handle : Handle) (b : Block) (named : heap.range? handle = some b) :
      Outcome heap cells (.deallocate handle, .ok .done)
        (heap.freed handle.index.toNat)
  | kept (handle : Handle) (size : Nat) (b : Block)
      (named : heap.range? handle = some b) :
      Outcome heap cells (.resize handle size, .ok (.handle handle)) heap
  | moved (handle : Handle) (size : Nat) (b : Block) (target : Nat) (c : Block)
      (named : heap.range? handle = some b) (member : (target, c) ∈ cells)
      (fit : fits size c = true) :
      Outcome heap cells
        (.resize handle size, .ok (.handle (heap.layout.handleOf target)))
        (heap.moved handle.index.toNat b (target, c) size)

theorem outcome_of_query {config : Config} {request : Pool.Request}
    (query : request.isQuery = true) :
    heap.Outcome cells
      (request, ((⟨config, .ready heap⟩ : Pool).perform request).1) heap := by
  cases result : ((⟨config, .ready heap⟩ : Pool).perform request).1 with
  | ok reply => exact .answered request query reply
  | error error => exact .rejected request error (query_of_error query result)

theorem Sound.outcome (h : heap.Sound cells) (config : Config) {request : Pool.Request}
    (isOpen : request ≠ .close) :
    heap.Outcome cells (request, ((⟨config, .ready heap⟩ : Pool).perform request).1)
      (heap.serve request) := by
  cases request with
  | allocate size =>
      change heap.Outcome cells (_, (heap.allocate size).1.map _) (heap.allocate size).2
      cases h.allocation size with
      | noRoom _ result =>
          rw [result]
          exact .noRoom size
      | placed i b member fit _ result =>
          rw [result]
          exact .placed size i b member fit
  | deallocate handle =>
      change heap.Outcome cells (_, (heap.deallocate handle).1.map _)
        (heap.deallocate handle).2
      rw [deallocate_eq]
      cases named : heap.range? handle with
      | none => exact .rejected _ _ nofun
      | some b => exact .freed handle b named
  | resize handle size =>
      change heap.Outcome cells (_, (heap.resize handle size).1.map _)
        (heap.resize handle size).2
      cases h.resizing handle size with
      | unnamed _ result =>
          rw [result]
          exact .rejected _ _ nofun
      | kept b named _ result =>
          rw [result]
          exact .kept handle size b named
      | noRoom b named larger _ result =>
          rw [result]
          exact .noRoomToMove handle size b named larger
      | moved b target c named _ member fit _ result =>
          rw [result]
          exact .moved handle size b target c named member fit
  | write handle offset data =>
      change heap.Outcome cells (_, (heap.write handle offset data).1.map _)
        (heap.write handle offset data).2
      rw [write_eq]
      cases heap.range? handle with
      | none => exact .rejected _ _ nofun
      | some b =>
          simp only
          split
          · exact .written handle offset data _
          · exact .rejected _ _ nofun
  | close => exact absurd rfl isOpen
  | _ => exact outcome_of_query rfl

end Heap

end BlockPool
