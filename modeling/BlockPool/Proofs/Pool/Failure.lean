import BlockPool.Proofs.Pool.Outcome

/-!
# Requests that fail

Every pool that a run reaches has a sound heap, if it has one at all.  A
request to such a pool that fails leaves it as it was, with its bytes, links,
generations and counters; only one that finds no room is counted.
-/

namespace BlockPool.Pool

variable {config : Config} {p : Pool} {heap : Heap} {cells : List Cell}
  {request : Request} {error : PoolError}

/-! ## Pools that runs reach -/

def Sound (p : Pool) : Prop :=
  ∀ heap, p.phase = .ready heap → heap.config = p.config ∧ ∃ cells, heap.Sound cells

theorem sound_ready (same : heap.config = config) (h : heap.Sound cells) :
    (⟨config, .ready heap⟩ : Pool).Sound := by
  intro heap' ready
  cases ready
  exact ⟨same, cells, h⟩

theorem Sound.perform (h : p.Sound) (request : Request) :
    (p.perform request).2.Sound := by
  obtain ⟨config, phase⟩ := p
  cases phase with
  | uninitialized =>
      cases request with
      | setUp size =>
          cases size with
          | zero => exact h
          | succ size => exact sound_ready rfl (Heap.sound_ofSize (size + 1) config)
      | _ => exact h
  | ready heap =>
      obtain ⟨same, cells, sound⟩ := h heap rfl
      by_cases closing : request = .close
      · rw [closing]
        exact nofun
      · obtain ⟨cells', next⟩ := sound.serve request
        rw [perform_ready closing]
        exact sound_ready ((sound.change request).config_eq.trans same) next
  | closed => cases request <;> exact h

theorem Sound.run (h : p.Sound) (requests : List Request) : (p.run requests).2.Sound := by
  induction requests generalizing p with
  | nil => exact h
  | cons request rest ih => exact ih (h.perform request)

/-- The heap of the pool is one that requests lead to from the set-up. -/
def Reached (p : Pool) : Prop :=
  ∀ heap, p.phase = .ready heap →
    ∃ (size : Nat) (requests : List Request),
      heap = requests.foldl Heap.serve (.ofSize size p.config)

theorem Reached.perform (h : p.Reached) (request : Request) :
    (p.perform request).2.Reached := by
  obtain ⟨config, phase⟩ := p
  cases phase with
  | uninitialized =>
      cases request with
      | setUp size =>
          cases size with
          | zero => exact h
          | succ size =>
              rintro _ ⟨⟩
              exact ⟨size + 1, [], rfl⟩
      | _ => exact h
  | ready heap =>
      obtain ⟨size, requests, same⟩ := h heap rfl
      by_cases closing : request = .close
      · rw [closing]
        exact nofun
      · rw [perform_ready closing]
        rintro _ ⟨⟩
        refine ⟨size, requests ++ [request], ?_⟩
        rw [List.foldl_append, ← same, List.foldl_cons, List.foldl_nil]
  | closed => cases request <;> exact h

theorem Reached.run (h : p.Reached) (requests : List Request) :
    (p.run requests).2.Reached := by
  induction requests generalizing p with
  | nil => exact h
  | cons request rest ih => exact ih (h.perform request)

theorem Reached.sound (h : p.Reached) : p.Sound := by
  intro heap ready
  obtain ⟨size, requests, rfl⟩ := h heap ready
  obtain ⟨cells, sound, _, config, _⟩ := (Heap.sound_ofSize size p.config).foldl_serve requests
  exact ⟨config, cells, sound⟩

theorem isReady_of_block {handle : Handle} {b : Block} (live : p.block handle = .ok b) :
    p.isReady = true := by
  obtain ⟨config, phase⟩ := p
  cases phase with
  | uninitialized => cases live
  | ready heap => rfl
  | closed => cases live

theorem isReady_of_allocate {size : Nat} {handle : Handle} {q : Pool}
    (given : p.allocate size = (.ok handle, q)) : p.isReady = true := by
  obtain ⟨config, phase⟩ := p
  cases phase with
  | uninitialized => cases given
  | ready heap => rfl
  | closed => cases given

theorem Sound.exists_ready (h : p.Sound) (ready : p.isReady = true) :
    ∃ heap cells, p = ⟨heap.config, .ready heap⟩ ∧ heap.Sound cells := by
  obtain ⟨config, phase⟩ := p
  cases phase with
  | uninitialized => cases ready
  | ready heap =>
      obtain ⟨rfl, cells, sound⟩ := h heap rfl
      exact ⟨heap, cells, rfl, sound⟩
  | closed => cases ready

theorem Sound.exists_of_heap (h : p.Sound) (ready : p.heap = .ok heap) :
    ∃ cells, p = ⟨heap.config, .ready heap⟩ ∧ heap.Sound cells := by
  obtain ⟨config, phase⟩ := p
  cases phase with
  | ready heap' =>
      cases ready
      obtain ⟨rfl, cells, sound⟩ := h heap rfl
      exact ⟨cells, rfl, sound⟩
  | _ => cases ready

theorem Reached.exists_ready (h : p.Reached) (ready : p.isReady = true) :
    ∃ (size : Nat) (requests : List Request),
      p = ⟨p.config, .ready (requests.foldl Heap.serve (.ofSize size p.config))⟩ := by
  obtain ⟨config, phase⟩ := p
  cases phase with
  | uninitialized => cases ready
  | ready heap =>
      obtain ⟨size, requests, same⟩ := h heap rfl
      exact ⟨size, requests, congrArg (Pool.mk config <| .ready ·) same⟩
  | closed => cases ready

/-! ## What a failure leaves behind -/

def countFailure (p : Pool) : Pool :=
  match p.phase with
  | .ready heap =>
      if p.config.trackStats then
        let counters := { heap.counters with failures := heap.counters.failures + 1 }
        ⟨p.config, .ready { heap with counters }⟩
      else
        p
  | _ => p

def afterFailure (p : Pool) : PoolError → Pool
  | .allocationFailed _ _ => p.countFailure
  | _ => p

/-- Whether a request needs a free block of some size. -/
def Wants (p : Pool) (size : Nat) : Request → Prop
  | .allocate size' => size' = size
  | .resize handle size' => size' = size ∧ ∃ b, p.block handle = .ok b ∧ b.size < size
  | _ => False

structure Failed (p : Pool) (request : Request) (error : PoolError) : Prop where
  pool : (p.perform request).2 = p.afterFailure error
  wants : ∀ size largest, error = .allocationFailed size largest → p.Wants size request

theorem countFailure_ready (same : heap.config = config) :
    (⟨config, .ready heap⟩ : Pool).countFailure = ⟨config, .ready heap.countFailure⟩ := by
  subst same
  simp only [countFailure, Heap.countFailure, Heap.count]
  split <;> rfl

theorem block_ready (handle : Handle) :
    (⟨config, .ready heap⟩ : Pool).block handle =
      match heap.range? handle with
      | none => .error (.notFound handle)
      | some b => .ok b :=
  Heap.block_eq heap handle

theorem failed_of_rejection (same : (p.perform request).2 = p)
    (rejection : error.IsRejection) : p.Failed request error where
  pool := by
    rw [same]
    cases error with
    | allocationFailed size largest => exact absurd rfl (rejection size largest)
    | _ => rfl
  wants size largest full := absurd full (rejection size largest)

theorem failed_of_noRoom {size : Nat} (same : heap.config = config)
    (counted : ((⟨config, .ready heap⟩ : Pool).perform request).2 =
      ⟨config, .ready heap.countFailure⟩)
    (wants : (⟨config, .ready heap⟩ : Pool).Wants size request) :
    (⟨config, .ready heap⟩ : Pool).Failed request (heap.noRoom size) where
  pool := by
    rw [counted, ← countFailure_ready same]
    rfl
  wants size' largest full := by
    cases full
    exact wants

theorem failed_ready (h : heap.Sound cells) (same : heap.config = config)
    (failed : ((⟨config, .ready heap⟩ : Pool).perform request).1 = .error error) :
    (⟨config, .ready heap⟩ : Pool).Failed request error := by
  have isOpen : request ≠ .close := by
    rintro rfl
    cases failed
  have outcome := h.outcome config isOpen
  have left : ((⟨config, .ready heap⟩ : Pool).perform request).2 =
      ⟨config, .ready (heap.serve request)⟩ := perform_ready isOpen
  rw [failed] at outcome
  generalize heap.serve request = heap' at outcome left
  cases outcome with
  | rejected _ _ rejection => exact failed_of_rejection left rejection
  | noRoom size => exact failed_of_noRoom same left rfl
  | noRoomToMove handle size b named larger =>
      refine failed_of_noRoom same left ⟨rfl, b, ?_, larger⟩
      rw [block_ready, named]

theorem afterFailure_unready (unready : p.heap = .error error) : p.afterFailure error = p := by
  obtain ⟨config, phase⟩ := p
  cases phase with
  | ready heap => cases unready
  | _ => cases unready; rfl

theorem failed_unready (unready : ∀ heap, p.phase ≠ .ready heap)
    (failed : (p.perform request).1 = .error error) : p.Failed request error := by
  obtain ⟨config, phase⟩ := p
  cases phase with
  | ready heap => exact absurd rfl (unready heap)
  | closed =>
      cases request <;> cases failed <;> exact failed_of_rejection rfl nofun
  | uninitialized =>
      cases request with
      | setUp size =>
          cases size with
          | zero =>
              cases failed
              exact failed_of_rejection rfl nofun
          | succ size => cases failed
      | _ => cases failed <;> exact failed_of_rejection rfl nofun

theorem Sound.failed (h : p.Sound) (failed : (p.perform request).1 = .error error) :
    p.Failed request error := by
  obtain ⟨config, phase⟩ := p
  cases phase with
  | ready heap =>
      obtain ⟨same, cells, sound⟩ := h heap rfl
      exact failed_ready sound same failed
  | _ => exact failed_unready nofun failed

theorem resize_of_room {handle : Handle} {size : Nat} {b : Block}
    (found : p.block handle = .ok b) (room : size ≤ b.size) :
    p.resize handle size = (.ok handle, p) := by
  obtain ⟨config, phase⟩ := p
  cases phase with
  | ready heap =>
      rw [block_ready] at found
      cases named : heap.range? handle with
      | none =>
          rw [named] at found
          cases found
      | some c =>
          rw [named] at found
          cases found
          rw [resize, onHeap_of_ok _ rfl, Heap.resize_of_le named room]
  | _ => cases found

theorem run_failure_unchanged {requests : List Request}
    (reached : ((⟨config, .uninitialized⟩ : Pool).run requests).2 = p) :
    (∀ request error, (p.perform request).1 = .error error →
      (p.perform request).2 = p.afterFailure error ∧
        ∀ size largest, error = .allocationFailed size largest → p.Wants size request) ∧
    ∀ handle size b, p.block handle = .ok b → size ≤ b.size →
      p.perform (.resize handle size) = (.ok (.handle handle), p) := by
  have fresh : (⟨config, .uninitialized⟩ : Pool).Sound := nofun
  have sound : p.Sound := reached ▸ fresh.run requests
  constructor
  · intro request error failed
    have outcome := sound.failed failed
    exact ⟨outcome.pool, outcome.wants⟩
  · intro handle size b found room
    rw [perform, resize_of_room found room]
    rfl

theorem run_failure_unchanged_full :
    ((Pool.run ⟨.debug, .uninitialized⟩ [.setUp 16, .allocate 8]).2.perform
        (.resize ⟨0, 0⟩ 9)).2 =
      (Pool.run ⟨.debug, .uninitialized⟩ [.setUp 16, .allocate 8]).2.afterFailure
        (.allocationFailed 9 8) ∧
    (Pool.run ⟨.debug, .uninitialized⟩ [.setUp 16, .allocate 8]).2.perform
        (.resize ⟨0, 0⟩ 8) =
      (.ok (.handle ⟨0, 0⟩),
        (Pool.run ⟨.debug, .uninitialized⟩ [.setUp 16, .allocate 8]).2) := by
  obtain ⟨failures, kept⟩ := run_failure_unchanged
    (rfl : (Pool.run ⟨.debug, .uninitialized⟩ [.setUp 16, .allocate 8]).2 = _)
  constructor
  · exact (failures (.resize ⟨0, 0⟩ 9) _ rfl).1
  · exact kept ⟨0, 0⟩ 8 ⟨0, 8, false⟩ rfl (by decide)

end BlockPool.Pool
