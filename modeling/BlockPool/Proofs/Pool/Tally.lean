import BlockPool.Proofs.Pool.Outstanding

/-!
# What the counters count

Where a pool tracks its use, its counters are those of the entries of its
history: blocks placed, freed and moved, and requests that found no room.  The
peak is the most that the requests for blocks had in use at once, a moved
block in both of its places.
-/

namespace BlockPool

namespace Pool

/-! ## Kinds of entries -/

def places : Entry → Bool
  | (.allocate _, .ok _) => true
  | _ => false

def frees : Entry → Bool
  | (.deallocate _, .ok _) => true
  | _ => false

def moves : Entry → Bool
  | (.resize handle _, .ok (.handle new)) => new ≠ handle
  | _ => false

def lacksRoom : Entry → Bool
  | (_, .error (.allocationFailed _ _)) => true
  | _ => false

def Request.wanted : Request → Nat
  | .allocate size => size
  | .resize _ size => size
  | _ => 0

/-- The bytes in use as soon as a request has its block, with `used` of them before. -/
def demand (used : Nat) (entry : Entry) : Option Nat :=
  if places entry || moves entry then some (used + entry.1.wanted) else none

def usedBytes (p : Pool) : Nat :=
  match p.statistics with
  | .error _ => 0
  | .ok s => s.usedBytes

def demands (p : Pool) : List Request → List Nat
  | [] => []
  | request :: rest =>
      (demand p.usedBytes (request, (p.perform request).1)).toList ++
        (p.perform request).2.demands rest

theorem kinds_error (request : Request) (error : PoolError) :
    places (request, .error error) = false ∧ frees (request, .error error) = false ∧
      moves (request, .error error) = false := by
  cases request <;> exact ⟨rfl, rfl, rfl⟩

theorem kinds_query {request : Request} (query : request.isQuery = true) (reply : Reply) :
    places (request, .ok reply) = false ∧ frees (request, .ok reply) = false ∧
      moves (request, .ok reply) = false := by
  cases request with
  | allocate size => cases query
  | deallocate handle => cases query
  | resize handle size => cases query
  | write handle offset data => cases query
  | close => cases query
  | _ => exact ⟨rfl, rfl, rfl⟩

theorem lacksRoom_of_rejection (request : Request) {error : PoolError}
    (rejection : error.IsRejection) : lacksRoom (request, .error error) = false := by
  cases error with
  | allocationFailed size largest => exact absurd rfl (rejection size largest)
  | _ => rfl

end Pool

/-! ## Counters over a history -/

namespace Counters

variable {c c' c'' : Counters} {xs ys : List Pool.Entry} {ms ns : List Nat}

def reach (c : Counters) (used : Nat) : Counters :=
  { c with peakUsed := max c.peakUsed used }

structure Grows (c c' : Counters) (history : List Pool.Entry) (demands : List Nat) :
    Prop where
  allocations : c'.allocations = c.allocations + history.countP Pool.places
  deallocations : c'.deallocations = c.deallocations + history.countP Pool.frees
  resizes : c'.resizes = c.resizes + history.countP Pool.moves
  failures : c'.failures = c.failures + history.countP Pool.lacksRoom
  peakUsed : c'.peakUsed = demands.foldl max c.peakUsed

theorem Grows.refl (c : Counters) : c.Grows c [] [] :=
  ⟨rfl, rfl, rfl, rfl, rfl⟩

theorem Grows.trans (h : c.Grows c' xs ms) (h' : c'.Grows c'' ys ns) :
    c.Grows c'' (xs ++ ys) (ms ++ ns) where
  allocations := by rw [h'.allocations, h.allocations, List.countP_append, Nat.add_assoc]
  deallocations := by
    rw [h'.deallocations, h.deallocations, List.countP_append, Nat.add_assoc]
  resizes := by rw [h'.resizes, h.resizes, List.countP_append, Nat.add_assoc]
  failures := by rw [h'.failures, h.failures, List.countP_append, Nat.add_assoc]
  peakUsed := by rw [h'.peakUsed, h.peakUsed, List.foldl_append]

end Counters

namespace Heap

open Layout

variable {heap heap' : Heap} {cells : List Cell} {entry : Pool.Entry} {i size : Nat}
  {b : Block} {out : List Handle}

/-! ## Counters and used bytes after each part of an operation -/

theorem counters_count (heap : Heap) (change : Counters → Counters) :
    (heap.count change).counters =
      if heap.config.trackStats then change heap.counters else heap.counters := by
  unfold count
  split <;> rfl

@[simp] theorem counters_paint (heap : Heap) (pattern : Option UInt8)
    (start length : Nat) : (heap.paint pattern start length).counters = heap.counters := by
  cases pattern <;> rfl

@[simp] theorem counters_release (heap : Heap) (i : Nat) :
    (heap.release i).2.counters = heap.counters := by
  cases found : heap.layout.get? i with
  | none => rw [Heap.release, found]
  | some record => rw [release_eq found, counters_paint]

theorem Sound.counters_claimAt (h : heap.Sound cells) (member : (i, b) ∈ cells)
    (size : Nat) :
    (heap.claimAt i size).counters =
      if heap.config.trackStats then heap.counters.reach (heap.used + size)
      else heap.counters := by
  obtain ⟨prev, next, found⟩ := h.chains.get?_of_mem member
  rw [claimAt_eq found, counters_paint, counters_count]
  rfl

@[simp] theorem counters_copied (heap : Heap) (source : Block) (target : Cell) (size : Nat) :
    (heap.copied source target size).counters = (heap.claimAt target.1 size).counters := rfl

theorem Sound.used_claimAt (h : heap.Sound cells) (member : (i, b) ∈ cells)
    (size : Nat) : (heap.claimAt i size).used = heap.used + size := by
  obtain ⟨prev, next, found⟩ := h.chains.get?_of_mem member
  rw [claimAt_eq found, used_paint, used_count]

theorem used_release_le (heap : Heap) (i : Nat) : (heap.release i).2.used ≤ heap.used := by
  cases found : heap.layout.get? i with
  | none => simp [Heap.release, found]
  | some record =>
      rw [release_eq found, used_paint]
      exact Nat.sub_le ..

theorem Sound.counters_placed (h : heap.Sound cells) (member : (i, b) ∈ cells)
    (size : Nat) :
    (heap.placed i size).counters =
      if heap.config.trackStats then
        (heap.counters.reach (heap.used + size)).addAllocation
      else heap.counters := by
  rw [placed, counters_count, h.counters_claimAt member, config_claimAt]
  split <;> rfl

theorem counters_freed (heap : Heap) (i : Nat) :
    (heap.freed i).counters =
      if heap.config.trackStats then heap.counters.addDeallocation
      else heap.counters := by
  rw [freed, counters_count, counters_release, config_release]

theorem Sound.counters_moved (h : heap.Sound cells) {target : Cell}
    (member : target ∈ cells) (i : Nat) (source : Block) (size : Nat) :
    (heap.moved i source target size).counters =
      if heap.config.trackStats then
        (heap.counters.reach (heap.used + size)).addResize
      else heap.counters := by
  rw [moved, counters_count, counters_release, config_release, counters_copied, config_copied,
    h.counters_claimAt member]
  split <;> rfl

/-! ## One request -/

theorem Outcome.counters_eq (outcome : heap.Outcome cells entry heap')
    (h : heap.Sound cells) (untracked : heap.config.trackStats = false) :
    heap'.counters = heap.counters := by
  cases outcome with
  | noRoom size => simp [Heap.countFailure, counters_count, untracked]
  | noRoomToMove handle size b _ _ =>
      simp [Heap.countFailure, counters_count, untracked]
  | placed size i b member fit => simp [h.counters_placed member, untracked]
  | freed handle b named => simp [counters_freed, untracked]
  | moved handle size b target c named member fit =>
      simp [h.counters_moved member, untracked]
  | _ => rfl

theorem grows_quiet {used : Nat} {c : Counters} (placed : Pool.places entry = false)
    (freed : Pool.frees entry = false) (moved : Pool.moves entry = false)
    (room : Pool.lacksRoom entry = false) :
    c.Grows c [entry] (Pool.demand used entry).toList := by
  constructor <;> simp [Pool.demand, placed, freed, moved, room]

theorem counters_countFailure (tracked : heap.config.trackStats = true) :
    heap.countFailure.counters =
      { heap.counters with failures := heap.counters.failures + 1 } := by
  rw [Heap.countFailure, counters_count, if_pos tracked]

theorem Sound.ne_of_moved {handle : Handle} {target : Nat} {c : Block}
    (h : heap.Sound cells) (slots : heap.layout.slotCount < UInt32.size)
    (named : heap.range? handle = some b) (member : (target, c) ∈ cells)
    (fit : fits size c = true) : heap.layout.handleOf target ≠ handle := by
  have small : target < UInt32.size := Nat.lt_trans (h.chains.lt_slotCount member) slots
  intro same
  exact (h.exists_copied named member fit).1 ((eq_handleOf_iff small handle).mp same.symm).1

theorem Outcome.grows (outcome : heap.Outcome cells entry heap') (h : heap.Sound cells)
    (tracked : heap.config.trackStats = true)
    (slots : heap.layout.slotCount < UInt32.size) :
    heap.counters.Grows heap'.counters [entry]
      (Pool.demand heap.used entry).toList := by
  cases outcome with
  | rejected request error rejection =>
      obtain ⟨placed, freed, moved⟩ := Pool.kinds_error request error
      exact grows_quiet placed freed moved
        (Pool.lacksRoom_of_rejection request rejection)
  | noRoom size =>
      rw [counters_countFailure tracked]
      exact ⟨rfl, rfl, rfl, rfl, rfl⟩
  | noRoomToMove handle size b _ _ =>
      rw [counters_countFailure tracked]
      exact ⟨rfl, rfl, rfl, rfl, rfl⟩
  | answered request query reply =>
      obtain ⟨placed, freed, moved⟩ := Pool.kinds_query query reply
      exact grows_quiet placed freed moved rfl
  | written handle offset data start => exact grows_quiet rfl rfl rfl rfl
  | placed size i b member fit =>
      rw [h.counters_placed member, if_pos tracked]
      exact ⟨rfl, rfl, rfl, rfl, rfl⟩
  | freed handle b named =>
      rw [counters_freed, if_pos tracked]
      exact ⟨rfl, rfl, rfl, rfl, rfl⟩
  | kept handle size b named =>
      have same : Pool.moves (.resize handle size, .ok (.handle handle)) = false := by
        simp [Pool.moves]
      exact grows_quiet rfl rfl same rfl
  | moved handle size b target c named member fit =>
      have other := h.ne_of_moved slots named member fit
      have moves : Pool.moves
          (.resize handle size, .ok (.handle (heap.layout.handleOf target))) = true := by
        simp [Pool.moves, other]
      rw [h.counters_moved member, if_pos tracked]
      constructor <;> simp [Pool.demand, moves] <;> rfl

/-! ## Runs -/

theorem Lends.counters_run (lends : heap.Lends out)
    (untracked : heap.config.trackStats = false) (config : Config)
    {requests : List Pool.Request} (isOpen : .close ∉ requests) :
    (requests.foldl Heap.serve heap).counters = heap.counters := by
  refine (lends.induct (P := fun now _ => now.counters = heap.counters) rfl ?_ config
    isOpen).2
  intro now cells held entry next same sound perm outcome before
  exact (outcome.counters_eq sound (same ▸ untracked)).trans before

theorem Sound.grows_run (h : heap.Sound cells) (tracked : heap.config.trackStats = true)
    (config : Config) {requests : List Pool.Request} (isOpen : .close ∉ requests)
    (slots : (requests.foldl Heap.serve heap).layout.slotCount < UInt32.size) :
    heap.counters.Grows (requests.foldl Heap.serve heap).counters
      ((⟨config, .ready heap⟩ : Pool).history requests)
      ((⟨config, .ready heap⟩ : Pool).demands requests) := by
  induction requests generalizing heap cells with
  | nil => exact .refl _
  | cons request rest ih =>
      rw [List.mem_cons, not_or] at isOpen
      have going : request ≠ .close := Ne.symm isOpen.1
      obtain ⟨cells', next⟩ := h.serve request
      have same := (h.change request).config_eq
      have few : heap.layout.slotCount < UInt32.size := by
        obtain ⟨_, _, _, _, grown⟩ := h.foldl_serve (request :: rest)
        exact Nat.lt_of_le_of_lt grown slots
      have step := (h.outcome config going).grows h tracked few
      have later := ih next (same ▸ tracked) isOpen.2 slots
      rw [Pool.history_cons, Pool.demands, Pool.perform_ready going]
      exact step.trans later

/-! ## Books that balance -/

structure Balanced (heap : Heap) (out : List Handle) : Prop where
  used_le : heap.used ≤ heap.counters.peakUsed
  live : heap.counters.allocations = heap.counters.deallocations + out.length

theorem Balanced.countFailure (books : heap.Balanced out)
    (tracked : heap.config.trackStats = true) : heap.countFailure.Balanced out := by
  have used : heap.countFailure.used = heap.used := used_count ..
  constructor
  · rw [used, counters_countFailure tracked]
    exact books.used_le
  · rw [counters_countFailure tracked]
    exact books.live

theorem Balanced.placed (books : heap.Balanced out) (h : heap.Sound cells)
    (tracked : heap.config.trackStats = true) (member : (i, b) ∈ cells) (size : Nat)
    (handle : Handle) : (heap.placed i size).Balanced (handle :: out) := by
  have used : (heap.placed i size).used = heap.used + size :=
    (used_count ..).trans (h.used_claimAt member size)
  have live := books.live
  constructor
  · rw [used, h.counters_placed member, if_pos tracked]
    exact Nat.le_max_right ..
  · rw [h.counters_placed member, if_pos tracked, List.length_cons]
    simp only [Counters.addAllocation, Counters.reach]
    omega

theorem Balanced.freed {handle : Handle} (books : heap.Balanced out)
    (tracked : heap.config.trackStats = true) (i : Nat)
    (perm : (handle :: out.erase handle).Perm out) :
    (heap.freed i).Balanced (out.erase handle) := by
  have used : (heap.freed i).used ≤ heap.used :=
    Nat.le_trans (Nat.le_of_eq (used_count ..)) (used_release_le heap i)
  have live := books.live
  have fewer := perm.length_eq
  rw [List.length_cons] at fewer
  constructor
  · rw [counters_freed, if_pos tracked]
    exact Nat.le_trans used books.used_le
  · rw [counters_freed, if_pos tracked]
    simp only [Counters.addDeallocation]
    omega

theorem Balanced.moved {handle : Handle} {target : Cell} (books : heap.Balanced out)
    (h : heap.Sound cells) (tracked : heap.config.trackStats = true)
    (member : target ∈ cells) (i : Nat) (source : Block) (size : Nat)
    (perm : (handle :: out.erase handle).Perm out) (new : Handle) :
    (heap.moved i source target size).Balanced (new :: out.erase handle) := by
  -- The peak was taken between the claim and the release, with both blocks in use.
  have used : (heap.moved i source target size).used ≤ heap.used + size := by
    rw [Heap.moved, used_count, ← h.used_claimAt member size]
    exact used_release_le ..
  have live := books.live
  have same := perm.length_eq
  rw [List.length_cons] at same
  constructor
  · rw [h.counters_moved member, if_pos tracked]
    exact Nat.le_trans used (Nat.le_max_right ..)
  · rw [h.counters_moved member, if_pos tracked, List.length_cons]
    simp only [Counters.addResize, Counters.reach]
    omega

theorem Outcome.balanced (outcome : heap.Outcome cells entry heap')
    (h : heap.Sound cells) (perm : out.Perm (heap.layout.usedHandles cells))
    (tracked : heap.config.trackStats = true) (books : heap.Balanced out) :
    heap'.Balanced (Pool.settle out entry) := by
  cases outcome with
  | rejected request error _ =>
      rw [settle_error]
      exact books
  | noRoom size => exact books.countFailure tracked
  | noRoomToMove handle size b _ _ => exact books.countFailure tracked
  | answered _ query reply =>
      rw [settle_query out query]
      exact books
  | written handle offset data start => exact ⟨books.used_le, books.live⟩
  | placed size i b member fit => exact books.placed h tracked member size _
  | freed handle b named => exact books.freed tracked _ (h.perm_erase perm named)
  | kept handle size b named =>
      have same := (h.perm_erase perm named).length_eq
      exact ⟨books.used_le, books.live.trans (congrArg _ same.symm)⟩
  | moved handle size b target c named member fit =>
      exact books.moved h tracked member _ b size (h.perm_erase perm named) _

theorem Lends.balanced_run (lends : heap.Lends out)
    (tracked : heap.config.trackStats = true) (books : heap.Balanced out)
    (config : Config) {requests : List Pool.Request} (isOpen : .close ∉ requests) :
    (requests.foldl Heap.serve heap).Balanced
      (((⟨config, .ready heap⟩ : Pool).history requests).foldl Pool.settle out) := by
  refine (lends.induct books ?_ config isOpen).2
  intro now cells held entry next same sound perm outcome books
  exact outcome.balanced sound perm (same ▸ tracked) books

end Heap

end BlockPool
