import BlockPool.Proofs.Layout.Grid
import BlockPool.Proofs.LinkedList.Client
import BlockPool.Proofs.Pool.Crowding

/-!
# Lists that have a pool to themselves

Where only a list uses a pool, the blocks in use are those of its nodes, all of
one size and on a grid of that size.  So a new node finds room as long as the
pool has as many unused bytes, in whatever order nodes came and went.
-/

namespace BlockPool

def Pool.Request.OfUnit (unit : Nat) : Pool.Request → Prop
  | .allocate size => size = unit
  | .resize _ _ => False
  | _ => True

namespace Heap

open Layout

variable {heap : Heap} {cells cells' : List Cell} {request : Pool.Request} {unit : Nat}

theorem Recut.gridded (recut : heap.Recut cells request cells') (units : request.OfUnit unit)
    (grid : Gridded unit (cells.map Prod.snd)) : Gridded unit (cells'.map Prod.snd) := by
  cases recut with
  | same => exact grid
  | claimed size before i b after split _ _ =>
      subst split
      obtain rfl : size = unit := units
      exact gridded_claimed grid
  | released handle before i b after split _ =>
      subst split
      exact gridded_released _ grid
  | moved => exact units.elim

theorem Sound.gridded_run (h : heap.Sound cells) {requests : List Pool.Request}
    (units : ∀ request ∈ requests, request.OfUnit unit)
    (grid : Gridded unit heap.layout.blocks) :
    Gridded unit (requests.foldl Heap.serve heap).layout.blocks := by
  induction requests generalizing heap cells with
  | nil => exact grid
  | cons request rest ih =>
      obtain ⟨cells', recut, next⟩ := h.recut request
      refine ih next (fun later member => units later (List.mem_cons_of_mem _ member)) ?_
      rw [h.chains.blocks_eq] at grid
      rw [next.chains.blocks_eq]
      exact recut.gridded (units request List.mem_cons_self) grid

theorem Sound.exists_allocate_iff (h : heap.Sound cells)
    (grid : Gridded unit heap.layout.blocks) (positive : 0 < unit) :
    (∃ handle, (heap.allocate unit).1 = .ok handle) ↔ heap.used + unit ≤ heap.size := by
  have used : heap.used = usedTotal heap.layout.blocks := by
    rw [h.used_eq, h.chains.blocks_eq]
  rw [used, ← grid.exists_room_iff h.covers_blocks positive, h.allocates_iff]

theorem slotCount_allocate_bounds (heap : Heap) (size : Nat) :
    heap.layout.slotCount ≤ (heap.allocate size).2.layout.slotCount ∧
      (heap.allocate size).2.layout.slotCount ≤ heap.layout.slotCount + 1 := by
  cases found : heap.layout.firstFit? size with
  | none =>
      rw [allocate_of_none found, countFailure, layout_count]
      omega
  | some i =>
      simp only [Heap.allocate, found, layout_count]
      exact slotCount_claimAt_bounds ..

theorem Lends.perm {out out' : List Handle} (h : heap.Lends out) (perm : out.Perm out') :
    heap.Lends out' := by
  obtain ⟨cells, sound, same⟩ := h
  exact ⟨cells, sound, perm.symm.trans same⟩

end Heap

namespace Sequence

variable {s front back : Sequence} {p : Pool} {r : NodeRef} {v value : UInt16}

def handles (s : Sequence) : List Handle := s.nodes.map NodeRef.handle

theorem handles_append (front back : Sequence) :
    handles (front ++ back) = front.handles ++ back.handles := by
  simp [handles, nodes]

theorem ofUnit_of_mem_demand {request : LinkedList.Request} (own : request.isOwn = true) :
    ∀ asked ∈ s.demand request, asked.OfUnit Node.byteSize := by
  rcases s.demand_cases own with none | one | ⟨handle, one⟩ <;>
    simp [*, Pool.Request.OfUnit]

theorem close_not_mem_demand {request : LinkedList.Request} (own : request.isOwn = true) :
    .close ∉ s.demand request := by
  rcases s.demand_cases own with none | one | ⟨handle, one⟩ <;> simp [*]

theorem settles_grown (p : Pool) (front : Sequence) (value : UInt16) (back : Sequence) :
    ((p.history [.allocate Node.byteSize]).foldl Pool.settle (handles (front ++ back))).Perm
      (handles (grown p front value back)) := by
  have given : (p.perform (.allocate Node.byteSize)).1 =
      (p.allocate Node.byteSize).1.map .handle := rfl
  change (Pool.settle _ (_, (p.perform (.allocate Node.byteSize)).1)).Perm _
  rw [given, grown]
  cases (p.allocate Node.byteSize).1 with
  | error error => exact .refl _
  | ok handle =>
      rw [handles_append, handles_append]
      exact List.perm_middle.symm

end Sequence

namespace LinkedList

variable {l : LinkedList} {config : Config} {heap : Heap} {s : Sequence} {request : Request}
  {size : Nat}

theorem slotCount_perform (l : LinkedList) (own : request.isOwn = true) :
    (l.perform request).2.pool.slotCount = l.pool.slotCount ∨
      (l.perform request).2.pool.slotCount =
        (l.pool.allocate Node.byteSize).2.slotCount := by
  cases request with
  | insert value =>
      change (l.insert value).2.pool.slotCount = _ ∨ (l.insert value).2.pool.slotCount = _
      unfold insert
      split
      · exact .inl rfl
      · split
        · exact .inl rfl
        · exact .inr (slotCount_place ..)
  | insertAfter node value =>
      change (l.insertAfter node value).2.pool.slotCount = _ ∨
        (l.insertAfter node value).2.pool.slotCount = _
      unfold insertAfter
      split
      · exact .inl rfl
      · split
        · exact .inl rfl
        · exact .inr (slotCount_place ..)
  | insertBefore node value =>
      change (l.insertBefore node value).2.pool.slotCount = _ ∨
        (l.insertBefore node value).2.pool.slotCount = _
      unfold insertBefore
      split
      · exact .inl rfl
      · split
        · exact .inl rfl
        · exact .inr (slotCount_place ..)
  | delete value => exact .inl (slotCount_delete ..)
  | cleanup => cases own
  | onPool request => cases own
  | _ => exact .inl rfl

theorem slotCount_perform_bounds (l : LinkedList) (own : request.isOwn = true) :
    l.pool.slotCount ≤ (l.perform request).2.pool.slotCount ∧
      (l.perform request).2.pool.slotCount ≤ l.pool.slotCount + 1 := by
  have allocated : l.pool.slotCount ≤ (l.pool.allocate Node.byteSize).2.slotCount ∧
      (l.pool.allocate Node.byteSize).2.slotCount ≤ l.pool.slotCount + 1 := by
    obtain ⟨⟨config, phase⟩, head, closed⟩ := l
    cases phase with
    | ready heap => exact Heap.slotCount_allocate_bounds heap _
    | _ => exact ⟨Nat.le_refl _, Nat.le_succ _⟩
  rcases l.slotCount_perform own with same | more <;> omega

theorem Holds.settles_freed {front back : Sequence} {r : NodeRef} {v : UInt16}
    (h : l.Holds config heap (front ++ (r, v) :: back)) :
    ((l.pool.history [.deallocate r.handle]).foldl Pool.settle
      (front.handles ++ r.handle :: back.handles)).Perm (front.handles ++ back.handles) := by
  obtain ⟨b, named⟩ := Heap.exists_range?_of_isSome
    (h.chained.isSome (by simp : r ∈ (front ++ (r, v) :: back).map Prod.fst))
  have freed : (l.pool.perform (.deallocate r.handle)).1 = .ok .done := by
    rw [h.pool, Pool.perform_deallocate named]
  change (Pool.settle _ (_, (l.pool.perform (.deallocate r.handle)).1)).Perm _
  rw [freed]
  have moved : (front.handles ++ r.handle :: back.handles).Perm
      (r.handle :: (front.handles ++ back.handles)) := List.perm_middle
  have rest := moved.erase r.handle
  rwa [List.erase_cons_head] at rest

theorem Holds.settles (h : l.Holds config heap s) (own : request.isOwn = true) :
    ((l.pool.history (s.demand request)).foldl Pool.settle s.handles).Perm
      (s.next l.pool request).handles := by
  cases request with
  | insert value =>
      have grown := Sequence.settles_grown l.pool s value []
      rwa [List.append_nil] at grown
  | insertAfter r value =>
      rw [Sequence.demand, Sequence.next]
      split
      · have grown := Sequence.settles_grown l.pool
          (s.before r ++ (s.onward r).take 1) value ((s.onward r).drop 1)
        rwa [List.append_assoc, List.take_append_drop, s.before_append_onward] at grown
      · exact .refl _
  | insertBefore r value =>
      rw [Sequence.demand, Sequence.next]
      split
      · have grown := Sequence.settles_grown l.pool (s.before r) value (s.onward r)
        rwa [s.before_append_onward] at grown
      · exact .refl _
  | delete v =>
      rcases exists_first_value s v with absent | ⟨before, r, after, rfl, first⟩
      · rw [Sequence.demand, Sequence.next, Sequence.find?_of_missing absent,
          Sequence.eraseP_of_missing absent]
        exact .refl _
      · rw [Sequence.demand, Sequence.next, Sequence.find?_of_first first,
          Sequence.eraseP_of_first first, Sequence.handles_append, Sequence.handles_append]
        exact h.settles_freed
  | cleanup => cases own
  | onPool request => cases own
  | _ => exact .refl _

structure Owns (l : LinkedList) (config : Config) (heap : Heap) (s : Sequence) : Prop where
  holds : l.Holds config heap s
  lends : heap.Lends s.handles
  grid : Gridded Node.byteSize heap.layout.blocks

theorem owns_ofSize (size : Nat) (config : Config) :
    Owns ⟨⟨config, .ready (.ofSize size config)⟩, none, false⟩ config
      (.ofSize size config) [] where
  holds := holds_ofSize config size
  lends := Heap.lends_ofSize size config
  grid := by
    rw [(Heap.sound_ofSize size config).chains.blocks_eq]
    exact Layout.gridded_spanning _ size

theorem Owns.edit (h : l.Owns config heap s) (own : request.isOwn = true)
    (obeys : l.Obeys config heap s request) :
    ∃ heap', (l.perform request).2.Owns config heap' (s.next l.pool request) ∧
      heap'.size = heap.size := by
  obtain ⟨_, heap', holds, agrees⟩ := obeys
  obtain ⟨cells, sound⟩ := h.holds.sound
  have lends := h.lends.run config (Sequence.close_not_mem_demand (s := s) own)
  have grid := sound.gridded_run (Sequence.ofUnit_of_mem_demand (s := s) own) h.grid
  obtain ⟨_, _, size, _⟩ := sound.foldl_serve (s.demand request)
  rw [← h.holds.pool] at lends
  refine ⟨heap', ⟨holds, ?_, agrees.layout ▸ grid⟩, agrees.size.trans size⟩
  exact (lends.perm (h.holds.settles own)).congr agrees.layout agrees.size agrees.used

theorem Owns.perform (h : l.Owns config heap s) (own : request.isOwn = true)
    (slots : (l.perform request).2.pool.slotCount < UInt32.size) :
    ∃ heap' s', (l.perform request).2.Owns config heap' s' ∧ heap'.size = heap.size := by
  have asked (query : request.isQuery = true) : ∃ heap' s',
      (l.perform request).2.Owns config heap' s' ∧ heap'.size = heap.size := by
    obtain ⟨result, performed, _⟩ := h.holds.ask query
    rw [performed]
    exact ⟨heap, s, h, rfl⟩
  have edited (obeys : l.Obeys config heap s request) : ∃ heap' s',
      (l.perform request).2.Owns config heap' s' ∧ heap'.size = heap.size := by
    obtain ⟨heap', after, size⟩ := h.edit own obeys
    exact ⟨heap', _, after, size⟩
  cases request with
  | insert value => exact edited (h.holds.insert_obeys slots)
  | insertAfter node value => exact edited (h.holds.insertAfter_obeys slots)
  | insertBefore node value => exact edited (h.holds.insertBefore_obeys slots)
  | delete value => exact edited h.holds.delete_obeys
  | cleanup => cases own
  | onPool request => cases own
  | _ => exact asked rfl

theorem slotCount_le_run (l : LinkedList) {requests : List Request}
    (own : ∀ request ∈ requests, request.isOwn = true) :
    l.pool.slotCount ≤ (l.run requests).2.pool.slotCount := by
  induction requests generalizing l with
  | nil => exact Nat.le_refl _
  | cons request rest ih =>
      have first := (l.slotCount_perform_bounds (own request List.mem_cons_self)).1
      have later := ih (l.perform request).2
        fun other member => own other (List.mem_cons_of_mem _ member)
      rw [run_cons]
      exact Nat.le_trans first later

theorem Owns.run (h : l.Owns config heap s) {requests : List Request}
    (own : ∀ request ∈ requests, request.isOwn = true)
    (slots : (l.run requests).2.pool.slotCount < UInt32.size) :
    ∃ heap' s', (l.run requests).2.Owns config heap' s' ∧ heap'.size = heap.size := by
  induction requests generalizing l heap s with
  | nil => exact ⟨heap, s, h, rfl⟩
  | cons request rest ih =>
      have others : ∀ other ∈ rest, other.isOwn = true :=
        fun other member => own other (List.mem_cons_of_mem _ member)
      rw [run_cons] at slots ⊢
      have grown := slotCount_le_run (l.perform request).2 others
      obtain ⟨heap₁, s₁, next, size⟩ :=
        h.perform (own request List.mem_cons_self) (Nat.lt_of_le_of_lt grown slots)
      obtain ⟨heap', s', after, same⟩ := ih next others slots
      exact ⟨heap', s', after, same.trans size⟩

/-! ## What the pool of such a list shows -/

def Accepts (l : LinkedList) (request : Request) : Prop :=
  ∃ node, (l.perform request).1 = .ofList (.ok (.node node))

/-- The entries fill a pool of some size without losing any of it. -/
structure Packs (l : LinkedList) (size : Nat) (s : Sequence) : Prop where
  entries : l.entries = .ok s
  length : l.length = .ok s.length
  used : ∃ statistics, l.pool.statistics = .ok statistics ∧
    statistics.usedBytes = Node.byteSize * s.length
  block : ∀ node ∈ s.nodes, ∃ b, l.pool.block node.handle = .ok b ∧
    b.size = Node.byteSize ∧ Node.byteSize ∣ b.offset
  insert : ∀ value,
    l.Accepts (.insert value) ↔ Node.byteSize * (s.length + 1) ≤ size
  insertAfter : ∀ node ∈ s.nodes, ∀ value,
    l.Accepts (.insertAfter node value) ↔ Node.byteSize * (s.length + 1) ≤ size
  insertBefore : ∀ node ∈ s.nodes, ∀ value,
    l.Accepts (.insertBefore node value) ↔ Node.byteSize * (s.length + 1) ≤ size

theorem Owns.used_eq (h : l.Owns config heap s) :
    heap.used = Node.byteSize * s.length := by
  obtain ⟨cells, sound⟩ := h.holds.sound
  have count : usedCount heap.layout.blocks = s.length := by
    rw [h.lends.usedCount_eq, Sequence.handles, Sequence.nodes, List.length_map,
      List.length_map]
  rw [sound.used_eq, ← sound.chains.blocks_eq, h.grid.usedTotal_eq, count]

theorem Owns.block (h : l.Owns config heap s) {node : NodeRef} (member : node ∈ s.nodes) :
    ∃ b, l.pool.block node.handle = .ok b ∧ b.size = Node.byteSize ∧
      Node.byteSize ∣ b.offset := by
  obtain ⟨cells, sound⟩ := h.holds.sound
  obtain ⟨b, named⟩ := Heap.exists_range?_of_isSome (h.holds.chained.isSome member)
  obtain ⟨there, inUse⟩ := mem_usedCells.mp (sound.range?_eq_some_iff.mp named).1
  have among : b ∈ heap.layout.blocks := by
    rw [sound.chains.blocks_eq]
    exact List.mem_map_of_mem there
  refine ⟨b, ?_, h.grid.whole b among inUse, h.grid.aligned b among⟩
  rw [h.holds.pool, Pool.block_ready, named]

theorem Owns.accepts_iff (h : l.Owns config heap s) {request : Request}
    (answered : (l.perform request).1 = .ofList (Sequence.created l.pool)) :
    l.Accepts request ↔ Node.byteSize * (s.length + 1) ≤ heap.size := by
  obtain ⟨cells, sound⟩ := h.holds.sound
  have room := sound.exists_allocate_iff h.grid (by decide)
  have given : (l.pool.allocate Node.byteSize).1 = (heap.allocate Node.byteSize).1 := by
    rw [h.holds.pool]
    rfl
  rw [Nat.mul_succ, ← h.used_eq, ← room, Accepts, answered, Sequence.created, given]
  cases (heap.allocate Node.byteSize).1 with
  | error error =>
      constructor
      · rintro ⟨_, accepted⟩
        cases accepted
      · rintro ⟨_, found⟩
        cases found
  | ok handle => exact ⟨fun _ => ⟨handle, rfl⟩, fun _ => ⟨⟨handle⟩, rfl⟩⟩

theorem Owns.packs (h : l.Owns config heap s)
    (slots : l.pool.slotCount + 1 < UInt32.size) : l.Packs heap.size s := by
  have later (request : Request) (own : request.isOwn = true) :
      (l.perform request).2.pool.slotCount < UInt32.size :=
    Nat.lt_of_le_of_lt (l.slotCount_perform_bounds own).2 slots
  constructor
  · exact h.holds.entries_eq
  · exact h.holds.carries.length_eq
  · refine ⟨heap.statistics, ?_, h.used_eq⟩
    rw [h.holds.pool]
    rfl
  · exact fun node member => h.block member
  · intro value
    exact h.accepts_iff (h.holds.insert_obeys (later _ rfl)).1
  · intro node member value
    refine h.accepts_iff ((h.holds.insertAfter_obeys (later _ rfl)).1.trans ?_)
    rw [Sequence.answer, if_pos member]
  · intro node member value
    refine h.accepts_iff ((h.holds.insertBefore_obeys (later _ rfl)).1.trans ?_)
    rw [Sequence.answer, if_pos member]

/-- A list that has its pool to itself finds room for one more node as long as so many
bytes of the pool are unused. -/
theorem run_packs {pool : Pool} {requests : List Request}
    (opened : ofPool pool size = .ok l) (own : ∀ request ∈ requests, request.isOwn = true)
    (slots : (l.run requests).2.pool.slotCount + 1 < UInt32.size) :
    ∃ s, (l.run requests).2.Packs size s := by
  obtain ⟨config, rfl⟩ := eq_of_ofPool opened
  obtain ⟨heap, s, owns, same⟩ :=
    (owns_ofSize size config).run own (Nat.lt_of_succ_lt slots)
  rw [Heap.size_ofSize] at same
  exact ⟨s, same ▸ owns.packs slots⟩

theorem run_packs_refilled :
    ∃ l, ofPool ⟨.reference, .uninitialized⟩ 40 = .ok l ∧
      ∃ s, (l.run [.insert 5, .insert 6, .insert 7, .delete 5,
        .insertAfter ⟨⟨1, 0⟩⟩ 8]).2.Packs 40 s := by
  have opened : ofPool ⟨.reference, .uninitialized⟩ 40 =
      .ok ⟨⟨.reference, .ready (.ofSize 40 .reference)⟩, none, false⟩ := rfl
  exact ⟨_, opened, run_packs opened (by decide) (by decide +kernel)⟩

end LinkedList

end BlockPool
