import BlockPool.Proofs.Layout.Audit
import BlockPool.Proofs.Pool.Coalescence
import BlockPool.Proofs.Pool.Failure

/-!
# The neighbour behind a released block

A release takes in one free record behind the released one, and no second.
The record that holds the addresses afterwards is followed by a free one just
where two free records stood behind it before.  Under the bidirectional policy
this does not come about; under the forward policy it does once two neighbours
have been given back from low to high addresses.
-/

namespace BlockPool

namespace Layout

variable {l : Layout} {cells before after : List Cell} {i : Nat} {b : Block}
  {policy : Coalescing}

def nextOf (l : Layout) (i : Nat) : Option Nat := (l.get? i).bind Record.next

def freePair (l : Layout) (i : Nat) : Bool := l.isFree i && (l.nextOf i).any l.isFree

def behind : List Cell → List Cell
  | [] => []
  | next :: rest => if next.2.free then rest else next :: rest

def headFree (cells : List Cell) : Bool := cells.head?.any fun cell => cell.2.free

theorem Chains.nextOf_eq (h : l.Chains (before ++ (i, b) :: after)) :
    l.nextOf i = headLink after none := by
  rw [nextOf, h.get?_of_split]
  rfl

theorem Chains.freePair_eq (h : l.Chains (before ++ (i, b) :: after)) :
    l.freePair i = (b.free && headFree after) := by
  rw [freePair, h.isFree_eq, h.nextOf_eq]
  cases after with
  | nil => rfl
  | cons next rest =>
      rw [List.append_cons] at h
      rw [headLink_cons, Option.any_some, h.isFree_eq]
      rfl

theorem Chains.freePair_next (h : l.Chains (before ++ (i, b) :: after)) :
    (l.nextOf i).any l.freePair = headFree (behind after) := by
  rw [h.nextOf_eq]
  cases after with
  | nil => rfl
  | cons next rest =>
      rw [List.append_cons] at h
      rw [headLink_cons, Option.any_some, h.freePair_eq, behind]
      cases free : next.2.free <;> simp [headFree, free]

theorem headFree_of_coalesced (coalesced : Coalesced ((before ++ (i, b) :: after).map Prod.snd))
    (free : b.free = true) : headFree after = false := by
  rw [List.map_append, List.map_cons, Coalesced.split_iff] at coalesced
  cases after with
  | nil => rfl
  | cons next rest =>
      have apart := (List.isChain_cons_cons.mp coalesced.2).1
      simpa [headFree] using apart free

theorem Chains.freePair_of_coalesced (h : l.Chains cells)
    (coalesced : Coalesced (cells.map Prod.snd)) (i : Nat) : l.freePair i = false := by
  cases found : l.get? i with
  | none => simp [freePair, isFree, found]
  | some record =>
      obtain ⟨before, after, rfl, _, _⟩ := h.exists_split found
      rw [h.freePair_eq]
      cases free : record.block.free with
      | false => rfl
      | true => exact headFree_of_coalesced coalesced free

/-! ## The record that holds the addresses -/

theorem exists_mergeNext_eq_behind (i : Nat) (b : Block) (after : List Cell) :
    ∃ c, mergeNext (i, b) after = (i, c) :: behind after ∧ c.free = b.free := by
  cases after with
  | nil => exact ⟨b, rfl, rfl⟩
  | cons next rest =>
      rw [mergeNext, behind]
      split
      · exact ⟨_, rfl, rfl⟩
      · exact ⟨b, rfl, rfl⟩

theorem Chains.exists_survivor (h : l.Chains (before ++ (i, b) :: after))
    (policy : Coalescing) :
    ∃ front c,
      (l.release policy i).2.Chains
        (front ++ ((l.release policy i).1, c) :: behind after) ∧ c.free = true ∧
      ((l.release policy i).1 = i ∨ policy = .bidirectional ∧
        l.isFree (l.release policy i).1 = true ∧
        l.nextOf (l.release policy i).1 = some i) := by
  obtain ⟨c, merged, free⟩ := exists_mergeNext_eq_behind i { b with free := true } after
  have forward := h.freeForward
  have released := h.release policy
  rw [release_eq h.get?_of_split] at released ⊢
  rw [merged] at forward
  cases policy with
  | forward =>
      rw [Layout.released, merged] at released
      exact ⟨before, c, released, free, .inl rfl⟩
  | bidirectional =>
      rcases List.eq_nil_or_concat before with rfl | ⟨front, prev, rfl⟩
      · rw [Layout.released, merged] at released
        exact ⟨[], c, released, free, .inl rfl⟩
      · rw [List.concat_eq_append] at h forward released ⊢
        rw [List.append_assoc, List.singleton_append] at h forward
        rw [Layout.released, merged, mergePrev_append] at released
        rw [lastLink_append, lastLink_cons, lastLink_nil, Layout.absorbPrev] at released ⊢
        rw [forward.isFree_eq] at released ⊢
        by_cases absorbed : prev.2.free = true
        · rw [if_pos absorbed] at released ⊢
          rw [if_pos absorbed] at released
          exact ⟨front, _, released, absorbed,
            .inr ⟨rfl, h.isFree_eq.trans absorbed, h.nextOf_eq⟩⟩
        · rw [if_neg absorbed] at released ⊢
          rw [if_neg absorbed, List.append_cons] at released
          exact ⟨front ++ [prev], c, released, free, .inl rfl⟩

theorem Chains.freePair_release (h : l.Chains (before ++ (i, b) :: after))
    (policy : Coalescing) :
    (l.release policy i).2.freePair (l.release policy i).1 =
      (l.nextOf i).any l.freePair := by
  obtain ⟨front, c, chains, free, _⟩ := h.exists_survivor policy
  rw [chains.freePair_eq, free, h.freePair_next, Bool.true_and]

/-- The record `survivor` holds the addresses of the one at `i` after a release of it. -/
structure Survives (l l' : Layout) (policy : Coalescing) (i survivor : Nat) : Prop where
  free : l'.isFree survivor = true
  place : survivor = i ∨
    policy = .bidirectional ∧ l.isFree survivor = true ∧ l.nextOf survivor = some i
  pair_iff : l'.freePair survivor = true ↔
    policy = .forward ∧ (l.nextOf i).any l.freePair = true

theorem Chains.survives (h : l.Chains (before ++ (i, b) :: after)) (policy : Coalescing)
    (coalesced : policy = .bidirectional →
      Coalesced ((before ++ (i, b) :: after).map Prod.snd)) :
    Survives l (l.release policy i).2 policy i (l.release policy i).1 := by
  obtain ⟨front, c, chains, free, place⟩ := h.exists_survivor policy
  refine ⟨chains.isFree_eq.trans free, place, ?_⟩
  rw [h.freePair_release policy]
  cases policy with
  | forward => simp
  | bidirectional =>
      have apart := h.freePair_of_coalesced (coalesced rfl)
      cases l.nextOf i <;> simp [apart]

end Layout

namespace Pool

open Layout

variable {config : Config}

/-- After a release under the forward policy the record behind is free just where two free
records stood there before; under the bidirectional policy it never is. -/
theorem run_free_pair_iff {p : Pool} {size : Nat} {requests : List Request}
    {handle : Handle} (opened : (⟨config, .uninitialized⟩ : Pool).setUp size = (.ok (), p))
    (isOpen : .close ∉ requests)
    (freed : ((p.run requests).2.perform (.deallocate handle)).1 = .ok .done) :
    ∃ heap next survivor, (p.run requests).2 = ⟨config, .ready heap⟩ ∧
      ((p.run requests).2.perform (.deallocate handle)).2 = ⟨config, .ready next⟩ ∧
      Survives heap.layout next.layout config.coalesce handle.index.toNat survivor := by
  obtain ⟨_, rfl⟩ := ready_of_setUp opened
  have start := Heap.sound_ofSize size config
  have coalesced (merges : config.coalesce = .bidirectional) :=
    start.coalesced_run merges (Heap.coalesced_ofSize size config) requests
  obtain ⟨cells, sound, _, same, _⟩ := start.foldl_serve requests
  rw [run_ready isOpen] at freed ⊢
  have going : Request.deallocate handle ≠ .close := nofun
  rw [perform_ready going]
  generalize requests.foldl Heap.serve (Heap.ofSize size config) = heap at *
  have served : heap.serve (.deallocate handle) = (heap.deallocate handle).2 := rfl
  have answered : (heap.deallocate handle).1.map (fun _ => Reply.done) = .ok .done := freed
  rw [served]
  rw [Heap.deallocate_eq] at answered ⊢
  cases named : heap.range? handle with
  | none =>
      rw [named] at answered
      cases answered
  | some b =>
      have policy : heap.config.coalesce = config.coalesce := congrArg Config.coalesce same
      obtain ⟨member, _⟩ := mem_usedCells.mp (sound.range?_eq_some_iff.mp named).1
      obtain ⟨before, after, rfl⟩ := List.append_of_mem member
      have released : (heap.freed handle.index.toNat).layout =
          (heap.layout.release config.coalesce handle.index.toNat).2 := by
        rw [Heap.freed, Heap.layout_count, Heap.layout_release, policy]
      refine ⟨heap, heap.freed handle.index.toNat, _, rfl, rfl, released ▸
        sound.chains.survives config.coalesce fun merges => ?_⟩
      rw [← sound.chains.blocks_eq]
      exact coalesced merges

theorem run_free_pair_iff_row :
    ∃ heap next survivor,
      (Pool.run ⟨.reference, .ready (.ofSize 40 .reference)⟩
          [.allocate 10, .allocate 10, .allocate 10, .allocate 5, .deallocate ⟨1, 0⟩,
            .deallocate ⟨2, 0⟩]).2 = ⟨.reference, .ready heap⟩ ∧
      ((Pool.run ⟨.reference, .ready (.ofSize 40 .reference)⟩
          [.allocate 10, .allocate 10, .allocate 10, .allocate 5, .deallocate ⟨1, 0⟩,
            .deallocate ⟨2, 0⟩]).2.perform (.deallocate ⟨0, 0⟩)).2 =
        ⟨.reference, .ready next⟩ ∧
      Survives heap.layout next.layout .forward 0 survivor :=
  run_free_pair_iff (setUp_of_pos (by decide)) (by decide) (by decide +kernel)

/-- The second and the third of three blocks in a row are given back before the first one. -/
theorem free_pair_after_row :
    ∃ heap next,
      (Pool.run ⟨.reference, .uninitialized⟩
          [.setUp 40, .allocate 10, .allocate 10, .allocate 10, .allocate 5,
            .deallocate ⟨1, 0⟩, .deallocate ⟨2, 0⟩]).2 = ⟨.reference, .ready heap⟩ ∧
      (⟨.reference, .ready heap⟩ : Pool).perform (.deallocate ⟨0, 0⟩) =
        (.ok .done, ⟨.reference, .ready next⟩) ∧
      next.layout.isFree 0 = true ∧ next.layout.freePair 0 = true ∧
      next.layout.blocks = [⟨0, 20, true⟩, ⟨20, 10, true⟩, ⟨30, 5, false⟩, ⟨35, 5, true⟩] :=
  ⟨_, _, rfl, rfl, rfl, rfl, rfl⟩

end Pool

end BlockPool
