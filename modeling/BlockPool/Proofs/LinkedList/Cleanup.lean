import BlockPool.Proofs.LinkedList.Below
import BlockPool.Proofs.LinkedList.Capacity
import BlockPool.Proofs.Pool.Freeing

/-!
# Cleaning up a list whose links may be damaged

Cleaning up frees the nodes that the links lead through, one after the other.
It comes to an end where the links do, at a node that cannot be loaded, or at
one that it has freed before, and it never frees more blocks than are in use.
-/

namespace BlockPool

/-! ## Several blocks freed -/

def Contents.without (m : Contents) (handles : List Handle) : Contents :=
  fun other => if other ∈ handles then none else m other

theorem Contents.without_nil (m : Contents) : m.without [] = m := by
  funext other
  simp [without]

theorem Contents.without_set (m : Contents) (handle : Handle) (handles : List Handle) :
    (m.set handle none).without handles = m.without (handle :: handles) := by
  funext other
  by_cases same : other = handle <;> simp [without, set, same]

theorem Heap.Sound.exists_freeAll {heap : Heap} {cells : List Cell} {handles : List Handle}
    (h : heap.Sound cells) (live : ∀ handle ∈ handles, (heap.contents handle).isSome)
    (nodup : handles.Nodup) :
    ∃ cells', (heap.freeAll handles).Sound cells' ∧
      (heap.freeAll handles).contents = heap.contents.without handles := by
  induction handles generalizing heap cells with
  | nil => exact ⟨cells, h, by rw [Contents.without_nil]; rfl⟩
  | cons handle rest ih =>
      obtain ⟨other, nodup⟩ := List.nodup_cons.mp nodup
      obtain ⟨b, named⟩ := exists_range?_of_isSome (live handle List.mem_cons_self)
      obtain ⟨cells₁, freed⟩ := h.exists_freed (h.range?_eq_some_iff.mp named).1
      have contents := h.contents_freed named
      obtain ⟨cells', sound, left⟩ := ih freed (fun candidate member => by
        have distinct : candidate ≠ handle := by
          rintro rfl
          exact other member
        rw [contents, Contents.set_of_ne _ _ distinct]
        exact live candidate (List.mem_cons_of_mem _ member)) nodup
      refine ⟨cells', sound, ?_⟩
      rw [← Contents.without_set, ← contents]
      exact left

def Pool.usedBlocks (p : Pool) : Nat :=
  match p.phase with
  | .ready heap => usedCount heap.layout.blocks
  | _ => 0

namespace LinkedList

open Sequence (handles)

variable {l : LinkedList} {config : Config} {heap : Heap} {cells : List Cell}
  {s : Sequence} {left : Option NodeRef} {node : NodeRef} {v : UInt16}

theorem nodup_handles (nodup : s.nodes.Nodup) : s.handles.Nodup := by
  refine List.pairwise_map.mpr (nodup.imp ?_)
  rintro ⟨handle⟩ ⟨other⟩ distinct same
  exact distinct (congrArg NodeRef.mk same)

theorem frees_eq (s : Sequence) : s.frees = s.handles.map .deallocate := by
  rw [Sequence.frees, handles, List.map_map]
  rfl

theorem mem_handles {node : NodeRef} : node.handle ∈ s.handles ↔ node ∈ s.nodes := by
  rw [handles, List.mem_map]
  constructor
  · rintro ⟨⟨handle⟩, member, rfl⟩
    exact member
  · exact fun member => ⟨node, member, rfl⟩

/-! ## How far the links can be followed -/

/-- The links lead from the head through these entries to `left`, and through none of them
twice. -/
structure Walks (l : LinkedList) (s : Sequence) (left : Option NodeRef) : Prop where
  head : l.head = headNode s left
  leads : l.Leads s left
  nodup : s.nodes.Nodup

/-- A walk goes no further: the links end, come back to a node of the walk, or lead to one
that cannot be loaded. -/
def Stops (l : LinkedList) (s : Sequence) (left : Option NodeRef) : Prop :=
  ∀ node, left = some node → node ∈ s.nodes ∨ ∃ error, l.load node = .error error

theorem walks_nil (l : LinkedList) : l.Walks [] l.head := ⟨rfl, trivial, .nil⟩

theorem Walks.step (walks : l.Walks s left) :
    l.Stops s left ∨ ∃ entry next, l.Walks (s ++ [entry]) next := by
  cases left with
  | none => exact .inl nofun
  | some node =>
      by_cases back : node ∈ s.nodes
      · refine .inl ?_
        rintro _ ⟨⟩
        exact .inl back
      · cases loaded : l.load node with
        | error error =>
            refine .inl ?_
            rintro _ ⟨⟩
            exact .inr ⟨error, loaded⟩
        | ok contents =>
            refine .inr ⟨(node, contents.value), contents.next, ?_, ?_, ?_⟩
            · rw [headNode_append]
              exact walks.head
            · exact leads_append.mpr ⟨walks.leads, loaded, trivial⟩
            · rw [Sequence.nodes, Layout.nodup_split_iff, List.append_nil]
              exact ⟨back, walks.nodup⟩

theorem exists_walk (sound : l.pool.Sound) : ∃ s left, l.Walks s left ∧ l.Stops s left := by
  -- As long as it does not stop, a walk has one more node than before.
  have walk (n : Nat) : (∃ s left, l.Walks s left ∧ l.Stops s left) ∨
      ∃ (s : Sequence) (left : Option NodeRef), l.Walks s left ∧ s.length = n := by
    induction n with
    | zero => exact .inr ⟨[], l.head, l.walks_nil, rfl⟩
    | succ n ih =>
        rcases ih with stopped | ⟨s, left, walks, length⟩
        · exact .inl stopped
        · rcases walks.step with stops | ⟨entry, next, further⟩
          · exact .inl ⟨s, left, walks, stops⟩
          · exact .inr ⟨s ++ [entry], next, further, by simp [length]⟩
  rcases walk l.reach with stopped | ⟨s, left, walks, length⟩
  · exact stopped
  · exact absurd (walks.leads.length_lt_reach sound walks.nodup) (by omega)

/-! ## Freeing the nodes of a walk -/

def clear (l : LinkedList) (s : Sequence) (left : Option NodeRef) : LinkedList :=
  ⟨(l.pool.run s.frees).2, left, l.closed⟩

theorem Leads.freed {b : Block} (leads : l.Leads s left)
    (pool : l.pool = ⟨config, .ready heap⟩) (sound : heap.Sound cells)
    (named : heap.range? node.handle = some b) (absent : node ∉ s.nodes)
    (head : Option NodeRef) :
    Leads ⟨⟨config, .ready (heap.freed node.handle.index.toNat)⟩, head, l.closed⟩ s left := by
  obtain ⟨cells', freed⟩ := sound.exists_freed (sound.range?_eq_some_iff.mp named).1
  induction s with
  | nil => trivial
  | cons entry rest ih =>
      rw [Sequence.nodes, List.map_cons, List.mem_cons, not_or] at absent
      refine ⟨?_, ih leads.2 absent.2⟩
      have distinct : entry.1.handle ≠ node.handle := fun same =>
        absent.1 (congrArg NodeRef.mk same.symm)
      rw [← leads.1, load_ready pool sound, load_ready rfl freed, Contents.inspect,
        Contents.inspect, sound.contents_freed named, Contents.set_of_ne _ _ distinct]

theorem Walks.free_first (walks : l.Walks ((node, v) :: s) left) (sound : l.pool.Sound) :
    l.free node = (.ok (), { l with pool := (l.pool.perform (.deallocate node.handle)).2 }) ∧
      Walks ⟨(l.pool.perform (.deallocate node.handle)).2, headNode s left, l.closed⟩
        s left := by
  have loaded := walks.leads.1
  obtain ⟨heap, ready⟩ := exists_heap_of_load loaded
  obtain ⟨cells, pool, sound⟩ := sound.exists_of_heap ready
  rw [load_ready pool sound] at loaded
  obtain ⟨b, named, _⟩ := exists_block_of_inspect loaded sound
  obtain ⟨absent, nodup⟩ := List.nodup_cons.mp walks.nodup
  rw [free_eq pool named, pool, Pool.perform_deallocate named]
  exact ⟨rfl, rfl, walks.leads.2.freed pool sound named absent _, nodup⟩

theorem Walks.drain_eq (walks : l.Walks s left) (sound : l.pool.Sound) (steps : Nat) :
    l.drain (s.length + steps) = drain steps (l.clear s left) := by
  induction s generalizing l with
  | nil =>
      have same : l = l.clear [] left := congrArg (LinkedList.mk l.pool · l.closed) walks.head
      rw [List.length_nil, Nat.zero_add, ← same]
  | cons entry rest ih =>
      obtain ⟨node, v⟩ := entry
      obtain ⟨freed, further⟩ := walks.free_first sound
      rw [List.length_cons, Nat.succ_add, drain]
      simp only [walks.head, headNode_cons, walks.leads.1, freed]
      exact ih further (sound.perform _)

/-! ## What cleaning up leaves -/

/-- Freeing the nodes of a walk, each of them once, leaves the other blocks as they are. -/
structure Sweeps (l : LinkedList) (s : Sequence) (left : Option NodeRef) : Prop
    extends Walks l s left where
  few : s.length ≤ l.pool.usedBlocks
  freed : ∀ answer ∈ (l.pool.run s.frees).1, answer = .ok .done
  gone : ∀ handle ∈ s.handles,
    (l.pool.run s.frees).2.block handle = .error (.notFound handle)
  kept : ∀ handle, handle ∉ s.handles →
    (l.pool.run s.frees).2.read handle = l.pool.read handle

inductive Swept (l : LinkedList) (s : Sequence) :
    Option NodeRef → Except ListError Statistics × LinkedList → Prop where
  | whole (statistics : Statistics)
      (last : (l.pool.run s.frees).2.statistics = .ok statistics) :
      Swept l s none (.ok statistics, ⟨⟨l.pool.config, .closed⟩, none, true⟩)
  | idle (error : PoolError) (empty : s = []) (unready : l.pool.heap = .error error) :
      Swept l s none (.error (.pool error), l)
  | broken (node : NodeRef) (error : ListError) (other : node ∉ s.nodes)
      (lost : l.load node = .error error) :
      Swept l s (some node) (.error error, ⟨(l.pool.run s.frees).2, some node, false⟩)
  | circle (node : NodeRef) (member : node ∈ s.nodes) :
      Swept l s (some node)
        (.error (.nodeNotFound node), ⟨(l.pool.run s.frees).2, some node, false⟩)

theorem drain_none (head : l.head = none) (steps : Nat) : l.drain steps = (.ok (), l) := by
  cases steps <;> simp only [drain, head]

theorem drain_of_load {node : NodeRef} {error : ListError} (head : l.head = some node)
    (lost : l.load node = .error error) (steps : Nat) :
    l.drain (steps + 1) = (.error error, l) := by
  simp only [drain, head, lost]

theorem Walks.live (walks : l.Walks s left) (pool : l.pool = ⟨config, .ready heap⟩)
    (sound : heap.Sound cells) : ∀ handle ∈ s.handles, (heap.contents handle).isSome := by
  intro handle member
  obtain ⟨node, there, rfl⟩ := List.mem_map.mp member
  exact walks.leads.isSome pool sound there

theorem Walks.run_eq (walks : l.Walks s left) (pool : l.pool = ⟨config, .ready heap⟩)
    (sound : heap.Sound cells) :
    l.pool.run s.frees =
      (List.replicate s.length (.ok .done), ⟨config, .ready (heap.freeAll s.handles)⟩) := by
  have length : s.handles.length = s.length := by simp [handles, Sequence.nodes]
  rw [frees_eq, pool, ← length]
  refine Pool.run_deallocate sound (fun handle member => ?_) (nodup_handles walks.nodup)
  exact Heap.exists_range?_of_isSome (walks.live pool sound handle member)

theorem Walks.sweeps (walks : l.Walks s left) (sound : l.pool.Sound) : l.Sweeps s left := by
  cases ready : l.pool.heap with
  | error error =>
      obtain rfl := walks.leads.eq_nil ready
      exact ⟨walks, Nat.zero_le _, nofun, nofun, fun _ _ => rfl⟩
  | ok heap =>
      obtain ⟨cells, pool, sound⟩ := sound.exists_of_heap ready
      obtain ⟨_, _, contents⟩ :=
        sound.exists_freeAll (walks.live pool sound) (nodup_handles walks.nodup)
      have run := walks.run_eq pool sound
      refine ⟨walks, ?_, ?_, ?_, ?_⟩
      · simp only [Pool.usedBlocks, pool]
        rw [sound.chains.blocks_eq, usedCount_map]
        exact length_le_usedCells sound walks.nodup fun node => walks.leads.isSome pool sound
      · rw [run]
        exact fun _ => List.eq_of_mem_replicate
      · intro handle member
        have dead : (heap.freeAll s.handles).contents handle = none := by
          rw [contents]
          exact if_pos member
        rw [run, Pool.block_ready, Heap.contents_eq_none_iff.mp dead]
      · intro handle absent
        have same : (heap.freeAll s.handles).contents handle = heap.contents handle := by
          rw [contents]
          exact if_neg absent
        rw [run, pool]
        simp only [Pool.read, Pool.heap, Except.bind, Heap.read_eq, same]

theorem close_unready {error : PoolError} (unready : l.pool.heap = .error error) :
    l.onPool Pool.close = (.error error, l) := by
  obtain ⟨⟨config, phase⟩, head, closed⟩ := l
  cases phase with
  | ready heap => cases unready
  | _ => cases unready; rfl

theorem Walks.load_clear (walks : l.Walks s left) (sound : l.pool.Sound) (node : NodeRef) :
    (l.clear s left).load node =
      if node ∈ s.nodes then .error (.nodeNotFound node) else l.load node := by
  cases ready : l.pool.heap with
  | error error =>
      obtain rfl := walks.leads.eq_nil ready
      rfl
  | ok heap =>
      obtain ⟨cells, pool, sound⟩ := sound.exists_of_heap ready
      obtain ⟨_, after, contents⟩ :=
        sound.exists_freeAll (walks.live pool sound) (nodup_handles walks.nodup)
      have cleared : (l.clear s left).pool =
          ⟨heap.config, .ready (heap.freeAll s.handles)⟩ := by
        rw [clear, walks.run_eq pool sound]
      rw [load_ready cleared after, load_ready pool sound, Contents.inspect, contents,
        Contents.without]
      by_cases member : node ∈ s.nodes
      · simp only [mem_handles, if_pos member]
      · simp only [mem_handles, if_neg member, Contents.inspect]

theorem Walks.swept (walks : l.Walks s left) (sound : l.pool.Sound)
    (isOpen : l.closed = false) (stops : l.Stops s left) : l.Swept s left l.cleanup := by
  have opened := ensureOpen_of_open isOpen
  -- There is a step left for each node of the walk, and one more.
  have short := walks.leads.length_lt_reach sound walks.nodup
  obtain ⟨steps, reach⟩ : ∃ steps, l.reach = s.length + (steps + 1) :=
    ⟨l.reach - s.length - 1, by omega⟩
  have drained := walks.drain_eq sound (steps + 1)
  rw [← reach] at drained
  rw [cleanup, opened]
  cases left with
  | none =>
      rw [drain_none (l := l.clear s none) rfl] at drained
      simp only [drained]
      cases ready : l.pool.heap with
      | error error =>
          obtain rfl := walks.leads.eq_nil ready
          have same : l.clear [] none = l :=
            congrArg (LinkedList.mk l.pool · l.closed) walks.head.symm
          simp only [same, close_unready ready]
          exact .idle error rfl ready
      | ok heap =>
          obtain ⟨cells, pool, sound⟩ := sound.exists_of_heap ready
          have emptied := walks.run_eq pool sound
          have whole : l.Swept s none
              (.ok (heap.freeAll s.handles).statistics, ⟨⟨l.pool.config, .closed⟩, none, true⟩) :=
            .whole _ (by rw [emptied]; rfl)
          simp only [clear, emptied]
          rwa [pool] at whole
  | some node =>
      have loaded := walks.load_clear sound node
      by_cases member : node ∈ s.nodes
      · rw [if_pos member] at loaded
        rw [drain_of_load rfl loaded] at drained
        simp only [drained, clear, isOpen]
        exact .circle node member
      · obtain ⟨error, lost⟩ := (stops node rfl).resolve_left member
        rw [if_neg member, lost] at loaded
        rw [drain_of_load rfl loaded] at drained
        simp only [drained, clear, isOpen]
        exact .broken node error member lost

theorem Swept.ne_endless {result : Except ListError Statistics × LinkedList}
    (swept : l.Swept s left result) : result.1 ≠ .error .endless := by
  cases swept with
  | broken node error other lost =>
      rintro ⟨⟩
      exact l.load_ne_endless node lost
  | _ => exact nofun

/-! ## Pools that runs reach -/

/-- Whatever has been done to the blocks of its nodes, cleaning up a list ends: it frees
the nodes that the links lead through, no more than there are blocks in use, and either
closes the pool and the list or leaves the list open where it has stopped. -/
theorem cleanup_sweeps (reached : l.pool.Reached) (isOpen : l.closed = false) :
    (∃ s left, l.Sweeps s left ∧ l.Swept s left l.cleanup) ∧
    l.cleanup.1 ≠ .error .endless ∧
    ∀ statistics l', l.cleanup = (.ok statistics, l') →
      ∀ requests request, (∀ below, request ≠ .onPool below) →
        ((l'.run requests).2.perform request).1 = .ofList (.error .closed) := by
  obtain ⟨s, left, walks, stops⟩ := exists_walk reached.sound
  have swept := walks.swept reached.sound isOpen stops
  refine ⟨⟨s, left, walks.sweeps reached.sound, swept⟩, swept.ne_endless, ?_⟩
  intro statistics l' done requests request own
  have closed : l'.closed = true := by
    rw [done] at swept
    cases swept
    rfl
  rw [perform_of_closed (closed_run closed requests) own]

theorem cleanup_sweeps_damaged :
    ∃ l l', ofPool ⟨.debug, .uninitialized⟩ 64 = .ok l ∧
      (l.run [.insert 5, .insert 6, .onPool (.deallocate ⟨1, 0⟩)]).2 = l' ∧
      (∃ s left, l'.Sweeps s left ∧ l'.Swept s left l'.cleanup) ∧
      l'.cleanup.2.head = some ⟨⟨1, 0⟩⟩ := by
  have opened : ofPool ⟨.debug, .uninitialized⟩ 64 =
      .ok ⟨⟨.debug, .ready (.ofSize 64 .debug)⟩, none, false⟩ := rfl
  refine ⟨_, _, opened, rfl, ?_, by decide +kernel⟩
  exact (cleanup_sweeps (reached_run opened _) (by decide +kernel)).1

/-- The link of the only node leads back to it: the node is freed, no block is left in use,
and the head still names it. -/
theorem cleanup_circle_keeps_head :
    ∃ l l', ofPool ⟨.debug, .uninitialized⟩ 64 = .ok l ∧
      (l.run [.insert 1, .onPool (.write ⟨0, 0⟩ 8 (List.replicate 8 0))]).2 = l' ∧
      l'.cleanup.1 = .error (.nodeNotFound ⟨⟨0, 0⟩⟩) ∧
      l'.cleanup.2.pool.usedBlocks = 0 ∧
      l'.cleanup.2.pool.block ⟨0, 0⟩ = .error (.notFound ⟨0, 0⟩) ∧
      l'.cleanup.2.head = some ⟨⟨0, 0⟩⟩ := by
  have opened : ofPool ⟨.debug, .uninitialized⟩ 64 =
      .ok ⟨⟨.debug, .ready (.ofSize 64 .debug)⟩, none, false⟩ := rfl
  exact ⟨_, _, opened, rfl, by decide +kernel⟩

end LinkedList

end BlockPool
