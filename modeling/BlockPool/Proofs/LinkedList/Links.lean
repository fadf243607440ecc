import BlockPool.Proofs.LinkedList.Trail
import BlockPool.Proofs.Pool.Failure

/-!
# Links that may be damaged

The blocks of nodes may have been freed, moved or overwritten behind the back
of a list.  Loading a node still tells what the bytes behind its handle say,
and the nodes that links lead through are still blocks in use.  So there are
no more of them than such blocks, unless the links come back to a node and
then go round for ever.
-/

namespace BlockPool

def Contents.inspect (m : Contents) (node : NodeRef) : Except ListError Node :=
  match m node.handle with
  | none => .error (.nodeNotFound node)
  | some bytes =>
      match Node.decode bytes with
      | none => .error (.pool (.outOfBounds 0 Node.byteSize bytes.length))
      | some contents => .ok contents

namespace LinkedList

variable {l : LinkedList} {config : Config} {heap : Heap} {cells : List Cell}
  {m : Contents} {entries between : List Entry} {next : Option NodeRef} {node : NodeRef}
  {contents : Node} {v : UInt16} {stop : NodeRef → Node → Bool} {steps : Nat}

/-! ## Loading a node -/

theorem load_eq_inspect (shows : m.Shows l.pool) (node : NodeRef) :
    l.load node = m.inspect node := by
  rw [load, Contents.inspect]
  cases live : m node.handle with
  | none =>
      rw [(shows.unknown _ live).2.2]
      rfl
  | some bytes =>
      rw [shows.readAt _ _ 0 Node.byteSize live, Nat.zero_add, List.drop_zero]
      by_cases whole : Node.byteSize ≤ bytes.length
      · simp only [if_pos whole, Node.decode_take]
        cases decoded : Node.decode bytes with
        | none => exact absurd ((Node.decode_eq_none_iff bytes).mp decoded) (Nat.not_lt.mpr whole)
        | some contents => rfl
      · have short := (Node.decode_eq_none_iff bytes).mpr (Nat.not_le.mp whole)
        simp only [if_neg whole, short, ListError.atNode]

theorem load_ready (pool : l.pool = ⟨config, .ready heap⟩) (sound : heap.Sound cells)
    (node : NodeRef) : l.load node = heap.contents.inspect node := by
  refine load_eq_inspect ?_ node
  rw [pool]
  exact sound.shows

theorem load_unready {error : PoolError} (unready : l.pool.heap = .error error)
    (node : NodeRef) : l.load node = .error (.pool error) := by
  obtain ⟨⟨config, phase⟩, head, closed⟩ := l
  cases phase with
  | ready heap => cases unready
  | _ => cases unready; rfl

theorem exists_heap_of_load (loaded : l.load node = .ok contents) :
    ∃ heap, l.pool.heap = .ok heap := by
  cases ready : l.pool.heap with
  | ok heap => exact ⟨heap, rfl⟩
  | error error =>
      rw [load_unready ready] at loaded
      cases loaded

theorem exists_block_of_inspect (loaded : heap.contents.inspect node = .ok contents)
    (sound : heap.Sound cells) :
    ∃ b, heap.range? node.handle = some b ∧ Node.byteSize ≤ b.size := by
  rw [Contents.inspect, Heap.contents] at loaded
  cases named : heap.range? node.handle with
  | none =>
      rw [named] at loaded
      cases loaded
  | some b =>
      refine ⟨b, rfl, Nat.not_lt.mp fun short => ?_⟩
      rw [← sound.length_contents named, ← Node.decode_eq_none_iff] at short
      simp only [named, Option.map_some, short] at loaded
      cases loaded

/-! ## Where links lead -/

theorem Leads.isSome (leads : l.Leads entries next) (pool : l.pool = ⟨config, .ready heap⟩)
    (sound : heap.Sound cells) (member : node ∈ entries.map Prod.fst) :
    (heap.contents node.handle).isSome := by
  obtain ⟨⟨node, value⟩, entry, rfl⟩ := List.mem_map.mp member
  obtain ⟨before, after, rfl⟩ := List.append_of_mem entry
  have loaded := (leads_append.mp leads).2.1
  rw [load_ready pool sound] at loaded
  obtain ⟨b, named, _⟩ := exists_block_of_inspect loaded sound
  simp [Heap.contents, named]

/-- The links lead on for ever: no number of steps brings a walk to an end. -/
def Endless (l : LinkedList) (link : Option NodeRef) : Prop :=
  ∀ steps, l.follow (fun _ _ => false) steps link = .error .endless

theorem Leads.follow_endless (leads : l.Leads entries next)
    (further : ∀ k, k + entries.length ≤ steps →
      l.follow (fun _ _ => false) k next = .error .endless) :
    l.follow (fun _ _ => false) steps (headNode entries next) = .error .endless := by
  induction entries generalizing steps with
  | nil => exact further steps (Nat.le_refl _)
  | cons entry rest ih =>
      cases steps with
      | zero => rfl
      | succ steps =>
          have tail := ih leads.2 fun k enough => further k (Nat.succ_le_succ enough)
          simp [follow, leads.1, tail]

theorem Leads.endless_of_next (leads : l.Leads entries next) (endless : l.Endless next) :
    l.Endless (headNode entries next) :=
  fun _ => leads.follow_endless fun k _ => endless k

/-- Links that come back to a node come back to it again and again. -/
theorem Leads.endless_of_circle (leads : l.Leads ((node, v) :: between) (some node)) :
    l.Endless (some node) := by
  intro steps
  induction steps using Nat.strongRecOn with
  | ind steps ih =>
      refine leads.follow_endless fun k enough => ih k ?_
      rw [List.length_cons] at enough
      omega

theorem Leads.endless (leads : l.Leads entries next)
    (repeats : ¬(entries.map Prod.fst).Nodup) : l.Endless (headNode entries next) := by
  induction entries with
  | nil => exact absurd .nil repeats
  | cons entry rest ih =>
      obtain ⟨node, v⟩ := entry
      by_cases member : node ∈ rest.map Prod.fst
      · obtain ⟨⟨node, w⟩, there, rfl⟩ := List.mem_map.mp member
        obtain ⟨between, after, rfl⟩ := List.append_of_mem there
        have split : l.Leads (((node, v) :: between) ++ (node, w) :: after) next := leads
        exact Leads.endless_of_circle (leads_append.mp split).1
      · have later : ¬(rest.map Prod.fst).Nodup := fun nodup =>
          repeats (List.nodup_cons.mpr ⟨member, nodup⟩)
        have first : l.Leads [(node, v)] (headNode rest next) := ⟨leads.1, trivial⟩
        exact first.endless_of_next (ih leads.2 later)

theorem Leads.nodup (leads : l.Leads entries none) : (entries.map Prod.fst).Nodup := by
  refine Decidable.byContradiction fun repeats => ?_
  have endless := leads.endless repeats entries.length
  rw [leads.follow_eq _ (Nat.le_refl _)] at endless
  cases endless

/-! ## How far links lead -/

theorem length_le_usedCells (sound : heap.Sound cells)
    (nodup : (entries.map Prod.fst).Nodup)
    (live : ∀ node ∈ entries.map Prod.fst, (heap.contents node.handle).isSome) :
    entries.length ≤ (usedCells cells).length := by
  -- Of the handles of one slot only one is in use, so the nodes are in different slots.
  have slots : ((entries.map Prod.fst).map fun node => node.handle.index.toNat).Nodup := by
    refine List.pairwise_map.mpr (nodup.imp_of_mem ?_)
    intro node other here there distinct same
    obtain ⟨b, found⟩ := Heap.exists_range?_of_isSome (live node here)
    obtain ⟨c, also⟩ := Heap.exists_range?_of_isSome (live other there)
    have handles := sound.eq_of_index also found same
    apply distinct
    cases node
    cases other
    exact congrArg NodeRef.mk handles
  have used : ((entries.map Prod.fst).map fun node => node.handle.index.toNat) ⊆
      (usedCells cells).map Prod.fst := by
    intro i member
    obtain ⟨node, here, rfl⟩ := List.mem_map.mp member
    obtain ⟨b, found⟩ := Heap.exists_range?_of_isSome (live node here)
    exact List.mem_map_of_mem (sound.range?_eq_some_iff.mp found).1
  have length := slots.length_le_of_subset used
  simpa using length

theorem length_usedCells_le (sound : heap.Sound cells) :
    (usedCells cells).length ≤ heap.layout.slotCount := by
  have total := sound.chains.sound.live_add_vacant
  have live := sound.chains.length_eq_live
  have part : (usedCells cells).length ≤ cells.length := List.length_filter_le ..
  exact Nat.le_trans part (live ▸ Nat.le_of_add_right_le (Nat.le_of_eq total))

theorem length_le_slotCount (sound : heap.Sound cells)
    (nodup : (entries.map Prod.fst).Nodup)
    (live : ∀ node ∈ entries.map Prod.fst, (heap.contents node.handle).isSome) :
    entries.length ≤ heap.layout.slotCount :=
  Nat.le_trans (length_le_usedCells sound nodup live) (length_usedCells_le sound)

theorem reach_eq (pool : l.pool = ⟨config, .ready heap⟩) :
    l.reach = heap.layout.slotCount + 1 := by
  rw [reach, pool]

theorem reach_unready {error : PoolError} (unready : l.pool.heap = .error error) :
    l.reach = 1 := by
  obtain ⟨⟨config, phase⟩, head, closed⟩ := l
  cases phase with
  | ready heap => cases unready
  | _ => rfl

theorem Leads.eq_nil {error : PoolError} (leads : l.Leads entries next)
    (unready : l.pool.heap = .error error) : entries = [] := by
  cases entries with
  | nil => rfl
  | cons entry rest =>
      obtain ⟨heap, ready⟩ := exists_heap_of_load leads.1
      rw [unready] at ready
      cases ready

theorem Leads.length_lt_reach (leads : l.Leads entries next) (sound : l.pool.Sound)
    (nodup : (entries.map Prod.fst).Nodup) : entries.length < l.reach := by
  cases ready : l.pool.heap with
  | ok heap =>
      obtain ⟨cells, pool, sound⟩ := sound.exists_of_heap ready
      rw [reach_eq pool]
      exact Nat.lt_succ_of_le
        (length_le_slotCount sound nodup fun node => leads.isSome pool sound)
  | error error =>
      rw [leads.eq_nil ready, reach_unready ready]
      exact Nat.one_pos

theorem Followed.exists_leads {start : Option NodeRef} {result : Except ListError Trail}
    (followed : l.Followed stop steps start result) (endless : result = .error .endless) :
    ∃ entries node, entries.length = steps ∧ start = headNode entries (some node) ∧
      l.Leads entries (some node) := by
  induction followed with
  | ended => cases endless
  | exhausted node => exact ⟨[], node, rfl, rfl, trivial⟩
  | lost steps node error failed =>
      cases endless
      exact absurd failed (l.load_ne_endless node)
  | hit => cases endless
  | passed steps first contents loaded _ result _ ih =>
      cases result with
      | ok rest => cases endless
      | error error =>
          obtain ⟨entries, node, length, link, leads⟩ := ih endless
          refine ⟨(first, contents.value) :: entries, node, congrArg _ length, rfl, ?_, leads⟩
          rw [loaded, ← link]

/-- Only a walk along links that have no end is broken off. -/
theorem endless_of_follow {link : Option NodeRef} (sound : l.pool.Sound)
    (endless : l.follow stop l.reach link = .error .endless) : l.Endless link := by
  obtain ⟨entries, node, length, rfl, leads⟩ := (l.followed ..).exists_leads endless
  refine leads.endless fun nodup => ?_
  have short := leads.length_lt_reach sound nodup
  omega

end LinkedList

end BlockPool
