import BlockPool.LinkedList.Script
import BlockPool.Proofs.LinkedList.Edit

/-!
# A list in a pool is a sequence of nodes and values

Each request to a list is a step of a sequence that knows nothing of handles
stored in blocks, and after every step the queries of the list answer what the
sequence holds.  Requests that go to the pool below the list leave the
sequence alone, provided that they do not change a block of one of its nodes.
-/

namespace BlockPool

def LinkedList.Request.beside? : LinkedList.Request → Option NodeRef
  | .insertAfter node _ => some node
  | .insertBefore node _ => some node
  | _ => none

def LinkedList.Request.adds : LinkedList.Request → Bool
  | .insert _ => true
  | .insertAfter _ _ => true
  | .insertBefore _ _ => true
  | _ => false

def LinkedList.Request.isQuery : LinkedList.Request → Bool
  | .search _ => true
  | .displayRange _ _ => true
  | .display => true
  | .length => true
  | .values => true
  | .first => true
  | .value _ => true
  | .next _ => true
  | _ => false

def Pool.largestFree (p : Pool) : Nat :=
  match p.phase with
  | .ready heap => heap.largestFree
  | _ => 0

abbrev Sequence := List Entry

namespace Sequence

open LinkedList (Request Answer)

def nodes (s : Sequence) : List NodeRef := s.map Prod.fst

def values (s : Sequence) : List UInt16 := s.map Prod.snd

structure New (p : Pool) (s : Sequence) (node : NodeRef) : Prop where
  room : Node.byteSize ≤ p.largestFree
  unused : p.block node.handle = .error (.notFound node.handle)
  absent : node ∉ s.nodes

inductive Step (p : Pool) (s : Sequence) : Request → Answer → Sequence → Prop where
  | inserted {node : NodeRef} {value : UInt16} (new : s.New p node) :
      Step p s (.insert value) (.ofList (.ok (.node node))) (s ++ [(node, value)])
  | insertedAfter {before after : Sequence} {r node : NodeRef} {v value : UInt16}
      (split : s = before ++ (r, v) :: after) (new : s.New p node) :
      Step p s (.insertAfter r value) (.ofList (.ok (.node node)))
        (before ++ (r, v) :: (node, value) :: after)
  | insertedBefore {before after : Sequence} {r node : NodeRef} {v value : UInt16}
      (split : s = before ++ (r, v) :: after) (new : s.New p node) :
      Step p s (.insertBefore r value) (.ofList (.ok (.node node)))
        (before ++ (node, value) :: (r, v) :: after)
  | noRoom {request : Request} (adds : request.adds = true)
      (found : ∀ r, request.beside? = some r → r ∈ s.nodes)
      (full : p.largestFree < Node.byteSize) :
      Step p s request
        (.ofList (.error (.pool (.allocationFailed Node.byteSize p.largestFree)))) s
  | notMember {request : Request} {r : NodeRef} (beside : request.beside? = some r)
      (absent : r ∉ s.nodes) :
      Step p s request (.ofList (.error (.nodeNotFound r))) s
  | deleted {before after : Sequence} {r : NodeRef} {v : UInt16}
      (split : s = before ++ (r, v) :: after) (first : v ∉ before.values) :
      Step p s (.delete v) (.ofList (.ok .done)) (before ++ after)
  | missing {v : UInt16} (absent : v ∉ s.values) :
      Step p s (.delete v) (.ofList (.error (.valueNotFound v))) s
  | asked {request : Request} {result : Except ListError LinkedList.Reply}
      (query : request.isQuery = true) (ends : result ≠ .error .endless) :
      Step p s request (.ofList result) s
  | below {request : Pool.Request} :
      Step p s (.onPool request) (.ofPool (p.perform request).1) s

structure Shows (s : Sequence) (l : LinkedList) : Prop where
  values : l.values = .ok s.values
  length : l.length = .ok s.length
  first : l.first = .ok s.nodes.head?
  search : ∀ v, l.search v = .ok ((s.find? fun entry => entry.2 = v).map Prod.fst)
  value : ∀ before r v after, s = before ++ (r, v) :: after → l.value r = .ok v
  next : ∀ before r v after, s = before ++ (r, v) :: after →
    l.next r = .ok (nodes after).head?

/-- A list may be edited and asked at will until it is cleaned up.  The pool below it is
not to be closed, and no block of a node is to be freed, resized or written there. -/
def Allows (s : Sequence) : Request → Prop
  | .cleanup => False
  | .onPool request =>
      request ≠ .close ∧
        ∀ node ∈ s.nodes, request.isQuery = true ∨ request.handle? ≠ some node.handle
  | _ => True

/-- As long as they are allowed and the slots can be numbered, the requests are steps of
the sequence, and the list shows the sequence all along. -/
def Follows (s : Sequence) (l : LinkedList) : List Request → Prop
  | [] => s.nodes.Nodup ∧ s.Shows l
  | request :: rest =>
      s.nodes.Nodup ∧ s.Shows l ∧
        (s.Allows request → (l.perform request).2.pool.slotCount < UInt32.size →
          ∃ s' : Sequence, s.Step l.pool request (l.perform request).1 s' ∧
            s'.Follows (l.perform request).2 rest)

end Sequence

namespace LinkedList

variable {l : LinkedList} {config : Config} {heap : Heap} {cells : List Cell}
  {s front back : Sequence} {r node : NodeRef} {v value : UInt16}

/-! ## Queries -/

theorem Holds.sequence_shows (h : l.Holds config heap s) : s.Shows l := by
  constructor
  · exact h.carries.values_eq
  · exact h.carries.length_eq
  · rw [h.carries.first_eq, Sequence.nodes, List.head?_map]
  · exact h.carries.search_eq
  · rintro before r v after rfl
    exact h.carries.value_eq
  · rintro before r v after rfl
    rw [h.carries.next_eq, Sequence.nodes, List.head?_map]

theorem Holds.displayRange_ne_endless (h : l.Holds config heap s)
    (start stop : Option NodeRef) : l.displayRange start stop ≠ .error .endless := by
  cases start with
  | none =>
      rw [h.carries.displayRange_head]
      exact nofun
  | some r =>
      by_cases member : r ∈ s.nodes
      · obtain ⟨⟨r, v⟩, there, rfl⟩ := List.mem_map.mp member
        obtain ⟨before, after, rfl⟩ := List.append_of_mem there
        rw [h.carries.displayRange_from]
        exact nofun
      · rw [h.carries.displayRange_of_not_mem member]
        exact nofun

theorem Holds.ask (h : l.Holds config heap s) {request : Request}
    (query : request.isQuery = true) :
    ∃ result, l.perform request = (.ofList result, l) ∧ result ≠ .error .endless := by
  cases request with
  | search v => exact ⟨_, rfl, map_ne_error _ (by simp [h.carries.search_eq])⟩
  | displayRange start stop =>
      exact ⟨_, rfl, map_ne_error _ (h.displayRange_ne_endless start stop)⟩
  | display => exact ⟨_, rfl, map_ne_error _ (h.displayRange_ne_endless none none)⟩
  | length => exact ⟨_, rfl, map_ne_error _ (by simp [h.carries.length_eq])⟩
  | values => exact ⟨_, rfl, map_ne_error _ (by simp [h.carries.values_eq])⟩
  | first => exact ⟨_, rfl, map_ne_error _ (by simp [h.carries.first_eq])⟩
  | value node =>
      have loaded : l.value node = (l.load node).map Node.value := by
        rw [LinkedList.value, h.carries.ensureOpen_eq]
        cases l.load node <;> rfl
      refine ⟨_, rfl, map_ne_error _ ?_⟩
      rw [loaded]
      exact map_ne_error _ (load_ne_endless l node)
  | next node =>
      have loaded : l.next node = (l.load node).map Node.next := by
        rw [LinkedList.next, h.carries.ensureOpen_eq]
        cases l.load node <;> rfl
      refine ⟨_, rfl, map_ne_error _ ?_⟩
      rw [loaded]
      exact map_ne_error _ (load_ne_endless l node)
  | _ => cases query

/-! ## Where requests lead -/

theorem Holds.insert_eq (h : l.Holds config heap s) (value : UInt16) :
    l.insert value = l.place (lastNode s) value (headNode [] none) := by
  obtain ⟨trail, last, hit⟩ := h.carries.trail_last
  rw [insert, h.carries.ensureOpen_eq]
  simp only [last, hit, headNode_nil]

theorem Holds.perform_insert (h : l.Holds config heap s) (value : UInt16) :
    l.perform (.insert value) =
      answer .node (l.place (lastNode s) value (headNode [] none)) := by
  rw [perform, h.insert_eq]

theorem Holds.perform_insertAfter (h : l.Holds config heap (front ++ (r, v) :: back))
    (value : UInt16) :
    l.perform (.insertAfter r value) =
      answer .node (l.place (lastNode (front ++ [(r, v)])) value (headNode back none)) := by
  rw [perform, insertAfter, h.carries.ensureOpen_eq, lastNode_concat]
  simp only [h.carries.member_eq]

theorem Holds.perform_insertBefore (h : l.Holds config heap (front ++ (r, v) :: back))
    (value : UInt16) :
    l.perform (.insertBefore r value) =
      answer .node (l.place (lastNode front) value (headNode ((r, v) :: back) none)) := by
  rw [perform, insertBefore, h.carries.ensureOpen_eq, headNode_cons]
  simp only [h.carries.predecessor_eq]

theorem Holds.perform_beside_of_not_mem (h : l.Holds config heap s) {request : Request}
    (beside : request.beside? = some r) (absent : r ∉ s.nodes) :
    l.perform request = (.ofList (.error (.nodeNotFound r)), l) := by
  cases request with
  | insertAfter node value =>
      cases beside
      rw [perform, insertAfter, h.carries.ensureOpen_eq]
      simp only [h.carries.member_of_not_mem absent]
      rfl
  | insertBefore node value =>
      cases beside
      rw [perform, insertBefore, h.carries.ensureOpen_eq]
      simp only [h.carries.predecessor_of_not_mem absent]
      rfl
  | _ => cases beside

theorem Holds.delete_of_not_mem (h : l.Holds config heap s) (absent : v ∉ s.values) :
    l.delete v = (.error (.valueNotFound v), l) := by
  rw [delete, h.carries.ensureOpen_eq]
  simp only [h.carries.trail_value_of_not_mem absent]

theorem Holds.perform_delete_of_not_mem (h : l.Holds config heap s)
    (absent : v ∉ s.values) :
    l.perform (.delete v) = (.ofList (.error (.valueNotFound v)), l) := by
  rw [perform, h.delete_of_not_mem absent]
  rfl

/-! ## Insertions -/

def Simulates (l : LinkedList) (config : Config) (s : Sequence) (request : Request) : Prop :=
  ∃ s' heap', s.Step l.pool request (l.perform request).1 s' ∧
    (l.perform request).2.Holds config heap' s'

theorem Holds.new (h : l.Holds config heap (front ++ back))
    (room : Node.byteSize ≤ heap.largestFree)
    (unused : heap.contents node.handle = none) :
    Sequence.New l.pool (front ++ back) node := by
  constructor
  · rw [h.pool]
    exact room
  · exact (h.shows.unknown _ unused).2.1
  · intro member
    have live := h.chained.isSome member
    simp [unused] at live

theorem Holds.place_simulates (h : l.Holds config heap (front ++ back)) {request : Request}
    (performed : l.perform request =
      answer .node (l.place (lastNode front) value (headNode back none)))
    (slots : (l.perform request).2.pool.slotCount < UInt32.size)
    (adds : request.adds = true)
    (found : ∀ r, request.beside? = some r → r ∈ Sequence.nodes (front ++ back))
    (step : ∀ node, Sequence.New l.pool (front ++ back) node →
      Sequence.Step l.pool (front ++ back) request (.ofList (.ok (.node node)))
        (front ++ (node, value) :: back)) :
    Simulates l config (front ++ back) request := by
  rw [performed] at slots
  have largest : l.pool.largestFree = heap.largestFree := by
    rw [h.pool]
    rfl
  rw [Simulates, performed]
  rcases h.place_cases slots with ⟨full, _, l', placed, after⟩ |
    ⟨room, node, l', heap', placed, _, _, unused, after⟩
  · rw [placed]
    refine ⟨_, _, ?_, after⟩
    rw [← largest] at full ⊢
    exact .noRoom adds found full
  · rw [placed]
    exact ⟨_, heap', step node (h.new room unused), after⟩

theorem Holds.insert_simulates (h : l.Holds config heap s)
    (slots : (l.perform (.insert value)).2.pool.slotCount < UInt32.size) :
    Simulates l config s (.insert value) := by
  have performed := h.perform_insert value
  -- The end is the place between the whole sequence and nothing.
  rw [← List.append_nil s] at h ⊢
  refine h.place_simulates performed slots rfl nofun fun node new => ?_
  rw [List.append_nil] at new ⊢
  exact .inserted new

theorem Holds.beside_simulates (h : l.Holds config heap s) {request : Request}
    (beside : request.beside? = some r) (absent : r ∉ s.nodes) :
    Simulates l config s request := by
  rw [Simulates, h.perform_beside_of_not_mem beside absent]
  exact ⟨s, heap, .notMember beside absent, h⟩

theorem Holds.insertAfter_simulates (h : l.Holds config heap s)
    (slots : (l.perform (.insertAfter r value)).2.pool.slotCount < UInt32.size) :
    Simulates l config s (.insertAfter r value) := by
  by_cases member : r ∈ s.nodes
  · obtain ⟨⟨r, v⟩, there, rfl⟩ := List.mem_map.mp member
    obtain ⟨before, after, rfl⟩ := List.append_of_mem there
    have performed := h.perform_insertAfter value
    rw [List.append_cons] at h member ⊢
    refine h.place_simulates performed slots rfl ?_ fun node new => ?_
    · rintro _ ⟨⟩
      exact member
    · rw [← List.append_cons] at new ⊢
      rw [← List.append_cons]
      exact .insertedAfter rfl new
  · exact h.beside_simulates rfl member

theorem Holds.insertBefore_simulates (h : l.Holds config heap s)
    (slots : (l.perform (.insertBefore r value)).2.pool.slotCount < UInt32.size) :
    Simulates l config s (.insertBefore r value) := by
  by_cases member : r ∈ s.nodes
  · obtain ⟨⟨r, v⟩, there, rfl⟩ := List.mem_map.mp member
    obtain ⟨before, after, rfl⟩ := List.append_of_mem there
    refine h.place_simulates (h.perform_insertBefore value) slots rfl ?_ fun node new => ?_
    · rintro _ ⟨⟩
      exact member
    · exact .insertedBefore rfl new
  · exact h.beside_simulates rfl member

theorem Holds.delete_simulates (h : l.Holds config heap s) :
    Simulates l config s (.delete v) := by
  rcases exists_first_value s v with absent | ⟨before, r, after, rfl, first⟩
  · rw [Simulates, h.perform_delete_of_not_mem absent]
    exact ⟨s, heap, .missing absent, h⟩
  · obtain ⟨l', heap', deleted, _, after⟩ := h.exists_delete first
    rw [Simulates, perform, deleted]
    exact ⟨_, heap', .deleted rfl first, after⟩

/-! ## The pool below -/

theorem perform_onPool (pool : l.pool = ⟨config, .ready heap⟩) {request : Pool.Request}
    (isOpen : request ≠ .close) :
    l.perform (.onPool request) =
      (.ofPool (l.pool.perform request).1, l.withHeap config (heap.serve request)) := by
  have served : ((⟨config, .ready heap⟩ : Pool).perform request).2 =
      ⟨config, .ready (heap.serve request)⟩ := Pool.perform_ready isOpen
  obtain ⟨_, head, closed⟩ := l
  cases pool
  rw [perform, onPool]
  simp only [withHeap, ← served]

theorem Holds.below (h : l.Holds config heap s) {request : Pool.Request}
    (allowed : s.Allows (.onPool request))
    (slots : (l.perform (.onPool request)).2.pool.slotCount < UInt32.size) :
    (l.perform (.onPool request)).1 = .ofPool (l.pool.perform request).1 ∧
      (l.perform (.onPool request)).2.Holds config (heap.serve request) s := by
  obtain ⟨isOpen, apart⟩ := allowed
  obtain ⟨cells, sound⟩ := h.sound
  rw [perform_onPool h.pool isOpen] at slots ⊢
  refine ⟨rfl, ?_⟩
  constructor
  · rfl
  · exact h.isOpen
  · exact sound.serve request
  · exact slots
  · exact h.head
  · exact h.nodup
  -- The request is not about a node, and what the pool gives out was nobody's.
  · refine h.chained.congr fun node member => stored_congr ?_
    have step := sound.step config isOpen slots
    exact step.frame (h.chained.isSome member) (apart node member)

theorem Holds.below_simulates (h : l.Holds config heap s) {request : Pool.Request}
    (allowed : s.Allows (.onPool request))
    (slots : (l.perform (.onPool request)).2.pool.slotCount < UInt32.size) :
    Simulates l config s (.onPool request) := by
  obtain ⟨answered, after⟩ := h.below allowed slots
  rw [Simulates, answered]
  exact ⟨s, heap.serve request, .below, after⟩

/-! ## Runs -/

theorem Holds.simulates (h : l.Holds config heap s) {request : Request}
    (allowed : s.Allows request)
    (slots : (l.perform request).2.pool.slotCount < UInt32.size) :
    Simulates l config s request := by
  have asked (query : request.isQuery = true) : Simulates l config s request := by
    obtain ⟨result, performed, ends⟩ := h.ask query
    rw [Simulates, performed]
    exact ⟨s, heap, .asked query ends, h⟩
  cases request with
  | insert value => exact h.insert_simulates slots
  | insertAfter node value => exact h.insertAfter_simulates slots
  | insertBefore node value => exact h.insertBefore_simulates slots
  | delete value => exact h.delete_simulates
  | cleanup => exact allowed.elim
  | onPool request => exact h.below_simulates allowed slots
  | _ => exact asked rfl

theorem Holds.follows (h : l.Holds config heap s) (requests : List Request) :
    s.Follows l requests := by
  induction requests generalizing l heap s with
  | nil => exact ⟨h.nodup, h.sequence_shows⟩
  | cons request rest ih =>
      refine ⟨h.nodup, h.sequence_shows, fun allowed slots => ?_⟩
      obtain ⟨s', heap', step, next⟩ := h.simulates allowed slots
      exact ⟨s', step, ih next⟩

theorem holds_ofSize (config : Config) (size : Nat) :
    Holds ⟨⟨config, .ready (.ofSize size config)⟩, none, false⟩ config
      (.ofSize size config) [] := by
  constructor
  · rfl
  · rfl
  · exact ⟨_, Heap.sound_ofSize size config⟩
  · exact (by decide : 1 < UInt32.size)
  · rfl
  · exact .nil
  · trivial

theorem eq_of_uninitialized {size : Nat}
    (opened : ofPool ⟨config, .uninitialized⟩ size = .ok l) :
    l = ⟨⟨config, .ready (.ofSize size config)⟩, none, false⟩ := by
  by_cases positive : 0 < size
  · rw [ofPool, Pool.setUp_of_pos positive] at opened
    cases opened
    rfl
  · rw [Nat.eq_zero_of_not_pos positive] at opened
    cases opened

theorem eq_of_ofPool {pool : Pool} {size : Nat} (opened : ofPool pool size = .ok l) :
    ∃ config, l = ⟨⟨config, .ready (.ofSize size config)⟩, none, false⟩ := by
  obtain ⟨config, phase⟩ := pool
  cases phase with
  | ready heap => cases opened
  | closed => cases opened
  | uninitialized => exact ⟨config, eq_of_uninitialized opened⟩

/-- From its making on, a list behaves as a sequence of nodes and values, whatever is
done with the other blocks of its pool. -/
theorem run_follows_sequence {pool : Pool} {size : Nat}
    (opened : ofPool pool size = .ok l) (requests : List Request) :
    Sequence.Follows [] l requests := by
  obtain ⟨config, rfl⟩ := eq_of_ofPool opened
  exact (holds_ofSize config size).follows requests

theorem run_follows_sequence_interleaved :
    ∃ l, ofPool ⟨.debug, .uninitialized⟩ 64 = .ok l ∧
      Sequence.Follows [] l
        [.insert 5, .onPool (.allocate 3), .insertBefore ⟨⟨0, 0⟩⟩ 7, .insert 9,
          .onPool (.deallocate ⟨1, 0⟩), .delete 5, .insertAfter ⟨⟨2, 0⟩⟩ 8] ∧
      (l.run
        [.insert 5, .onPool (.allocate 3), .insertBefore ⟨⟨0, 0⟩⟩ 7, .insert 9,
          .onPool (.deallocate ⟨1, 0⟩), .delete 5,
          .insertAfter ⟨⟨2, 0⟩⟩ 8]).2.values.toOption = some [7, 8, 9] := by
  have opened : ofPool ⟨.debug, .uninitialized⟩ 64 =
      .ok ⟨⟨.debug, .ready (.ofSize 64 .debug)⟩, none, false⟩ := rfl
  exact ⟨_, opened, run_follows_sequence opened _, by decide +kernel⟩

end LinkedList

end BlockPool
