import BlockPool.Proofs.LinkedList.Sequence

/-!
# A list as a client of its pool

What a list asks of its pool, what it answers and what it holds afterwards are
told from its sequence and from what the pool gives for the asking.  The bytes
in the blocks of its nodes, which it finds its way by, do not come into it.
-/

namespace BlockPool

/-- The node whose block a request reads without looking for it among the members. -/
def LinkedList.Request.loads? : LinkedList.Request → Option NodeRef
  | .value node => some node
  | .next node => some node
  | _ => none

def LinkedList.Request.isOwn : LinkedList.Request → Bool
  | .cleanup => false
  | .onPool _ => false
  | _ => true

namespace Sequence

open LinkedList (Request Reply Answer displayText upTo)

variable {s front back : Sequence} {r : NodeRef} {v : UInt16}

def before (s : Sequence) (r : NodeRef) : Sequence := s.takeWhile fun entry => entry.1 ≠ r

def onward (s : Sequence) (r : NodeRef) : Sequence := s.dropWhile fun entry => entry.1 ≠ r

theorem before_append_onward (s : Sequence) (r : NodeRef) : s.before r ++ s.onward r = s :=
  List.takeWhile_append_dropWhile

theorem passes_of_not_mem (absent : r ∉ s.nodes) :
    ∀ entry ∈ s, decide (entry.1 ≠ r) = true := by
  intro entry member
  rw [decide_eq_true_iff]
  rintro rfl
  exact absent (List.mem_map_of_mem member)

theorem before_of_split (absent : r ∉ front.nodes) :
    before (front ++ (r, v) :: back) r = front := by
  rw [before, List.takeWhile_append_of_pos (passes_of_not_mem absent)]
  simp

theorem onward_of_split (absent : r ∉ front.nodes) :
    onward (front ++ (r, v) :: back) r = (r, v) :: back := by
  rw [onward, List.dropWhile_append_of_pos (passes_of_not_mem absent)]
  simp

theorem onward_of_not_mem (absent : r ∉ s.nodes) : s.onward r = [] := by
  rw [onward, ← List.append_nil s, List.dropWhile_append_of_pos (passes_of_not_mem absent)]
  rfl

/-! ## What a list asks, answers and becomes -/

def frees (s : Sequence) : List Pool.Request :=
  s.nodes.map fun node => .deallocate node.handle

theorem close_not_mem_frees (s : Sequence) : .close ∉ s.frees := by
  simp [frees]

def demand (s : Sequence) : Request → List Pool.Request
  | .insert _ => [.allocate Node.byteSize]
  | .insertAfter r _ => if r ∈ s.nodes then [.allocate Node.byteSize] else []
  | .insertBefore r _ => if r ∈ s.nodes then [.allocate Node.byteSize] else []
  | .delete v =>
      match s.find? fun entry => entry.2 = v with
      | none => []
      | some entry => [.deallocate entry.1.handle]
  | .search _ | .displayRange _ _ | .display | .length | .values | .first | .value _ | .next _ =>
      []
  | .cleanup => s.frees ++ [.close]
  | .onPool request => [request]

def created (p : Pool) : Except ListError Reply :=
  match (p.allocate Node.byteSize).1 with
  | .error error => .error (.pool error)
  | .ok handle => .ok (.node ⟨handle⟩)

def grown (p : Pool) (front : Sequence) (value : UInt16) (back : Sequence) : Sequence :=
  match (p.allocate Node.byteSize).1 with
  | .error _ => front ++ back
  | .ok handle => front ++ (⟨handle⟩, value) :: back

def lost (r : NodeRef) : ListError := .atNode r (.notFound r.handle)

def answer (s : Sequence) (p : Pool) : Request → Answer
  | .insert _ => .ofList (created p)
  | .insertAfter r _ => .ofList (if r ∈ s.nodes then created p else .error (.nodeNotFound r))
  | .insertBefore r _ => .ofList (if r ∈ s.nodes then created p else .error (.nodeNotFound r))
  | .delete v => .ofList (if v ∈ s.values then .ok .done else .error (.valueNotFound v))
  | .search v => .ofList (.ok (.link ((s.find? fun entry => entry.2 = v).map Prod.fst)))
  | .displayRange none stop => .ofList (.ok (.text (displayText (values (upTo stop s)))))
  | .displayRange (some r) stop =>
      if r ∈ s.nodes then
        .ofList (.ok (.text (displayText (values (upTo stop (s.onward r))))))
      else .ofList (.error (.nodeNotFound r))
  | .display => .ofList (.ok (.text (displayText s.values)))
  | .length => .ofList (.ok (.length s.length))
  | .values => .ofList (.ok (.values s.values))
  | .first => .ofList (.ok (.link s.nodes.head?))
  | .value r =>
      match s.onward r with
      | [] => .ofList (.error (lost r))
      | entry :: _ => .ofList (.ok (.value entry.2))
  | .next r =>
      match s.onward r with
      | [] => .ofList (.error (lost r))
      | _ :: rest => .ofList (.ok (.link (nodes rest).head?))
  | .cleanup =>
      match (p.run s.frees).2.statistics with
      | .error error => .ofList (.error (.pool error))
      | .ok statistics => .ofList (.ok (.statistics statistics))
  | .onPool request => .ofPool (p.perform request).1

def next (s : Sequence) (p : Pool) : Request → Sequence
  | .insert value => grown p s value []
  | .insertAfter r value =>
      if r ∈ s.nodes then
        grown p (s.before r ++ (s.onward r).take 1) value ((s.onward r).drop 1)
      else s
  | .insertBefore r value =>
      if r ∈ s.nodes then grown p (s.before r) value (s.onward r) else s
  | .delete v => s.eraseP fun entry => entry.2 = v
  | .search _ | .displayRange _ _ | .display | .length | .values | .first | .value _ | .next _ => s
  | .cleanup => []
  | .onPool _ => s

theorem demand_cases (s : Sequence) {request : Request}
    (own : request.isOwn = true) :
    s.demand request = [] ∨ s.demand request = [.allocate Node.byteSize] ∨
      ∃ handle, s.demand request = [.deallocate handle] := by
  cases request with
  | insert value => exact .inr (.inl rfl)
  | insertAfter node value =>
      rw [demand]
      split
      · exact .inr (.inl rfl)
      · exact .inl rfl
  | insertBefore node value =>
      rw [demand]
      split
      · exact .inr (.inl rfl)
      · exact .inl rfl
  | delete value =>
      rw [demand]
      split
      · exact .inl rfl
      · exact .inr (.inr ⟨_, rfl⟩)
  | cleanup => cases own
  | onPool request => cases own
  | _ => exact .inl rfl

theorem find?_of_first (first : v ∉ front.values) :
    (front ++ (r, v) :: back).find? (fun entry => entry.2 = v) = some (r, v) := by
  have missed : front.find? (fun entry => entry.2 = v) = none := by
    rw [List.find?_eq_none]
    intro entry member same
    rw [decide_eq_true_iff] at same
    exact first (same ▸ List.mem_map_of_mem member)
  simp [List.find?_append, missed]

theorem eraseP_of_first (first : v ∉ front.values) :
    (front ++ (r, v) :: back).eraseP (fun entry => entry.2 = v) = front ++ back := by
  have others : ∀ entry ∈ front, ¬decide (entry.2 = v) = true := by
    intro entry member same
    rw [decide_eq_true_iff] at same
    exact first (same ▸ List.mem_map_of_mem member)
  rw [List.eraseP_append_right _ others, List.eraseP_cons_of_pos (by simp)]

theorem find?_of_missing (absent : v ∉ s.values) :
    s.find? (fun entry => entry.2 = v) = none := by
  rw [List.find?_eq_none]
  intro entry member same
  rw [decide_eq_true_iff] at same
  exact absent (same ▸ List.mem_map_of_mem member)

theorem eraseP_of_missing (absent : v ∉ s.values) :
    s.eraseP (fun entry => entry.2 = v) = s :=
  List.eraseP_of_forall_not fun entry member same => by
    rw [decide_eq_true_iff] at same
    exact absent (same ▸ List.mem_map_of_mem member)

end Sequence

namespace LinkedList

open Sequence (created grown lost)

variable {l : LinkedList} {config : Config} {heap : Heap} {s front back : Sequence}
  {r : NodeRef} {v value : UInt16} {request : Request}

theorem run_cons (l : LinkedList) (request : Request) (rest : List Request) :
    l.run (request :: rest) =
      ((l.perform request).1 :: ((l.perform request).2.run rest).1,
        ((l.perform request).2.run rest).2) := rfl

/-- The list answers as its sequence says, holds what the sequence becomes, and has asked
no more of the pool than the sequence demands. -/
def Obeys (l : LinkedList) (config : Config) (heap : Heap) (s : Sequence)
    (request : Request) : Prop :=
  (l.perform request).1 = s.answer l.pool request ∧
    ∃ heap', (l.perform request).2.Holds config heap' (s.next l.pool request) ∧
      heap'.Agrees ((s.demand request).foldl Heap.serve heap)

def entries (l : LinkedList) : Except ListError Sequence :=
  (l.trail fun _ _ => false).map fun trail =>
    trail.passed.map fun visit => (visit.1, visit.2.value)

theorem map_entry_visits (s : Sequence) (next : Option NodeRef) :
    (visits s next).map (fun visit => (visit.1, visit.2.value)) = s := by
  induction s with
  | nil => rfl
  | cons entry rest ih => simp [visits, ih]

theorem Holds.entries_eq (h : l.Holds config heap s) : l.entries = .ok s := by
  rw [entries, h.carries.trail_of_none _ fun _ _ => rfl]
  exact congrArg Except.ok (map_entry_visits s none)

def demand (l : LinkedList) (request : Request) : List Pool.Request :=
  if l.closed then []
  else
    match l.entries with
    | .error _ => []
    | .ok s => s.demand request

def demands (l : LinkedList) : List Request → List Pool.Request
  | [] => []
  | request :: rest => l.demand request ++ (l.perform request).2.demands rest

theorem Holds.place_eq (h : l.Holds config heap (front ++ back))
    (slots : (answer .node
      (l.place (lastNode front) value (headNode back none))).2.pool.slotCount <
        UInt32.size) :
    (answer .node (l.place (lastNode front) value (headNode back none))).1 =
        .ofList (created l.pool) ∧
      ∃ heap', (answer .node
          (l.place (lastNode front) value (headNode back none))).2.Holds config heap'
            (grown l.pool front value back) ∧
        heap'.Agrees ([Pool.Request.allocate Node.byteSize].foldl Heap.serve heap) := by
  have given : (l.pool.allocate Node.byteSize).1 = (heap.allocate Node.byteSize).1 := by
    rw [h.pool]
    rfl
  have served : [Pool.Request.allocate Node.byteSize].foldl Heap.serve heap =
      (heap.allocate Node.byteSize).2 := rfl
  rw [created, grown, given, served]
  rcases h.place_cases slots with ⟨_, refused, l', placed, after⟩ |
    ⟨_, node, l', heap', placed, handle, rewritten, _, after⟩
  · rw [placed, refused]
    exact ⟨rfl, _, after, .refl _⟩
  · rw [placed, handle]
    exact ⟨rfl, heap', after, rewritten.agrees⟩

theorem Holds.insert_obeys (h : l.Holds config heap s)
    (slots : (l.perform (.insert value)).2.pool.slotCount < UInt32.size) :
    l.Obeys config heap s (.insert value) := by
  have performed := h.perform_insert value
  rw [← List.append_nil s] at h
  rw [performed] at slots
  rw [Obeys, performed]
  exact h.place_eq slots

theorem Holds.beside_obeys (h : l.Holds config heap s) (beside : request.beside? = some r)
    (absent : r ∉ s.nodes) : l.Obeys config heap s request := by
  rw [Obeys, h.perform_beside_of_not_mem beside absent]
  cases request with
  | insertAfter node value =>
      cases beside
      simp only [Sequence.answer, Sequence.next, Sequence.demand, if_neg absent]
      exact ⟨trivial, heap, h, .refl heap⟩
  | insertBefore node value =>
      cases beside
      simp only [Sequence.answer, Sequence.next, Sequence.demand, if_neg absent]
      exact ⟨trivial, heap, h, .refl heap⟩
  | _ => cases beside

theorem Holds.insertAfter_obeys (h : l.Holds config heap s)
    (slots : (l.perform (.insertAfter r value)).2.pool.slotCount < UInt32.size) :
    l.Obeys config heap s (.insertAfter r value) := by
  by_cases member : r ∈ s.nodes
  · obtain ⟨⟨r, v⟩, there, rfl⟩ := List.mem_map.mp member
    obtain ⟨before, after, rfl⟩ := List.append_of_mem there
    have performed := h.perform_insertAfter value
    rw [performed] at slots
    rw [Obeys, performed]
    simp only [Sequence.answer, Sequence.next, Sequence.demand, if_pos member,
      Sequence.before_of_split h.carries.not_mem.1, Sequence.onward_of_split h.carries.not_mem.1]
    rw [List.append_cons] at h
    exact h.place_eq slots
  · exact h.beside_obeys rfl member

theorem Holds.insertBefore_obeys (h : l.Holds config heap s)
    (slots : (l.perform (.insertBefore r value)).2.pool.slotCount < UInt32.size) :
    l.Obeys config heap s (.insertBefore r value) := by
  by_cases member : r ∈ s.nodes
  · obtain ⟨⟨r, v⟩, there, rfl⟩ := List.mem_map.mp member
    obtain ⟨before, after, rfl⟩ := List.append_of_mem there
    have performed := h.perform_insertBefore value
    rw [performed] at slots
    rw [Obeys, performed]
    simp only [Sequence.answer, Sequence.next, Sequence.demand, if_pos member,
      Sequence.before_of_split h.carries.not_mem.1, Sequence.onward_of_split h.carries.not_mem.1]
    exact h.place_eq slots
  · exact h.beside_obeys rfl member

theorem Holds.delete_obeys (h : l.Holds config heap s) :
    l.Obeys config heap s (.delete v) := by
  rcases exists_first_value s v with absent | ⟨before, r, after, rfl, first⟩
  · have missing : v ∉ s.values := absent
    rw [Obeys, h.perform_delete_of_not_mem absent]
    simp only [Sequence.answer, Sequence.next, Sequence.demand, if_neg missing,
      Sequence.find?_of_missing missing, Sequence.eraseP_of_missing missing]
    exact ⟨trivial, heap, h, .refl heap⟩
  · have there : v ∈ Sequence.values (before ++ (r, v) :: after) := by
      simp [Sequence.values]
    obtain ⟨l', heap', deleted, rewritten, left⟩ := h.exists_delete first
    rw [Obeys, perform, deleted]
    simp only [Sequence.answer, Sequence.next, Sequence.demand, if_pos there,
      Sequence.find?_of_first first, Sequence.eraseP_of_first first]
    exact ⟨rfl, heap', left, rewritten.agrees⟩

/-! ## Queries -/

theorem Holds.load_of_dead (h : l.Holds config heap s)
    (dead : heap.contents r.handle = none) : l.load r = .error (lost r) := by
  have missed := (h.shows.unknown _ dead).2.2 0 Node.byteSize
  rw [load, missed]
  rfl

theorem Holds.asked_obeys (h : l.Holds config heap s) (query : request.isQuery = true)
    (loads : ∀ r, request.loads? = some r → r ∈ s.nodes ∨ heap.contents r.handle = none) :
    l.Obeys config heap s request := by
  -- Queries leave the list as it is, so only their answers are in question.
  suffices l.perform request = (s.answer l.pool request, l) by
    rw [Obeys, this]
    refine ⟨rfl, heap, ?_, ?_⟩
    · cases request <;> first | exact h | cases query
    · cases request <;> first | exact .refl heap | cases query
  cases request with
  | search v => rw [perform, h.carries.search_eq]; rfl
  | displayRange start stop =>
      rw [perform]
      cases start with
      | none => rw [h.carries.displayRange_head]; rfl
      | some r =>
          by_cases member : r ∈ s.nodes
          · obtain ⟨⟨r, v⟩, there, rfl⟩ := List.mem_map.mp member
            obtain ⟨before, after, rfl⟩ := List.append_of_mem there
            rw [h.carries.displayRange_from, Sequence.answer, if_pos member,
              Sequence.onward_of_split h.carries.not_mem.1]
            rfl
          · rw [h.carries.displayRange_of_not_mem member, Sequence.answer, if_neg member]
            rfl
  | display =>
      rw [perform, display, h.carries.displayRange_head, upTo_none]
      rfl
  | length => rw [perform, h.carries.length_eq]; rfl
  | values => rw [perform, h.carries.values_eq]; rfl
  | first =>
      rw [perform, h.carries.first_eq, Sequence.answer, Sequence.nodes, List.head?_map]
      rfl
  | value r =>
      by_cases member : r ∈ s.nodes
      · obtain ⟨⟨r, v⟩, there, rfl⟩ := List.mem_map.mp member
        obtain ⟨before, after, rfl⟩ := List.append_of_mem there
        rw [perform, h.carries.value_eq, Sequence.answer,
          Sequence.onward_of_split h.carries.not_mem.1]
        rfl
      · have dead := (loads r rfl).resolve_left member
        rw [perform, LinkedList.value, h.carries.ensureOpen_eq, h.load_of_dead dead,
          Sequence.answer, Sequence.onward_of_not_mem member]
        rfl
  | next r =>
      by_cases member : r ∈ s.nodes
      · obtain ⟨⟨r, v⟩, there, rfl⟩ := List.mem_map.mp member
        obtain ⟨before, after, rfl⟩ := List.append_of_mem there
        rw [perform, h.carries.next_eq, Sequence.answer,
          Sequence.onward_of_split h.carries.not_mem.1, ← List.head?_map]
        rfl
      · have dead := (loads r rfl).resolve_left member
        rw [perform, LinkedList.next, h.carries.ensureOpen_eq, h.load_of_dead dead,
          Sequence.answer, Sequence.onward_of_not_mem member]
        rfl
  | _ => cases query

/-! ## All requests but the last -/

theorem Holds.obeys (h : l.Holds config heap s) (allowed : s.Allows request)
    (loads : ∀ r, request.loads? = some r → r ∈ s.nodes ∨ heap.contents r.handle = none)
    (slots : (l.perform request).2.pool.slotCount < UInt32.size) :
    l.Obeys config heap s request := by
  cases request with
  | insert value => exact h.insert_obeys slots
  | insertAfter node value => exact h.insertAfter_obeys slots
  | insertBefore node value => exact h.insertBefore_obeys slots
  | delete value => exact h.delete_obeys
  | cleanup => exact allowed.elim
  | onPool request =>
      obtain ⟨answered, after⟩ := h.below allowed slots
      exact ⟨answered, _, after, .refl _⟩
  | _ => exact h.asked_obeys rfl loads

theorem Holds.slotCount_perform (h : l.Holds config heap s) (allowed : s.Allows request) :
    (l.perform request).2.pool.slotCount =
      ((s.demand request).foldl Heap.serve heap).layout.slotCount := by
  have idle : l.pool.slotCount = heap.layout.slotCount := by
    rw [h.pool]
    rfl
  have placed (before : Option NodeRef) (value : UInt16) (next : Option NodeRef) :
      (answer .node (l.place before value next)).2.pool.slotCount =
        (heap.serve (.allocate Node.byteSize)).layout.slotCount := by
    refine (slotCount_place ..).trans ?_
    rw [h.pool]
    rfl
  have beside (r : NodeRef) (found : request.beside? = some r) (absent : r ∉ s.nodes) :
      (l.perform request).2.pool.slotCount = heap.layout.slotCount := by
    rw [h.perform_beside_of_not_mem found absent]
    exact idle
  cases request with
  | insert value =>
      rw [h.perform_insert]
      exact placed ..
  | insertAfter r value =>
      rw [Sequence.demand]
      split
      · next member =>
          obtain ⟨⟨r, v⟩, there, rfl⟩ := List.mem_map.mp member
          obtain ⟨before, after, rfl⟩ := List.append_of_mem there
          rw [h.perform_insertAfter]
          exact placed ..
      · next absent => exact beside r rfl absent
  | insertBefore r value =>
      rw [Sequence.demand]
      split
      · next member =>
          obtain ⟨⟨r, v⟩, there, rfl⟩ := List.mem_map.mp member
          obtain ⟨before, after, rfl⟩ := List.append_of_mem there
          rw [h.perform_insertBefore]
          exact placed ..
      · next absent => exact beside r rfl absent
  | delete v =>
      refine (slotCount_delete l v).trans (idle.trans ?_)
      rw [Sequence.demand]
      split
      · rfl
      · exact (Heap.slotCount_deallocate ..).symm
  | cleanup => exact allowed.elim
  | onPool request =>
      rw [perform_onPool h.pool allowed.1]
      rfl
  | _ => exact idle

/-! ## Cleaning up -/

theorem Holds.drop_first (h : l.Holds config heap ((r, v) :: s)) :
    l.free r = (.ok (), l.withHeap config (heap.serve (.deallocate r.handle))) ∧
      Holds { l.withHeap config (heap.serve (.deallocate r.handle)) with
        head := headNode s none } config (heap.serve (.deallocate r.handle)) s := by
  obtain ⟨cells, sound⟩ := h.sound
  obtain ⟨b, named⟩ := Heap.exists_range?_of_isSome (h.chained.isSome List.mem_cons_self)
  have served : heap.serve (.deallocate r.handle) = heap.freed r.handle.index.toNat := by
    rw [Heap.serve, Heap.deallocate_eq, named]
  have absent := (List.nodup_cons.mp h.nodup).1
  rw [served]
  refine ⟨free_eq h.pool named, ?_⟩
  constructor
  · rfl
  · exact h.isOpen
  · exact sound.exists_freed (sound.range?_eq_some_iff.mp named).1
  · rw [Heap.slotCount_freed]
    exact h.small
  · rfl
  · exact (List.nodup_cons.mp h.nodup).2
  · rw [sound.contents_freed named]
    exact h.chained.2.set absent none

theorem Holds.drain_eq (h : l.Holds config heap s) {steps : Nat}
    (enough : s.length ≤ steps) :
    l.drain steps = (.ok (),
      { l.withHeap config (s.frees.foldl Heap.serve heap) with head := none }) := by
  induction s generalizing l heap steps with
  | nil =>
      have same : l = { l.withHeap config heap with head := none } := by
        rw [withHeap, ← h.pool, ← headNode_nil none, ← h.head]
      cases steps <;> simp only [drain, h.head, headNode_nil] <;> exact congrArg _ same
  | cons entry rest ih =>
      obtain ⟨r, v⟩ := entry
      cases steps with
      | zero => simp at enough
      | succ steps =>
          have split : l.Holds config heap ([] ++ (r, v) :: rest) := h
          obtain ⟨freed, left⟩ := h.drop_first
          simp only [drain, h.head, headNode_cons, split.carries.load_eq, freed]
          exact ih left (Nat.le_of_succ_le_succ enough)

theorem Holds.cleanup_eq (h : l.Holds config heap s) :
    l.cleanup =
      (.ok (s.frees.foldl Heap.serve heap).statistics, ⟨⟨config, .closed⟩, none, true⟩) := by
  obtain ⟨cells, sound⟩ := h.sound
  have length := length_le_slotCount sound h.nodup fun node => h.chained.isSome
  have enough : s.length ≤ l.reach := by
    rw [reach_eq h.pool]
    omega
  rw [cleanup, h.carries.ensureOpen_eq]
  simp only [h.drain_eq enough]
  rfl

theorem Holds.perform_cleanup (h : l.Holds config heap s) :
    l.perform .cleanup = (s.answer l.pool .cleanup, ⟨⟨config, .closed⟩, none, true⟩) := by
  have emptied : (l.pool.run s.frees).2 = ⟨config, .ready (s.frees.foldl Heap.serve heap)⟩ := by
    rw [h.pool, Pool.run_ready s.close_not_mem_frees]
  rw [perform, h.cleanup_eq]
  simp only [Sequence.answer, emptied]
  rfl

end LinkedList

end BlockPool
