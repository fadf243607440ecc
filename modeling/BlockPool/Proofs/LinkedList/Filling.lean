import BlockPool.Proofs.LinkedList.Capacity
import BlockPool.Proofs.Pool.Filling

/-!
# Filling and clearing a list

As long as values are only added to a list that has its pool to itself, its
nodes are numbered in the order of the values.  Whatever is taken out later,
cleaning up gives every node back that was made.
-/

namespace BlockPool

namespace Heap

open Layout

variable {heap heap' : Heap} {config : Config} {made size : Nat} {out out' : List Handle}
  {handle : Handle} {b : Block}

/-! ## Books of what was made and what is out -/

/-- These handles are out, of as many as were made; the counters say so if they are kept. -/
structure Books (heap : Heap) (config : Config) (made : Nat) (out : List Handle) : Prop where
  policy : heap.config = config
  lends : heap.Lends out
  counted : config.trackStats = true →
    heap.counters.allocations = made ∧ heap.counters.deallocations + out.length = made

theorem books_ofSize (size : Nat) (config : Config) :
    (Heap.ofSize size config).Books config 0 [] :=
  ⟨rfl, lends_ofSize size config, fun _ => ⟨rfl, rfl⟩⟩

theorem Books.perm (books : heap.Books config made out) (perm : out.Perm out') :
    heap.Books config made out' :=
  ⟨books.policy, books.lends.perm perm, perm.length_eq ▸ books.counted⟩

theorem Books.rewritten (books : heap.Books config made out) (same : heap'.Rewritten heap) :
    heap'.Books config made out where
  policy := same.config.trans books.policy
  lends := books.lends.congr same.agrees.layout same.agrees.size same.agrees.used
  counted := same.counters ▸ books.counted

theorem Books.allocate (books : heap.Books config made out)
    (given : (heap.allocate size).1 = .ok handle) :
    (heap.allocate size).2.Books config (made + 1) (handle :: out) := by
  obtain ⟨cells, sound, perm⟩ := books.lends
  cases sound.allocation size with
  | noRoom none result =>
      rw [result] at given
      cases given
  | placed i b member fit found result =>
      rw [result] at given ⊢
      cases given
      refine ⟨?_, .placed sound perm member fit, fun tracked => ?_⟩
      · simpa [Heap.placed] using books.policy
      · obtain ⟨allocations, live⟩ := books.counted tracked
        rw [sound.counters_placed member, books.policy, if_pos tracked]
        simp only [Counters.addAllocation, Counters.reach, List.length_cons]
        omega

theorem Books.deallocate (books : heap.Books config made (handle :: out))
    (named : heap.range? handle = some b) :
    (heap.deallocate handle).2.Books config made out := by
  rw [deallocate_eq, named]
  refine ⟨?_, books.lends.freed_head named, fun tracked => ?_⟩
  · simpa [Heap.freed] using books.policy
  · obtain ⟨allocations, live⟩ := books.counted tracked
    rw [counters_freed, books.policy, if_pos tracked]
    simp only [Counters.addDeallocation, List.length_cons] at live ⊢
    omega

end Heap

def NodeRef.numbered (count : Nat) : NodeRef := ⟨⟨UInt32.ofNat count, 0⟩⟩

namespace Sequence

def numbered (values : List (UInt16 × Nat)) : Sequence :=
  values.map fun entry => (.numbered entry.2, entry.1)

theorem values_numbered (values : List (UInt16 × Nat)) :
    (numbered values).values = values.map Prod.fst := by
  simp [numbered, Sequence.values]

theorem find?_numbered (values : List (UInt16 × Nat)) (v : UInt16) :
    (numbered values).find? (fun entry => entry.2 = v) =
      (values.find? fun entry => entry.1 = v).map fun entry =>
        (.numbered entry.2, entry.1) := by
  rw [numbered, List.find?_map]
  rfl

theorem eraseP_numbered (values : List (UInt16 × Nat)) (v : UInt16) :
    (numbered values).eraseP (fun entry => entry.2 = v) =
      numbered (values.eraseP fun entry => entry.1 = v) := by
  rw [numbered, List.eraseP_map]
  rfl

theorem numbered_concat (values : List UInt16) (value : UInt16) :
    numbered (values ++ [value]).zipIdx =
      numbered values.zipIdx ++ [(.numbered values.length, value)] := by
  simp [numbered, List.zipIdx_append]

end Sequence

namespace LinkedList

variable {l : LinkedList} {config : Config} {heap : Heap} {values : List UInt16}
  {s : Sequence} {made : Nat} {v value : UInt16}

/-! ## Filling a list -/

structure Collects (l : LinkedList) (config : Config) (heap : Heap) (values : List UInt16) :
    Prop where
  holds : l.Holds config heap (Sequence.numbered values.zipIdx)
  books : heap.Books config values.length (Sequence.numbered values.zipIdx).handles
  filled : heap.Filled values.length
  used : heap.used = Node.byteSize * values.length

theorem collects_ofSize (size : Nat) (config : Config) :
    Collects ⟨⟨config, .ready (.ofSize size config)⟩, none, false⟩ config
      (.ofSize size config) [] where
  holds := holds_ofSize config size
  books := Heap.books_ofSize size config
  filled := Heap.filled_ofSize size config
  used := rfl

theorem Collects.insert_cases (h : l.Collects config heap values) (value : UInt16)
    (slots : (heap.allocate Node.byteSize).2.layout.slotCount < UInt32.size) :
    (∃ l', l.insert value = (.error (.pool (.allocationFailed Node.byteSize
        (heap.size - Node.byteSize * values.length))), l') ∧
      ∀ handle, (heap.allocate Node.byteSize).1 ≠ .ok handle) ∨
    ∃ node l' heap', l.insert value = (.ok node, l') ∧
      (heap.allocate Node.byteSize).1 = .ok node.handle ∧
      heap'.Rewritten (heap.allocate Node.byteSize).2 ∧
      l'.Holds config heap' (Sequence.numbered values.zipIdx ++ [(node, value)]) := by
  have holds := h.holds
  rw [← List.append_nil (Sequence.numbered _)] at holds
  have grown : (l.place (lastNode (Sequence.numbered values.zipIdx)) value
      (headNode [] none)).2.pool.slotCount < UInt32.size := by
    rw [slotCount_place, holds.pool]
    exact slots
  rw [h.holds.insert_eq, ← h.used, ← h.filled.largestFree_eq]
  rcases holds.place_cases grown with ⟨_, refused, l', placed, _⟩ |
    ⟨_, node, l', heap', placed, given, rewritten, _, after⟩
  · refine .inl ⟨l', placed, fun handle given => ?_⟩
    rw [refused] at given
    cases given
  · exact .inr ⟨node, l', heap', placed, given, rewritten, after⟩

theorem Collects.insert_of_lt (h : l.Collects config heap values)
    (few : values.length + 1 < UInt32.size)
    (lack : heap.size < Node.byteSize * (values.length + 1)) (value : UInt16) :
    ∃ l', l.insert value = (.error (.pool (.allocationFailed Node.byteSize
      (heap.size - Node.byteSize * values.length))), l') := by
  rw [Nat.mul_succ, ← h.used] at lack
  have refused := h.filled.allocate_of_lt (by decide) lack
  have slots : (heap.allocate Node.byteSize).2.layout.slotCount < UInt32.size := by
    rw [refused, Heap.countFailure, Heap.layout_count]
    exact Nat.lt_of_le_of_lt h.filled.slotCount_le few
  rcases h.insert_cases value slots with ⟨l', failed, _⟩ | ⟨node, _, _, _, given, _⟩
  · exact ⟨l', failed⟩
  · rw [refused] at given
    cases given

theorem Collects.insert_of_le (h : l.Collects config heap values)
    (few : values.length + 2 < UInt32.size)
    (room : Node.byteSize * (values.length + 1) ≤ heap.size) (value : UInt16) :
    ∃ node l' heap', l.insert value = (.ok node, l') ∧
      l'.Collects config heap' (values ++ [value]) ∧ heap'.size = heap.size := by
  rw [Nat.mul_succ, ← h.used] at room
  obtain ⟨result, filled, used⟩ := h.filled.allocate_of_le (by decide) room
  have slots : (heap.allocate Node.byteSize).2.layout.slotCount < UInt32.size := by
    rw [result]
    exact Nat.lt_of_le_of_lt filled.slotCount_le few
  rcases h.insert_cases value slots with ⟨_, _, none⟩ |
    ⟨node, l', heap', inserted, given, rewritten, after⟩
  · exact absurd (by rw [result]) (none ⟨UInt32.ofNat values.length, 0⟩)
  · have books := (h.books.allocate given).rewritten rewritten
    rw [result] at given rewritten
    obtain ⟨⟩ : node = .numbered values.length := by
      cases node
      cases given
      rfl
    refine ⟨_, l', heap', inserted, ⟨?_, ?_, ?_, ?_⟩, ?_⟩
    · rw [Sequence.numbered_concat]
      exact after
    · rw [Sequence.numbered_concat, Sequence.handles_append, List.length_append]
      exact books.perm (List.perm_append_singleton ..).symm
    · rw [List.length_append]
      exact filled.congr rewritten.agrees.layout rewritten.agrees.size rewritten.agrees.used
    · rw [rewritten.agrees.used, used, h.used, List.length_append]
      rfl
    · refine rewritten.agrees.size.trans ?_
      simp [Heap.placed]

/-! ## Clearing a list -/

/-- The list holds these entries, and as many nodes were made for it. -/
def Tends (l : LinkedList) (config : Config) (made : Nat) (s : Sequence) : Prop :=
  ∃ heap, l.Holds config heap s ∧ heap.Books config made s.handles

theorem Tends.delete_of_mem (h : l.Tends config made s) (there : v ∈ s.values) :
    ∃ l', l.delete v = (.ok (), l') ∧
      l'.Tends config made (s.eraseP fun entry => entry.2 = v) := by
  obtain ⟨heap, holds, books⟩ := h
  rcases exists_first_value s v with absent | ⟨before, r, after, rfl, first⟩
  · exact absurd there absent
  · obtain ⟨l', heap', deleted, rewritten, left⟩ := holds.exists_delete first
    obtain ⟨b, named⟩ := Heap.exists_range?_of_isSome
      (holds.chained.isSome (by simp : r ∈ (before ++ (r, v) :: after).map Prod.fst))
    have moved : (Sequence.handles (before ++ (r, v) :: after)).Perm
        (r.handle :: Sequence.handles (before ++ after)) := by
      rw [Sequence.handles_append, Sequence.handles_append]
      exact List.perm_middle
    rw [Sequence.eraseP_of_first first]
    exact ⟨l', deleted, heap', left, ((books.perm moved).deallocate named).rewritten rewritten⟩

theorem Tends.delete_of_not_mem (h : l.Tends config made s) (absent : v ∉ s.values) :
    l.delete v = (.error (.valueNotFound v), l) := by
  obtain ⟨heap, holds, _⟩ := h
  exact holds.delete_of_not_mem absent

theorem Holds.books_frees (h : l.Holds config heap s)
    (books : heap.Books config made s.handles) :
    (s.frees.foldl Heap.serve heap).Books config made [] := by
  induction s generalizing l heap with
  | nil => exact books
  | cons entry rest ih =>
      obtain ⟨r, v⟩ := entry
      obtain ⟨b, named⟩ := Heap.exists_range?_of_isSome (h.chained.isSome List.mem_cons_self)
      exact ih h.drop_first.2 (books.deallocate named)

theorem Tends.cleanup (h : l.Tends config made s) :
    ∃ statistics l', l.cleanup = (.ok statistics, l') ∧ statistics.usedBytes = 0 ∧
      (config.trackStats = true →
        statistics.allocationCount = made ∧ statistics.deallocationCount = made) := by
  obtain ⟨heap, holds, books⟩ := h
  have cleared := holds.books_frees books
  exact ⟨_, _, holds.cleanup_eq, cleared.lends.used_of_nil, cleared.counted⟩

end LinkedList

end BlockPool
