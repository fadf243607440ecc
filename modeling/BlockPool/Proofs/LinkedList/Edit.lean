import BlockPool.Proofs.LinkedList.Reading
import BlockPool.Proofs.Pool.Agreement

/-!
# Editing a list that is held in a pool

A new node comes from a block that was not in use, so its bytes and its link
can be written without touching a node of the list; then the one link, or the
head, that has to change is changed.  Taking a node out changes one link and
frees its block.
-/

namespace BlockPool.LinkedList

variable {l : LinkedList} {config : Config} {heap : Heap} {cells : List Cell}
  {entries front back : List Entry} {r node : NodeRef} {v value : UInt16}
  {b : Block} {bytes : List UInt8}

def withHeap (l : LinkedList) (config : Config) (heap : Heap) : LinkedList :=
  { l with pool := ⟨config, .ready heap⟩ }

@[simp] theorem pool_withHeap (l : LinkedList) (config : Config) (heap : Heap) :
    (l.withHeap config heap).pool = ⟨config, .ready heap⟩ := rfl

@[simp] theorem head_withHeap (l : LinkedList) (config : Config) (heap : Heap) :
    (l.withHeap config heap).head = l.head := rfl

@[simp] theorem withHeap_withHeap (l : LinkedList) (config : Config) (heap heap' : Heap) :
    (l.withHeap config heap).withHeap config heap' = l.withHeap config heap' := rfl

theorem onPool_eq {α : Type} (pool : l.pool = ⟨config, .ready heap⟩)
    (operation : Heap → Except PoolError α × Heap) :
    (l.onPool fun p => p.onHeap operation) =
      ((operation heap).1, l.withHeap config (operation heap).2) := by
  obtain ⟨_, head, closed⟩ := l
  cases pool
  rfl

/-! ## Slots

The pool below a list gets its new slots where it makes a node.
-/

@[simp] theorem pool_onPool {α : Type} (l : LinkedList)
    (operation : Pool → Except PoolError α × Pool) :
    (l.onPool operation).2.pool = (operation l.pool).2 := rfl

theorem slotCount_onHeap {α : Type} (p : Pool)
    {operation : Heap → Except PoolError α × Heap}
    (same : ∀ heap, (operation heap).2.layout.slotCount = heap.layout.slotCount) :
    (p.onHeap operation).2.slotCount = p.slotCount := by
  obtain ⟨config, phase⟩ := p
  cases phase with
  | uninitialized => rfl
  | ready heap => exact same heap
  | closed => rfl

theorem snd_free (l : LinkedList) (node : NodeRef) :
    (l.free node).2 = (l.onPool fun pool => pool.deallocate node.handle).2 := by
  unfold free
  split <;> next result => rw [result]

theorem snd_store (l : LinkedList) (node : NodeRef) (contents : Node) :
    (l.store node contents).2 =
      (l.onPool fun pool => pool.write node.handle 0 contents.encode).2 := by
  unfold store
  split <;> next result => rw [result]

@[simp] theorem slotCount_free (l : LinkedList) (node : NodeRef) :
    (l.free node).2.pool.slotCount = l.pool.slotCount := by
  rw [snd_free, pool_onPool]
  exact slotCount_onHeap _ fun heap => heap.slotCount_deallocate node.handle

@[simp] theorem slotCount_store (l : LinkedList) (node : NodeRef) (contents : Node) :
    (l.store node contents).2.pool.slotCount = l.pool.slotCount := by
  rw [snd_store, pool_onPool]
  apply slotCount_onHeap
  intro heap
  rw [Heap.write_eq]
  cases heap.range? node.handle with
  | none => rfl
  | some b =>
      simp only
      split
      · rw [Heap.layout_written]
      · rfl

@[simp] theorem slotCount_relink (l : LinkedList) (before next : Option NodeRef) :
    (l.relink before next).2.pool.slotCount = l.pool.slotCount := by
  cases before with
  | none => rfl
  | some node =>
      simp only [relink, setNext]
      cases l.load node with
      | error error => rfl
      | ok contents => exact slotCount_store ..

theorem slotCount_create (l : LinkedList) (value : UInt16) (next : Option NodeRef) :
    (l.create value next).2.pool.slotCount =
      (l.pool.allocate Node.byteSize).2.slotCount := by
  rw [← pool_onPool l fun pool => pool.allocate Node.byteSize]
  unfold create
  split
  · next result => rw [result]
  · next handle l₁ result =>
      rw [result, ← slotCount_store l₁ ⟨handle⟩ ⟨value, next⟩]
      split
      · next stored => rw [stored, slotCount_free]
      · next stored => rw [stored]

theorem slotCount_place (l : LinkedList) (before : Option NodeRef) (value : UInt16)
    (next : Option NodeRef) :
    (l.place before value next).2.pool.slotCount =
      (l.pool.allocate Node.byteSize).2.slotCount := by
  rw [← slotCount_create l value next]
  unfold place
  split
  · next created => rw [created]
  · next node l₁ created =>
      rw [created, ← slotCount_relink l₁ before (some node)]
      split
      · next relinked => rw [relinked, slotCount_free]
      · next relinked => rw [relinked]

@[simp] theorem slotCount_delete (l : LinkedList) (value : UInt16) :
    (l.delete value).2.pool.slotCount = l.pool.slotCount := by
  unfold delete
  split
  · rfl
  · split
    · rfl
    · rfl
    · next passed node contents _ =>
        rw [← slotCount_relink l (passed.getLast?.map Prod.fst) contents.next]
        split
        · next relinked => rw [relinked]
        · next relinked => rw [relinked, slotCount_free]

/-! ## Blocks of nodes -/

theorem free_eq (pool : l.pool = ⟨config, .ready heap⟩)
    (named : heap.range? node.handle = some b) :
    l.free node =
      (.ok (), l.withHeap config (heap.freed node.handle.index.toNat)) := by
  have freed := onPool_eq pool fun heap => heap.deallocate node.handle
  simp only [Heap.deallocate_eq, named] at freed
  simp only [free, Pool.deallocate, Heap.deallocate_eq, freed]

theorem store_eq (pool : l.pool = ⟨config, .ready heap⟩)
    (named : heap.range? node.handle = some b) (room : Node.byteSize ≤ b.size)
    (contents : Node) :
    l.store node contents =
      (.ok (), l.withHeap config (heap.written (b.offset + 0) contents.encode)) := by
  have inside : 0 + contents.encode.length ≤ b.size := by
    simp [room]
  have written := onPool_eq pool fun heap => heap.write node.handle 0 contents.encode
  simp only [Heap.write_eq, named, if_pos inside] at written
  simp only [store, Pool.write, Heap.write_eq, written]

theorem exists_store (pool : l.pool = ⟨config, .ready heap⟩) (sound : heap.Sound cells)
    (live : heap.contents node.handle = some bytes)
    (length : bytes.length = Node.byteSize) (contents : Node) :
    ∃ heap', l.store node contents = (.ok (), l.withHeap config heap') ∧
      heap'.Sound cells ∧ heap'.Rewritten heap ∧
      heap'.contents = heap.contents.set node.handle (some contents.encode) := by
  obtain ⟨b, named, rfl⟩ := Option.map_eq_some_iff.mp live
  have size := sound.length_contents named
  have whole : b.size = Node.byteSize := size.symm.trans length
  have inside : 0 + contents.encode.length ≤ b.size := by
    simp [whole]
  have patched : Contents.patch (heap.buffer.slice b.offset b.size) 0 contents.encode =
      contents.encode := by
    rw [Contents.patch, List.drop_of_length_le]
    · simp
    · simp [length]
  refine ⟨_, store_eq pool named (Nat.le_of_eq whole.symm) contents, sound.written _ _,
    .written .., ?_⟩
  rw [sound.contents_written named inside, patched]

theorem allocate_cases (sound : heap.Sound cells)
    (slots : (heap.allocate Node.byteSize).2.layout.slotCount < UInt32.size) :
    (heap.layout.firstFit? Node.byteSize = none ∧
      heap.allocate Node.byteSize =
        (.error (heap.noRoom Node.byteSize), heap.countFailure)) ∨
    ∃ handle heap₁ cells₁ bytes, heap.layout.firstFit? Node.byteSize ≠ none ∧
      heap.allocate Node.byteSize = (.ok handle, heap₁) ∧ heap₁.Sound cells₁ ∧
      heap.contents handle = none ∧ bytes.length = Node.byteSize ∧
      heap₁.contents = heap.contents.set handle (some bytes) := by
  cases sound.allocation Node.byteSize with
  | noRoom none result => exact .inl ⟨none, result⟩
  | placed i b member fit found result =>
      rw [result] at slots ⊢
      have small : i < UInt32.size := by
        have grown := sound.slotCount_le_serve (.allocate Node.byteSize)
        rw [Heap.serve, result] at grown
        have inside := sound.chains.lt_slotCount member
        omega
      obtain ⟨cells₁, placed⟩ := sound.exists_placed member fit
      obtain ⟨bytes, fresh, contents⟩ := sound.contents_placed member fit small
      exact .inr ⟨heap.layout.handleOf i, _, cells₁, bytes, by simp [found], rfl, placed,
        sound.contents_handleOf member fit small, fresh.1, contents⟩

theorem create_cases (pool : l.pool = ⟨config, .ready heap⟩) (sound : heap.Sound cells)
    (slots : (heap.allocate Node.byteSize).2.layout.slotCount < UInt32.size)
    (value : UInt16) (next : Option NodeRef) :
    (heap.layout.firstFit? Node.byteSize = none ∧
      l.create value next =
        (.error (.pool (heap.noRoom Node.byteSize)),
          l.withHeap config heap.countFailure)) ∨
    ∃ node heap' cells', heap.layout.firstFit? Node.byteSize ≠ none ∧
      l.create value next = (.ok node, l.withHeap config heap') ∧
      heap'.Sound cells' ∧ (heap.allocate Node.byteSize).1 = .ok node.handle ∧
      heap'.Rewritten (heap.allocate Node.byteSize).2 ∧
      heap.contents node.handle = none ∧
      heap'.contents =
        heap.contents.set node.handle (some (Node.encode ⟨value, next⟩)) := by
  have made := onPool_eq pool fun heap => heap.allocate Node.byteSize
  rcases allocate_cases sound slots with ⟨none, result⟩ |
    ⟨handle, heap₁, cells₁, bytes, room, result, sound₁, unused, length, contents⟩
  · refine .inl ⟨none, ?_⟩
    rw [result] at made
    simp only [create, Pool.allocate, made]
  · rw [result] at made ⊢
    have live : heap₁.contents (NodeRef.mk handle).handle = some bytes := by
      rw [contents, Contents.set_self]
    obtain ⟨heap', stored, kept, rewritten, after⟩ :=
      exists_store (pool_withHeap l config _) sound₁ live length ⟨value, next⟩
    refine .inr ⟨⟨handle⟩, heap', cells₁, room, ?_, kept, rfl, rewritten, unused, ?_⟩
    · simp only [create, Pool.allocate, made, stored, withHeap_withHeap]
    · rw [after, contents, Contents.set_set]

/-! ## Changing one link -/

theorem exists_relink {old next : Option NodeRef} (pool : l.pool = ⟨config, .ready heap⟩)
    (sound : heap.Sound cells) (nodup : (front.map Prod.fst).Nodup)
    (chained : Chained heap.contents front old) (head : l.head = headNode front old)
    (linkable : ∀ node, next = some node → node.handle.pack ≠ Handle.noneWord) :
    ∃ heap', l.relink (lastNode front) next =
        (.ok (), { l.withHeap config heap' with head := headNode front next }) ∧
      heap'.Sound cells ∧ heap'.Rewritten heap ∧
      Chained heap'.contents front next ∧
      ∀ node, node ∉ front.map Prod.fst →
        stored heap'.contents node = stored heap.contents node := by
  -- Where there is no entry before, the head changes and no block does.
  rcases List.eq_nil_or_concat front with rfl | ⟨front, ⟨last, w⟩, rfl⟩
  · refine ⟨heap, ?_, sound, .refl heap, trivial, fun _ _ => rfl⟩
    rw [lastNode_nil, relink, withHeap, ← pool]
    rfl
  · rw [List.concat_eq_append] at nodup chained head ⊢
    have found := (chained_append.mp chained).2.1
    obtain ⟨bytes, live, length⟩ := exists_of_stored found
    have shows : heap.contents.Shows l.pool := by
      rw [pool]
      exact sound.shows
    obtain ⟨heap', stored, kept, rewritten, after⟩ :=
      exists_store pool sound live length ⟨w, next⟩
    refine ⟨heap', ?_, kept, rewritten, ?_, ?_⟩
    · have same : headNode (front ++ [(last, w)]) next = l.head := by
        rw [head, headNode_append, headNode_append]
        rfl
      rw [lastNode_concat, relink, setNext, LinkedList.load_eq shows found, same]
      exact stored
    · rw [after, chained_append]
      refine ⟨(chained_append.mp chained).1.set (Layout.not_mem_of_split nodup).1 _, ?_⟩
      exact ⟨stored_set_encode _ _ linkable, trivial⟩
    · intro node absent
      rw [after, stored_set_of_ne]
      rintro rfl
      simp at absent

/-! ## Edits -/

theorem pack_ne_of_live (sound : heap.Sound cells)
    (small : heap.layout.slotCount < UInt32.size) {handle : Handle}
    (live : (heap.contents handle).isSome) : handle.pack ≠ Handle.noneWord := by
  obtain ⟨b, named⟩ := Heap.exists_range?_of_isSome live
  have used := (mem_usedCells.mp (sound.range?_eq_some_iff.mp named).1).1
  have inside := sound.chains.lt_slotCount used
  apply Handle.pack_ne_noneWord
  omega

theorem Holds.linkable (h : l.Holds config heap (front ++ back)) :
    ∀ node, headNode back none = some node → node.handle.pack ≠ Handle.noneWord := by
  intro node leads
  obtain ⟨cells, sound⟩ := h.sound
  apply pack_ne_of_live sound h.small
  cases back with
  | nil => simp at leads
  | cons entry rest =>
      rw [headNode_cons, Option.some.injEq] at leads
      exact h.chained.isSome (by simp [← leads])

theorem Holds.countFailure (h : l.Holds config heap entries) :
    (l.withHeap config heap.countFailure).Holds config heap.countFailure entries := by
  have layout : heap.countFailure.layout = heap.layout := Heap.layout_count ..
  obtain ⟨cells, sound⟩ := h.sound
  constructor
  · rfl
  · exact h.isOpen
  · exact sound.of_change (.countFailure heap cells)
  · rw [layout]
    exact h.small
  · exact h.head
  · exact h.nodup
  · rw [Heap.contents_countFailure]
    exact h.chained

theorem Holds.exists_link (h : l.Holds config heap (front ++ back)) {heap₁ : Heap}
    (sound₁ : heap₁.Sound cells) (small₁ : heap₁.layout.slotCount < UInt32.size)
    (unused : heap.contents node.handle = none)
    (made : heap₁.contents = heap.contents.set node.handle
      (some (Node.encode ⟨value, headNode back none⟩))) :
    ∃ l' heap', (l.withHeap config heap₁).relink (lastNode front) (some node) =
        (.ok (), l') ∧ heap'.Rewritten heap₁ ∧
      l'.Holds config heap' (front ++ (node, value) :: back) := by
  -- Nothing in use had this handle, so filling its block has left the list as it was.
  have absent : node ∉ (front ++ back).map Prod.fst := by
    intro member
    have live := h.chained.isSome member
    simp [unused] at live
  have found : stored heap₁.contents node = some ⟨value, headNode back none⟩ := by
    rw [made]
    exact stored_set_encode _ _ h.linkable
  have chained : Chained heap₁.contents (front ++ back) none := by
    rw [made]
    exact h.chained.set absent _
  have target : ∀ other, some node = some other →
      other.handle.pack ≠ Handle.noneWord := by
    rintro _ ⟨⟩
    exact pack_ne_of_live sound₁ small₁ (isSome_of_stored found)
  have head : (l.withHeap config heap₁).head = headNode front (headNode back none) := by
    rw [head_withHeap, h.head, headNode_append]
  have apart := Layout.disjoint_of_nodup h.nodup
  rw [chained_append] at chained
  obtain ⟨heap', relinked, sound', rewritten, before, same⟩ :=
    exists_relink (pool_withHeap l config heap₁) sound₁ (Layout.nodup_before h.nodup)
      chained.1 head target
  have behind : Chained heap'.contents back none := by
    refine chained.2.congr fun other member => same other ?_
    exact fun first => apart other first member
  refine ⟨_, heap', relinked, rewritten, ?_⟩
  constructor
  · rfl
  · exact h.isOpen
  · exact ⟨cells, sound'⟩
  · rw [rewritten.agrees.layout]
    exact small₁
  · rw [headNode_append, headNode_cons]
  · exact Layout.nodup_split_iff.mpr ⟨absent, h.nodup⟩
  · rw [List.map_append, List.mem_append, not_or] at absent
    rw [chained_append]
    exact ⟨before, (same node absent.1).trans found, behind⟩

theorem Holds.place_cases (h : l.Holds config heap (front ++ back))
    (slots : (l.place (lastNode front) value (headNode back none)).2.pool.slotCount <
      UInt32.size) :
    (heap.largestFree < Node.byteSize ∧
      heap.allocate Node.byteSize = (.error (heap.noRoom Node.byteSize), heap.countFailure) ∧
      ∃ l', l.place (lastNode front) value (headNode back none) =
          (.error (.pool (.allocationFailed Node.byteSize heap.largestFree)), l') ∧
        l'.Holds config heap.countFailure (front ++ back)) ∨
    (Node.byteSize ≤ heap.largestFree ∧
      ∃ node l' heap', l.place (lastNode front) value (headNode back none) =
          (.ok node, l') ∧
        (heap.allocate Node.byteSize).1 = .ok node.handle ∧
        heap'.Rewritten (heap.allocate Node.byteSize).2 ∧
        heap.contents node.handle = none ∧
        l'.Holds config heap' (front ++ (node, value) :: back)) := by
  obtain ⟨cells, sound⟩ := h.sound
  have largest : heap.layout.firstFit? Node.byteSize = none ↔
      heap.largestFree < Node.byteSize :=
    sound.chains.firstFit?_eq_none_iff_largestFree_lt (by decide)
  rw [slotCount_place, h.pool] at slots
  rcases create_cases h.pool sound slots value (headNode back none) with
    ⟨none, created⟩ |
    ⟨node, heap₁, cells₁, room, created, sound₁, given, rewritten, unused, made⟩
  · refine .inl ⟨largest.mp none, Heap.allocate_of_none none,
      l.withHeap config heap.countFailure, ?_, h.countFailure⟩
    rw [place, created]
    rfl
  · rw [Ne, largest, Nat.not_lt] at room
    have small₁ : heap₁.layout.slotCount < UInt32.size := by
      rw [rewritten.agrees.layout]
      exact slots
    obtain ⟨l', heap', linked, same, after⟩ := h.exists_link sound₁ small₁ unused made
    refine .inr ⟨room, node, l', heap', ?_, given, same.trans rewritten, unused, after⟩
    rw [place, created]
    simp only [linked]

theorem Holds.exists_delete (h : l.Holds config heap (front ++ (r, v) :: back))
    (first : v ∉ front.map Prod.snd) :
    ∃ l' heap', l.delete v = (.ok (), l') ∧
      heap'.Rewritten (heap.deallocate r.handle).2 ∧ l'.Holds config heap' (front ++ back) := by
  obtain ⟨cells, sound⟩ := h.sound
  have linkable : ∀ node, headNode back none = some node →
      node.handle.pack ≠ Handle.noneWord := by
    have shifted := h
    rw [List.append_cons] at shifted
    exact shifted.linkable
  have rest := Layout.nodup_split_iff.mp h.nodup
  have chained := chained_append.mp h.chained
  have head : l.head = headNode front (some r) := by
    rw [h.head, headNode_append, headNode_cons]
  have apart := Layout.disjoint_of_nodup rest.2
  -- The node leaves the chain before its block is freed, and no link leads to it then.
  obtain ⟨heap₁, relinked, sound₁, rewritten, chained₁, same⟩ :=
    exists_relink h.pool sound (Layout.nodup_before rest.2) chained.1 head linkable
  have behind : Chained heap₁.contents back none := by
    refine chained.2.2.congr fun other member => same other ?_
    exact fun before => apart other before member
  have live := isSome_of_stored ((same r h.carries.not_mem.1).trans chained.2.1)
  obtain ⟨b, named⟩ := Heap.exists_range?_of_isSome live
  have used := (sound₁.range?_eq_some_iff.mp named).1
  have freed := sound₁.contents_freed named
  have deleted : l.delete v =
      (.ok (), { l.withHeap config (heap₁.freed r.handle.index.toNat) with
        head := headNode front (headNode back none) }) := by
    have freeing := free_eq (l := { l.withHeap config heap₁ with
      head := headNode front (headNode back none) }) rfl named
    rw [delete, h.carries.ensureOpen_eq]
    simp only [h.carries.trail_value first, lastNode_visits, relinked]
    exact freeing
  have books : (heap₁.freed r.handle.index.toNat).Rewritten (heap.deallocate r.handle).2 := by
    rw [Heap.deallocate_eq, ← rewritten.agrees.range? r.handle, named]
    exact rewritten.freed _
  refine ⟨_, heap₁.freed r.handle.index.toNat, deleted, books, ?_⟩
  constructor
  · rfl
  · exact h.isOpen
  · exact sound₁.exists_freed used
  · rw [Heap.slotCount_freed, rewritten.agrees.layout]
    exact h.small
  · rw [headNode_append]
  · exact rest.2
  · rw [freed]
    exact (chained_append.mpr ⟨chained₁, behind⟩).set rest.1 none

end BlockPool.LinkedList
