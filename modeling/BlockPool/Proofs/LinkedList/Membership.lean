import BlockPool.Proofs.LinkedList.Cleanup
import BlockPool.Proofs.LinkedList.Settings

/-!
# Nodes that are not in the list

Requests that put something beside a node, or show the values from it on, look
for it among the members first.  Reading the value or the link of a node only
loads its block: what is not in use is noticed, but a block of another client
is read as if it were a node.
-/

namespace BlockPool

def LinkedList.Request.seeks? : LinkedList.Request → Option NodeRef
  | .insertAfter node _ => some node
  | .insertBefore node _ => some node
  | .displayRange start _ => start
  | _ => none

namespace Sequence

open LinkedList (Request)

def after (s : Sequence) (l : LinkedList) : List Request → Sequence
  | [] => s
  | request :: rest => (s.next l.pool request).after (l.perform request).2 rest

/-- Whatever is done to the list and to other blocks, no block of a node is freed, resized
or written, the pool is not closed behind the list, and the slots can be numbered. -/
def Spares (s : Sequence) (l : LinkedList) : List Request → Prop
  | [] => True
  | request :: rest =>
      (request = .cleanup ∨ s.Allows request) ∧
        (l.perform request).2.pool.slotCount < UInt32.size ∧
        (s.next l.pool request).Spares (l.perform request).2 rest

instance decidableSpares (s : Sequence) (l : LinkedList) :
    ∀ requests : List Request, Decidable (s.Spares l requests)
  | [] => inferInstanceAs (Decidable True)
  | request :: rest =>
      have := decidableSpares (s.next l.pool request) (l.perform request).2 rest
      inferInstanceAs (Decidable ((request = .cleanup ∨ s.Allows request) ∧
        (l.perform request).2.pool.slotCount < UInt32.size ∧
        (s.next l.pool request).Spares (l.perform request).2 rest))

end Sequence

namespace Contents

variable {m : Contents} {node other : NodeRef}

theorem inspect_ne_nodeNotFound (live : (m node.handle).isSome) (other : NodeRef) :
    m.inspect node ≠ .error (.nodeNotFound other) := by
  obtain ⟨bytes, held⟩ := Option.isSome_iff_exists.mp live
  rw [inspect, held]
  simp only
  split <;> rintro ⟨⟩

end Contents

namespace LinkedList

variable {l : LinkedList} {config : Config} {heap : Heap} {cells : List Cell}
  {s : Sequence} {r : NodeRef} {request : Request}

/-! ## One request -/

structure Recognises (l : LinkedList) (s : Sequence) : Prop where
  entries : l.entries = .ok s
  sought : ∀ request r, request.seeks? = some r → r ∉ s.nodes →
    l.perform request = (.ofList (.error (.nodeNotFound r)), l)
  member : ∀ request r, request.seeks? = some r ∨ request.loads? = some r → r ∈ s.nodes →
    (l.perform request).2.pool.slotCount < UInt32.size →
    ∀ other, (l.perform request).1 ≠ .ofList (.error (.nodeNotFound other))
  loaded : ∃ m : Contents, m.Shows l.pool ∧ (∀ node ∈ s.nodes, (m node.handle).isSome) ∧
    ∀ r,
      l.perform (.value r) = (.ofList ((m.inspect r).map fun node => .value node.value), l) ∧
      l.perform (.next r) = (.ofList ((m.inspect r).map fun node => .link node.next), l)

theorem Holds.sought (h : l.Holds config heap s) (seeks : request.seeks? = some r)
    (absent : r ∉ s.nodes) : l.perform request = (.ofList (.error (.nodeNotFound r)), l) := by
  cases request with
  | insertAfter node value => exact h.perform_beside_of_not_mem seeks absent
  | insertBefore node value => exact h.perform_beside_of_not_mem seeks absent
  | displayRange start stop =>
      obtain rfl : start = some r := seeks
      rw [perform, h.carries.displayRange_of_not_mem absent]
      rfl
  | _ => cases seeks

theorem created_ne_nodeNotFound (p : Pool) (node : NodeRef) :
    Sequence.created p ≠ .error (.nodeNotFound node) := by
  unfold Sequence.created
  split <;> exact nofun

theorem Holds.loaded (h : l.Holds config heap s) (r : NodeRef) :
    l.perform (.value r) =
        (.ofList ((heap.contents.inspect r).map fun node => .value node.value), l) ∧
      l.perform (.next r) =
        (.ofList ((heap.contents.inspect r).map fun node => .link node.next), l) := by
  have loaded := load_eq_inspect h.shows r
  rw [perform, perform, value, next, h.carries.ensureOpen_eq, loaded]
  cases heap.contents.inspect r <;> exact ⟨rfl, rfl⟩

theorem Holds.sought_member (h : l.Holds config heap s) (seeks : request.seeks? = some r)
    (member : r ∈ s.nodes) (slots : (l.perform request).2.pool.slotCount < UInt32.size)
    (other : NodeRef) :
    (l.perform request).1 ≠ .ofList (.error (.nodeNotFound other)) := by
  cases request with
  | insertAfter node value =>
      cases seeks
      rw [(h.insertAfter_obeys slots).1, Sequence.answer, if_pos member, Ne, Answer.ofList.injEq]
      exact created_ne_nodeNotFound _ _
  | insertBefore node value =>
      cases seeks
      rw [(h.insertBefore_obeys slots).1, Sequence.answer, if_pos member, Ne, Answer.ofList.injEq]
      exact created_ne_nodeNotFound _ _
  | displayRange start stop =>
      obtain rfl : start = some r := seeks
      rw [(h.asked_obeys rfl (by rintro _ ⟨⟩)).1, Sequence.answer, if_pos member]
      rintro ⟨⟩
  | _ => cases seeks

theorem Holds.loaded_member (h : l.Holds config heap s) (loads : request.loads? = some r)
    (member : r ∈ s.nodes) (other : NodeRef) :
    (l.perform request).1 ≠ .ofList (.error (.nodeNotFound other)) := by
  have live := Contents.inspect_ne_nodeNotFound (h.chained.isSome member) other
  cases request with
  | value node =>
      cases loads
      rw [(h.loaded r).1, Ne, Answer.ofList.injEq]
      exact map_ne_error _ live
  | next node =>
      cases loads
      rw [(h.loaded r).2, Ne, Answer.ofList.injEq]
      exact map_ne_error _ live
  | _ => cases loads

theorem Holds.recognises (h : l.Holds config heap s) : l.Recognises s where
  entries := h.entries_eq
  sought _ _ seeks absent := h.sought seeks absent
  member _ _ about member slots other :=
    about.elim (h.sought_member · member slots other) (h.loaded_member · member other)
  loaded := ⟨heap.contents, h.shows, fun _ member => h.chained.isSome member, h.loaded⟩

/-! ## Runs -/

theorem Holds.next (h : l.Holds config heap s) (allowed : s.Allows request)
    (slots : (l.perform request).2.pool.slotCount < UInt32.size) :
    ∃ heap', (l.perform request).2.Holds config heap' (s.next l.pool request) := by
  cases loads : request.loads? with
  | none =>
      obtain ⟨_, heap', after, _⟩ := h.obeys allowed (by simp [loads]) slots
      exact ⟨heap', after⟩
  | some r =>
      cases request <;> cases loads <;> exact ⟨heap, h⟩

theorem holds_after {requests : List Request}
    (h : (∃ config heap, l.Holds config heap s) ∨ l.closed = true)
    (spared : s.Spares l requests) :
    (∃ config heap, (l.run requests).2.Holds config heap (s.after l requests)) ∨
      (l.run requests).2.closed = true := by
  induction requests generalizing l s with
  | nil => exact h
  | cons request rest ih =>
      obtain ⟨careful, slots, spared⟩ := spared
      refine ih ?_ spared
      rcases h with ⟨config, heap, h⟩ | closed
      · rcases careful with rfl | allowed
        · have cleaned := congrArg Prod.snd h.perform_cleanup
          exact .inr (congrArg LinkedList.closed cleaned)
        · obtain ⟨heap', after⟩ := h.next allowed slots
          exact .inl ⟨config, heap', after⟩
      · exact .inr (closed_perform closed request)

/-- A list in use takes no other nodes for its own where it looks for them; the value and
the link of a node are read from any block in use that is large enough. -/
theorem run_recognises {pool : Pool} {size : Nat} {l l' : LinkedList}
    {requests : List Request} (opened : ofPool pool size = .ok l)
    (reached : (l.run requests).2 = l') (spared : Sequence.Spares [] l requests) :
    (l'.closed = false → l'.Recognises (Sequence.after [] l requests)) ∧
    (l'.closed = true → ∀ request, (∀ below, request ≠ .onPool below) →
      l'.perform request = (.ofList (.error .closed), l')) := by
  obtain ⟨config, rfl⟩ := eq_of_ofPool opened
  subst reached
  refine ⟨fun isOpen => ?_, fun closed _ own => perform_of_closed closed own⟩
  rcases holds_after (.inl ⟨_, _, holds_ofSize config size⟩) spared with ⟨_, _, h⟩ | closed
  · exact h.recognises
  · rw [isOpen] at closed
    cases closed

theorem run_recognises_mixed :
    ∃ l l', ofPool ⟨.debug, .uninitialized⟩ 64 = .ok l ∧
      (l.run [.insert 5, .onPool (.allocate 16), .insertAfter ⟨⟨0, 0⟩⟩ 6, .delete 5]).2 = l' ∧
      l'.Recognises [(⟨⟨2, 0⟩⟩, 6)] := by
  have opened : ofPool ⟨.debug, .uninitialized⟩ 64 =
      .ok ⟨⟨.debug, .ready (.ofSize 64 .debug)⟩, none, false⟩ := rfl
  have spared : Sequence.Spares [] ⟨⟨.debug, .ready (.ofSize 64 .debug)⟩, none, false⟩
      [.insert 5, .onPool (.allocate 16), .insertAfter ⟨⟨0, 0⟩⟩ 6, .delete 5] := by
    decide +kernel
  exact ⟨_, _, opened, rfl, (run_recognises opened rfl spared).1 (by decide +kernel)⟩

/-- A block of another client, filled with the byte that marks what is not written yet, is
read as a node. -/
theorem value_reads_foreign_block :
    ∃ l l', ofPool ⟨.debug, .uninitialized⟩ 64 = .ok l ∧
      (l.run [.insert 5, .onPool (.allocate 16)]).2 = l' ∧
      Sequence.Spares [] l [.insert 5, .onPool (.allocate 16)] ∧
      l'.entries.toOption = some [(⟨⟨0, 0⟩⟩, 5)] ∧
      l'.value ⟨⟨1, 0⟩⟩ = .ok 48059 := by
  have opened : ofPool ⟨.debug, .uninitialized⟩ 64 =
      .ok ⟨⟨.debug, .ready (.ofSize 64 .debug)⟩, none, false⟩ := rfl
  exact ⟨_, _, opened, rfl, by decide +kernel, by decide +kernel, by decide +kernel⟩

end LinkedList

end BlockPool
