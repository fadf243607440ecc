import Mathlib.Data.List.Infix
import BlockPool.Proofs.LinkedList.Client
import BlockPool.Proofs.Pool.Ledger

/-!
# Settings that do not show

Two lists whose pools differ only in fill patterns and in whether operations
are counted answer a script alike, as long as the script keeps to its own
blocks and to nodes that it was given.  A ledger of the pool below the first
list says that a node which has been taken out is never mistaken for a block
that somebody got later.
-/

namespace BlockPool

open Layout

/-! ## Pools below agreeing heaps -/

namespace Pool

theorem retired_of_closed (config : Config) (requests : List Request) :
    (⟨config, .closed⟩ : Pool).retired requests = [] := by
  induction requests with
  | nil => rfl
  | cons request rest ih =>
      have same : ((⟨config, .closed⟩ : Pool).perform request).2 = ⟨config, .closed⟩ := by
        cases request <;> rfl
      rw [retired, same, ih]
      rfl

end Pool

namespace Heap.Agrees

variable {heap heap' : Heap} {config config' : Config} {l : Ledger} {log : List Nat}

theorem retiring (h : heap.Agrees heap') (request : Pool.Request) :
    heap.retiring request = heap'.retiring request := by
  cases request with
  | deallocate handle => simp only [Heap.retiring, h.range? handle, h.layout, h.coalesce]
  | resize handle size =>
      have claimed (target : Nat) : (heap.claimAt target size).layout =
          (heap'.claimAt target size).layout := (h.claimAt target size).layout
      simp only [Heap.retiring, h.range? handle, h.layout, h.coalesce, claimed]
  | _ => rfl

theorem retired (h : heap.Agrees heap') (config config' : Config)
    (requests : List Pool.Request) :
    (⟨config, .ready heap⟩ : Pool).retired requests =
      (⟨config', .ready heap'⟩ : Pool).retired requests := by
  induction requests generalizing heap heap' with
  | nil => rfl
  | cons request rest ih =>
      by_cases closing : request = .close
      · subst closing
        exact (Pool.retired_of_closed config rest).trans
          (Pool.retired_of_closed config' rest).symm
      · rw [Pool.retired_cons closing, Pool.retired_cons closing, h.retiring,
          ih (h.serve request)]

theorem tracks (h : heap.Agrees heap') (tracks : l.Tracks log heap) : l.Tracks log heap' where
  generation slot := h.layout ▸ tracks.generation slot
  held handle := h.isSome_contents handle ▸ tracks.held handle
  spent := tracks.spent
  once := tracks.once

end Heap.Agrees

/-! ## Handles that were given back -/

namespace Ledger

theorem owned_note {l : Ledger} (owned : ∀ handle ∈ l.held, handle ∈ l.issued)
    (entry : Pool.Request × Except PoolError Pool.Reply) :
    ∀ handle ∈ (l.note entry).held, handle ∈ (l.note entry).issued := by
  unfold note
  split
  · intro handle member
    exact List.mem_cons.mpr ((List.mem_cons.mp member).imp_right (owned handle))
  · exact fun handle member => owned handle (List.mem_filter.mp member).1
  · split
    · exact owned
    · intro handle member
      refine List.mem_cons.mpr ((List.mem_cons.mp member).imp_right fun kept => ?_)
      exact owned handle (List.mem_filter.mp kept).1
  · exact owned

theorem spent_note {l : Ledger} {handle : Handle} (issued : handle ∈ l.issued)
    (back : handle ∉ l.held) {entry : Pool.Request × Except PoolError Pool.Reply}
    (once : (l.note entry).issued.Nodup) :
    handle ∈ (l.note entry).issued ∧ handle ∉ (l.note entry).held := by
  have other {new : Handle} (once : (new :: l.issued).Nodup) : handle ≠ new := by
    rintro rfl
    exact (List.nodup_cons.mp once).1 issued
  revert once
  unfold note
  split
  · intro once
    refine ⟨List.mem_cons_of_mem _ issued, fun member => ?_⟩
    exact (List.mem_cons.mp member).elim (other once) back
  · exact fun _ => ⟨issued, fun member => back (List.mem_filter.mp member).1⟩
  · split
    · exact fun _ => ⟨issued, back⟩
    · intro once
      refine ⟨List.mem_cons_of_mem _ issued, fun member => ?_⟩
      rcases List.mem_cons.mp member with new | kept
      · exact other once new
      · exact back (List.mem_filter.mp kept).1
  · exact fun _ => ⟨issued, back⟩

end Ledger

/-! ## Nodes in requests and answers -/

namespace LinkedList

def Request.refs : Request → List NodeRef
  | .insertAfter node _ => [node]
  | .insertBefore node _ => [node]
  | .displayRange start stop => start.toList ++ stop.toList
  | .value node => [node]
  | .next node => [node]
  | _ => []

def Answer.refs : Answer → List NodeRef
  | .ofList (.ok (.node node)) => [node]
  | .ofList (.ok (.link (some node))) => [node]
  | _ => []

def Request.asksConfig : Request → Bool
  | .onPool below => below.asksConfig
  | _ => false

def Reply.blot : Reply → Reply
  | .statistics account => .statistics account.blot
  | reply => reply

/-- An answer with the operation counters and the bytes that the pool read blotted out. -/
def Answer.blot : Answer → Answer
  | .ofList result => .ofList (result.map Reply.blot)
  | .ofPool result => .ofPool (result.map Pool.Reply.blot)

end LinkedList

namespace Sequence

open LinkedList (Request)

instance decidableAllows (s : Sequence) : ∀ request : Request, Decidable (s.Allows request)
  | .cleanup => inferInstanceAs (Decidable False)
  | .onPool request =>
      inferInstanceAs (Decidable (request ≠ .close ∧
        ∀ node ∈ s.nodes, request.isQuery = true ∨ request.handle? ≠ some node.handle))
  | .insert _ | .insertAfter _ _ | .insertBefore _ _ | .delete _ | .search _
  | .displayRange _ _ | .display | .length | .values | .first | .value _ | .next _ =>
      inferInstanceAs (Decidable True)

variable {s front back : Sequence} {p : Pool} {node : NodeRef} {value : UInt16}

theorem mem_nodes_grown (member : node ∈ nodes (front ++ back)) :
    node ∈ (grown p front value back).nodes := by
  unfold grown
  split
  · exact member
  · simp only [nodes, List.map_append, List.map_cons, List.mem_append, List.mem_cons]
      at member ⊢
    exact member.imp_right .inr

theorem refs_created (p : Pool) (front : Sequence) (value : UInt16) (back : Sequence) :
    ∀ node ∈ (LinkedList.Answer.ofList (created p)).refs,
      node ∈ (grown p front value back).nodes := by
  unfold created grown
  cases (p.allocate Node.byteSize).1 with
  | error error => exact nofun
  | ok handle =>
      intro node member
      cases List.mem_singleton.mp member
      simp [nodes]

theorem refs_answer (s : Sequence) (p : Pool) {request : Request}
    (stays : request ≠ .cleanup) :
    ∀ node ∈ (s.answer p request).refs, node ∈ (s.next p request).nodes := by
  cases request with
  | insert value => exact refs_created p _ value _
  | insertAfter r value =>
      rw [answer, next]
      split
      · exact refs_created p _ value _
      · exact List.forall_mem_nil _
  | insertBefore r value =>
      rw [answer, next]
      split
      · exact refs_created p _ value _
      · exact List.forall_mem_nil _
  | delete v =>
      rw [answer]
      split <;> exact List.forall_mem_nil _
  | search v =>
      intro node member
      rw [answer] at member
      cases found : s.find? fun entry => entry.2 = v with
      | none =>
          rw [found] at member
          cases member
      | some entry =>
          rw [found] at member
          cases List.mem_singleton.mp member
          exact List.mem_map_of_mem (List.mem_of_find?_eq_some found)
  | displayRange start stop =>
      cases start with
      | none => exact List.forall_mem_nil _
      | some r =>
          rw [answer]
          split <;> exact List.forall_mem_nil _
  | first =>
      intro node member
      rw [answer] at member
      cases found : s.nodes.head? with
      | none =>
          rw [found] at member
          cases member
      | some first =>
          rw [found] at member
          cases List.mem_singleton.mp member
          exact List.mem_of_head? found
  | value r =>
      rw [answer]
      split <;> exact List.forall_mem_nil _
  | next r =>
      intro node member
      rw [answer] at member
      split at member
      · cases member
      · next entry rest onward =>
          cases found : (nodes rest).head? with
          | none =>
              rw [found] at member
              cases member
          | some following =>
              rw [found] at member
              cases List.mem_singleton.mp member
              obtain ⟨other, there, rfl⟩ := List.mem_map.mp (List.mem_of_head? found)
              have among : other ∈ s.onward r := onward ▸ List.mem_cons_of_mem _ there
              exact List.mem_map_of_mem ((List.dropWhile_suffix _).subset among)
  | cleanup => exact absurd rfl stays
  | _ => exact List.forall_mem_nil _

theorem mem_nodes_next (p : Pool) {request : Request} (stays : request ≠ .cleanup)
    (member : node ∈ s.nodes) :
    node ∈ (s.next p request).nodes ∨ s.demand request = [.deallocate node.handle] := by
  cases request with
  | insert value =>
      refine .inl (mem_nodes_grown ?_)
      rwa [List.append_nil]
  | insertAfter r value =>
      rw [next]
      split
      · refine .inl (mem_nodes_grown ?_)
        rwa [List.append_assoc, List.take_append_drop, before_append_onward]
      · exact .inl member
  | insertBefore r value =>
      rw [next]
      split
      · refine .inl (mem_nodes_grown ?_)
        rwa [before_append_onward]
      · exact .inl member
  | delete v =>
      rcases LinkedList.exists_first_value s v with absent | ⟨before, r, after, rfl, first⟩
      · rw [next, eraseP_of_missing absent]
        exact .inl member
      · rw [next, demand, eraseP_of_first first, find?_of_first first]
        simp only [nodes, List.map_append, List.map_cons, List.mem_append, List.mem_cons]
          at member ⊢
        rcases member with front | rfl | back
        · exact .inl (.inl front)
        · exact .inr rfl
        · exact .inl (.inr back)
  | cleanup => exact absurd rfl stays
  | _ => exact .inl member

theorem demand_le_one {request : Request} (allowed : s.Allows request) :
    s.demand request = [] ∨
      ∃ asked, s.demand request = [asked] ∧ asked ≠ .close := by
  by_cases own : request.isOwn = true
  · rcases s.demand_cases own with none | one | ⟨handle, one⟩
    · exact .inl none
    · exact .inr ⟨_, one, nofun⟩
    · exact .inr ⟨_, one, nofun⟩
  · cases request with
    | cleanup => exact allowed.elim
    | onPool below => exact .inr ⟨below, rfl, allowed.1⟩
    | _ => exact absurd rfl own

end Sequence

namespace LinkedList

variable {l l' : LinkedList} {config config' : Config} {heap heap' : Heap} {s : Sequence}
  {refs : List NodeRef} {ledger : Ledger} {log : List Nat} {request : Request}

/-! ## Clients that mind the list -/

/-- Whether a request only names nodes that were in answers and, where it goes to the
pool, is neither about a node's block nor about the configuration. -/
def Minds (l : LinkedList) (refs : List NodeRef) (request : Request) : Prop :=
  request.asksConfig = false ∧ (∀ node ∈ request.refs, node ∈ refs) ∧
    ∀ s ∈ l.entries.toOption, request = .cleanup ∨ s.Allows request

def Careful (l : LinkedList) (refs : List NodeRef) : List Request → Prop
  | [] => True
  | request :: rest =>
      l.Minds refs request ∧
        (l.perform request).2.Careful (refs ++ (l.perform request).1.refs) rest

instance decidableMinds (l : LinkedList) (refs : List NodeRef) (request : Request) :
    Decidable (l.Minds refs request) :=
  inferInstanceAs (Decidable (_ ∧ _ ∧ _))

instance decidableCareful : (l : LinkedList) → (refs : List NodeRef) →
    (requests : List Request) → Decidable (l.Careful refs requests)
  | _, _, [] => inferInstanceAs (Decidable True)
  | l, refs, request :: rest =>
      have := decidableCareful (l.perform request).2
        (refs ++ (l.perform request).1.refs) rest
      inferInstanceAs (Decidable (_ ∧ _))

/-- A list with a ledger of its pool and with the nodes that were in its answers: those
that are not in it any more have been freed for good. -/
structure Attended (l : LinkedList) (config : Config) (heap : Heap) (s : Sequence)
    (refs : List NodeRef) (ledger : Ledger) (log : List Nat) : Prop where
  holds : l.Holds config heap s
  tracks : ledger.Tracks log heap
  owned : ∀ handle ∈ ledger.held, handle ∈ ledger.issued
  known : ∀ node ∈ refs,
    node ∈ s.nodes ∨ node.handle ∈ ledger.issued ∧ node.handle ∉ ledger.held

theorem Attended.loads (h : l.Attended config heap s refs ledger log)
    (given : ∀ node ∈ request.refs, node ∈ refs) (r : NodeRef)
    (loads : request.loads? = some r) : r ∈ s.nodes ∨ heap.contents r.handle = none := by
  have named : r ∈ request.refs := by
    cases request <;> cases loads <;> exact List.mem_singleton_self _
  rcases h.known r (given r named) with member | ⟨_, back⟩
  · exact .inl member
  · exact .inr (by simpa using mt (h.tracks.held r.handle).mpr back)

theorem Attended.spent_freed (h : l.Attended config heap s refs ledger log)
    {node : NodeRef} (member : node ∈ s.nodes) :
    node.handle ∈ (ledger.note (.deallocate node.handle,
        (l.pool.perform (.deallocate node.handle)).1)).issued ∧
      node.handle ∉ (ledger.note (.deallocate node.handle,
        (l.pool.perform (.deallocate node.handle)).1)).held := by
  have live := h.holds.chained.isSome member
  obtain ⟨b, named⟩ := Heap.exists_range?_of_isSome live
  rw [h.holds.pool, Pool.perform_deallocate named]
  refine ⟨h.owned _ ((h.tracks.held _).mpr live), fun held => ?_⟩
  simpa using (List.mem_filter.mp held).2

theorem Attended.perform (h : l.Attended config heap s refs ledger log)
    (obeys : l.Obeys config heap s request) (allowed : s.Allows request)
    (few : ∀ slot, (log ++ l.pool.retired (s.demand request)).count slot < UInt32.size) :
    ∃ heap' ledger', (l.perform request).2.Attended config heap' (s.next l.pool request)
        (refs ++ (l.perform request).1.refs) ledger'
        (log ++ l.pool.retired (s.demand request)) ∧
      heap'.Agrees ((s.demand request).foldl Heap.serve heap) := by
  obtain ⟨answered, heap', holds, agrees⟩ := obeys
  have stays : request ≠ .cleanup := by
    rintro rfl
    exact allowed
  have kept (node : NodeRef) (member : node ∈ s.nodes) :=
    Sequence.mem_nodes_next l.pool stays member
  have given := answered ▸ Sequence.refs_answer s l.pool stays
  rcases Sequence.demand_le_one allowed with none | ⟨asked, one, isOpen⟩
  · rw [none] at few kept agrees ⊢
    rw [Pool.retired, List.append_nil]
    refine ⟨heap', ledger, ⟨holds, agrees.symm.tracks h.tracks, h.owned, ?_⟩, agrees⟩
    intro node member
    rcases List.mem_append.mp member with old | new
    · refine (h.known node old).imp_left fun there => ?_
      exact (kept node there).resolve_right (List.cons_ne_nil _ _).symm
    · exact .inl (given node new)
  · rw [one] at few kept agrees ⊢
    obtain ⟨cells, sound⟩ := h.holds.sound
    have slots : (heap.serve asked).layout.slotCount < UInt32.size :=
      agrees.layout ▸ holds.small
    have retires : l.pool.retired [asked] = heap.retiring asked := by
      rw [h.holds.pool, Pool.retired_cons isOpen]
      exact List.append_nil _
    rw [retires] at few ⊢
    have noted : (ledger.note (asked, (l.pool.perform asked).1)).Tracks
        (log ++ heap.retiring asked) (heap.serve asked) := by
      rw [h.holds.pool]
      exact h.tracks.note sound isOpen slots few
    refine ⟨heap', _, ⟨holds, agrees.symm.tracks noted, Ledger.owned_note h.owned _, ?_⟩,
      agrees⟩
    intro node member
    rcases List.mem_append.mp member with old | new
    · rcases h.known node old with there | ⟨issued, back⟩
      · refine (kept node there).imp_right fun freed => ?_
        cases List.cons.inj freed |>.1
        exact h.spent_freed there
      · exact .inr (Ledger.spent_note issued back noted.once)
    · exact .inl (given node new)

end LinkedList

end BlockPool
