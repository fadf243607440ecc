import BlockPool.LinkedList.Basic
import BlockPool.Proofs.LinkedList.Node
import BlockPool.Proofs.Pool.Refinement

/-!
# Lists stored in a map of byte strings

A map of byte strings chains a list of entries if the block of each node holds
its value and the link to the node behind it.  Following the links of such a
list visits the entries in order and ends, since their nodes are blocks in use
and there are no more of these than slots.
-/

namespace BlockPool

abbrev Entry := NodeRef × UInt16

namespace LinkedList

def stored (m : Contents) (node : NodeRef) : Option Node :=
  match m node.handle with
  | none => none
  | some bytes => if bytes.length = Node.byteSize then Node.decode bytes else none

theorem stored_congr {m m' : Contents} {node : NodeRef}
    (same : m' node.handle = m node.handle) : stored m' node = stored m node := by
  rw [stored, stored, same]

theorem exists_of_stored {m : Contents} {node : NodeRef} {contents : Node}
    (found : stored m node = some contents) :
    ∃ bytes, m node.handle = some bytes ∧ bytes.length = Node.byteSize := by
  rw [stored] at found
  cases live : m node.handle with
  | none => simp [live] at found
  | some bytes =>
      simp only [live] at found
      split at found
      · next length => exact ⟨bytes, rfl, length⟩
      · cases found

theorem isSome_of_stored {m : Contents} {node : NodeRef} {contents : Node}
    (found : stored m node = some contents) : (m node.handle).isSome := by
  obtain ⟨bytes, live, _⟩ := exists_of_stored found
  simp [live]

theorem stored_set_of_ne (m : Contents) {node other : NodeRef}
    (bytes : Option (List UInt8)) (distinct : other ≠ node) :
    stored (m.set node.handle bytes) other = stored m other := by
  apply stored_congr
  apply Contents.set_of_ne
  intro same
  apply distinct
  cases node
  cases other
  exact congrArg NodeRef.mk same

theorem stored_set_encode (m : Contents) (node : NodeRef) {contents : Node}
    (linkable : contents.Linkable) :
    stored (m.set node.handle (some contents.encode)) node = some contents := by
  simp [stored, Node.decode_encode linkable]

/-! ## Chains of nodes -/

def headNode : List Entry → Option NodeRef → Option NodeRef
  | [], next => next
  | (node, _) :: _, _ => some node

@[simp] theorem headNode_nil (next : Option NodeRef) : headNode [] next = next := rfl

@[simp] theorem headNode_cons (entry : Entry) (rest : List Entry)
    (next : Option NodeRef) : headNode (entry :: rest) next = some entry.1 := rfl

@[simp] theorem headNode_append (xs ys : List Entry) (next : Option NodeRef) :
    headNode (xs ++ ys) next = headNode xs (headNode ys next) := by
  cases xs <;> rfl

theorem headNode_eq_head? (entries : List Entry) :
    headNode entries none = entries.head?.map Prod.fst := by
  cases entries <;> rfl

def Chained (m : Contents) : List Entry → Option NodeRef → Prop
  | [], _ => True
  | (node, value) :: rest, next =>
      stored m node = some ⟨value, headNode rest next⟩ ∧ Chained m rest next

variable {m m' : Contents} {entries front back : List Entry} {next : Option NodeRef}

theorem chained_append :
    Chained m (front ++ back) next ↔
      Chained m front (headNode back next) ∧ Chained m back next := by
  induction front with
  | nil => simp [Chained]
  | cons entry front ih => simp [Chained, ih, and_assoc]

theorem Chained.congr (h : Chained m entries next)
    (same : ∀ node ∈ entries.map Prod.fst, stored m' node = stored m node) :
    Chained m' entries next := by
  induction entries with
  | nil => trivial
  | cons entry rest ih =>
      refine ⟨?_, ih h.2 fun node member => same node (by simp [member])⟩
      rw [same entry.1 (by simp)]
      exact h.1

theorem Chained.set (h : Chained m entries next) {node : NodeRef}
    (absent : node ∉ entries.map Prod.fst) (bytes : Option (List UInt8)) :
    Chained (m.set node.handle bytes) entries next := by
  apply h.congr
  intro other member
  apply stored_set_of_ne
  rintro rfl
  exact absent member

theorem Chained.isSome (h : Chained m entries next) {node : NodeRef}
    (member : node ∈ entries.map Prod.fst) : (m node.handle).isSome := by
  obtain ⟨⟨node, value⟩, entry, rfl⟩ := List.mem_map.mp member
  obtain ⟨before, after, rfl⟩ := List.append_of_mem entry
  exact isSome_of_stored (chained_append.mp h).2.1

/-! ## Following a chain -/

def visits : List Entry → Option NodeRef → List (NodeRef × Node)
  | [], _ => []
  | (node, value) :: rest, next =>
      (node, ⟨value, headNode rest next⟩) :: visits rest next

theorem visits_append (front back : List Entry) (next : Option NodeRef) :
    visits (front ++ back) next = visits front (headNode back next) ++ visits back next := by
  induction front with
  | nil => rfl
  | cons entry front ih => simp [visits, ih]

@[simp] theorem map_fst_visits (entries : List Entry) (next : Option NodeRef) :
    (visits entries next).map Prod.fst = entries.map Prod.fst := by
  induction entries with
  | nil => rfl
  | cons entry rest ih => simp [visits, ih]

@[simp] theorem map_value_visits (entries : List Entry) (next : Option NodeRef) :
    (visits entries next).map (fun visit => visit.2.value) = entries.map Prod.snd := by
  induction entries with
  | nil => rfl
  | cons entry rest ih => simp [visits, ih]

variable {l : LinkedList}

theorem load_eq (shows : m.Shows l.pool) {node : NodeRef} {contents : Node}
    (found : stored m node = some contents) : l.load node = .ok contents := by
  rw [stored] at found
  cases live : m node.handle with
  | none => simp [live] at found
  | some bytes =>
      simp only [live] at found
      split at found
      · next length =>
          have read := shows.readAt _ _ 0 Node.byteSize live
          rw [if_pos (by omega), List.drop_zero, ← length, List.take_length] at read
          rw [load, ← length, read]
          simp only [found]
      · cases found

theorem ensureOpen_of_open (isOpen : l.closed = false) : l.ensureOpen = .ok () := by
  simp [ensureOpen, isOpen]

/-! ## Links as they are loaded -/

theorem load_ne_endless (l : LinkedList) (node : NodeRef) :
    l.load node ≠ .error .endless := by
  unfold load
  cases l.pool.readAt node.handle 0 Node.byteSize with
  | error error => cases error <;> exact nofun
  | ok bytes =>
      simp only
      split <;> exact nofun

inductive Followed (l : LinkedList) (stop : NodeRef → Node → Bool) :
    Nat → Option NodeRef → Except ListError Trail → Prop where
  | ended (steps : Nat) : Followed l stop steps none (.ok ⟨[], none⟩)
  | exhausted (node : NodeRef) : Followed l stop 0 (some node) (.error .endless)
  | lost (steps : Nat) (node : NodeRef) (error : ListError)
      (failed : l.load node = .error error) :
      Followed l stop (steps + 1) (some node) (.error error)
  | hit (steps : Nat) (node : NodeRef) (contents : Node)
      (loaded : l.load node = .ok contents) (stopped : stop node contents = true) :
      Followed l stop (steps + 1) (some node) (.ok ⟨[], some (node, contents)⟩)
  | passed (steps : Nat) (node : NodeRef) (contents : Node)
      (loaded : l.load node = .ok contents) (going : stop node contents = false)
      (result : Except ListError Trail) (further : Followed l stop steps contents.next result) :
      Followed l stop (steps + 1) (some node)
        (result.map fun trail => { trail with passed := (node, contents) :: trail.passed })

theorem followed (l : LinkedList) (stop : NodeRef → Node → Bool) (steps : Nat)
    (start : Option NodeRef) : l.Followed stop steps start (l.follow stop steps start) := by
  induction steps generalizing start with
  | zero =>
      cases start with
      | none => exact .ended 0
      | some node => exact .exhausted node
  | succ steps ih =>
      cases start with
      | none => exact .ended (steps + 1)
      | some node =>
          rw [follow]
          cases loaded : l.load node with
          | error error => exact .lost steps node error loaded
          | ok contents =>
              cases stopped : stop node contents with
              | true =>
                  simp only [stopped, if_true]
                  exact .hit steps node contents loaded stopped
              | false =>
                  have going := Followed.passed steps node contents loaded stopped _
                    (ih contents.next)
                  cases further : l.follow stop steps contents.next <;>
                    simpa [further, stopped, Except.map] using going

/-- Loaded one after the other, the nodes of some entries hold their values and lead to
each other, and the last one leads to `next`. -/
def Leads (l : LinkedList) : List Entry → Option NodeRef → Prop
  | [], _ => True
  | (node, value) :: rest, next =>
      l.load node = .ok ⟨value, headNode rest next⟩ ∧ l.Leads rest next

theorem leads_append :
    l.Leads (front ++ back) next ↔
      l.Leads front (headNode back next) ∧ l.Leads back next := by
  induction front with
  | nil => simp [Leads]
  | cons entry front ih => simp [Leads, ih, and_assoc]

theorem Chained.leads (chained : Chained m entries next) (shows : m.Shows l.pool) :
    l.Leads entries next := by
  induction entries with
  | nil => trivial
  | cons entry rest ih => exact ⟨load_eq shows chained.1, ih chained.2⟩

theorem Leads.follow_eq (leads : l.Leads entries none) (stop : NodeRef → Node → Bool)
    {steps : Nat} (enough : entries.length ≤ steps) :
    l.follow stop steps (headNode entries none) =
      .ok ⟨(visits entries none).takeWhile fun visit => !stop visit.1 visit.2,
        (visits entries none).find? fun visit => stop visit.1 visit.2⟩ := by
  -- A step is left for each entry, so the links come to their end before the steps do.
  induction entries generalizing steps with
  | nil => simp [visits]
  | cons entry rest ih =>
      cases steps with
      | zero => simp at enough
      | succ steps =>
          have tail := ih leads.2 (Nat.le_of_succ_le_succ enough)
          simp only [headNode_cons, follow, leads.1, visits]
          cases stopped : stop entry.1 ⟨entry.2, headNode rest none⟩ with
          | true => simp [stopped]
          | false => simp [stopped, tail]

end LinkedList

end BlockPool
