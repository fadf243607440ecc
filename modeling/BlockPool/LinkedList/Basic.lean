import BlockPool.LinkedList.Error
import BlockPool.Pool.Basic

/-!
# Linked lists in a pool

Every node of a list is a block of its pool, and the links between the nodes
are handles stored in the blocks.  A list is read by following its trail: the
nodes from the head on, up to one that is looked for.  A trail never has more
nodes than the pool has slots unless its links run in a circle.
-/

namespace BlockPool

structure LinkedList where
  pool : Pool
  head : Option NodeRef
  closed : Bool
  deriving DecidableEq, Repr

/-- The nodes before the one that was looked for, and that one if it was met. -/
structure Trail where
  passed : List (NodeRef × Node)
  hit : Option (NodeRef × Node)
  deriving DecidableEq, Repr

namespace LinkedList

def ofPool (pool : Pool) (size : Nat) : Except PoolError LinkedList :=
  match pool.setUp size with
  | (.error error, _) => .error error
  | (.ok (), pool) => .ok ⟨pool, none, false⟩

def ensureOpen (l : LinkedList) : Except ListError Unit :=
  if l.closed then .error .closed else .ok ()

/-! ## Following the links -/

def load (l : LinkedList) (node : NodeRef) : Except ListError Node :=
  match l.pool.readAt node.handle 0 Node.byteSize with
  | .error error => .error (.atNode node error)
  | .ok bytes =>
      match Node.decode bytes with
      | none => .error (.nodeNotFound node)
      | some contents => .ok contents

def follow (l : LinkedList) (stop : NodeRef → Node → Bool) :
    Nat → Option NodeRef → Except ListError Trail
  | _, none => .ok ⟨[], none⟩
  | 0, some _ => .error .endless
  | steps + 1, some node =>
      match l.load node with
      | .error error => .error error
      | .ok contents =>
          if stop node contents then
            .ok ⟨[], some (node, contents)⟩
          else
            match l.follow stop steps contents.next with
            | .error error => .error error
            | .ok trail =>
                .ok { trail with passed := (node, contents) :: trail.passed }

/-- One more than the most nodes that can follow each other without repetition. -/
def reach (l : LinkedList) : Nat :=
  match l.pool.phase with
  | .ready heap => heap.layout.slotCount + 1
  | _ => 1

def trail (l : LinkedList) (stop : NodeRef → Node → Bool) :
    Except ListError Trail :=
  l.follow stop l.reach l.head

@[simp] theorem follow_none (l : LinkedList) (stop : NodeRef → Node → Bool)
    (steps : Nat) : l.follow stop steps none = .ok ⟨[], none⟩ := by
  cases steps <;> rfl

theorem load_of_mem_passed {l : LinkedList} {stop : NodeRef → Node → Bool}
    {steps : Nat} {start : Option NodeRef} {trail : Trail}
    (h : l.follow stop steps start = .ok trail) {node : NodeRef}
    {contents : Node} (member : (node, contents) ∈ trail.passed) :
    l.load node = .ok contents ∧ stop node contents = false := by
  induction steps generalizing start trail with
  | zero =>
      cases start with
      | none => cases h; simp at member
      | some _ => cases h
  | succ steps ih =>
      cases start with
      | none => cases h; simp at member
      | some first =>
          simp only [follow] at h
          cases loaded : l.load first with
          | error error => simp [loaded] at h
          | ok read =>
              simp only [loaded] at h
              cases stopped : stop first read with
              | true => simp [stopped] at h; subst h; simp at member
              | false =>
                  simp only [stopped, Bool.false_eq_true, if_false] at h
                  cases further : l.follow stop steps read.next with
                  | error error => simp [further] at h
                  | ok rest =>
                      simp only [further, Except.ok.injEq] at h
                      subst h
                      simp only [List.mem_cons] at member
                      rcases member with same | later
                      · cases same
                        exact ⟨loaded, stopped⟩
                      · exact ih further later

/-! ## Queries -/

def search (l : LinkedList) (value : UInt16) :
    Except ListError (Option NodeRef) := do
  l.ensureOpen
  let trail ← l.trail fun _ contents => contents.value = value
  return trail.hit.map Prod.fst

def values (l : LinkedList) : Except ListError (List UInt16) := do
  l.ensureOpen
  let trail ← l.trail fun _ _ => false
  return trail.passed.map fun visit => visit.2.value

def length (l : LinkedList) : Except ListError Nat :=
  l.values.map List.length

def first (l : LinkedList) : Except ListError (Option NodeRef) := do
  l.ensureOpen
  return l.head

def value (l : LinkedList) (node : NodeRef) : Except ListError UInt16 := do
  l.ensureOpen
  let contents ← l.load node
  return contents.value

def next (l : LinkedList) (node : NodeRef) :
    Except ListError (Option NodeRef) := do
  l.ensureOpen
  let contents ← l.load node
  return contents.next

def member (l : LinkedList) (node : NodeRef) : Except ListError Node :=
  match l.trail fun visited _ => visited = node with
  | .error error => .error error
  | .ok ⟨_, none⟩ => .error (.nodeNotFound node)
  | .ok ⟨_, some (_, contents)⟩ => .ok contents

def displayText (values : List UInt16) : String :=
  "[" ++ ", ".intercalate (values.map toString) ++ "]"

def rangeStart (l : LinkedList) :
    Option NodeRef → Except ListError (Option NodeRef)
  | none => .ok l.head
  | some start => (l.member start).map fun _ => some start

/-- The values from one node to another, both included.

Where no end is given or met, the range goes to the end of the list. -/
def displayRange (l : LinkedList) (start stop : Option NodeRef) :
    Except ListError String := do
  l.ensureOpen
  let start ← l.rangeStart start
  let trail ← l.follow (fun visited _ => some visited = stop) l.reach start
  let visits := trail.passed ++ trail.hit.toList
  return displayText (visits.map fun visit => visit.2.value)

def display (l : LinkedList) : Except ListError String :=
  l.displayRange none none

end LinkedList

end BlockPool
