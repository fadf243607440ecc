import BlockPool.LinkedList.Basic

/-!
# Editing a linked list

A new node is a block of its own before anything leads to it.  An edit finds
the nodes that it needs before it changes anything; a new node that cannot be
linked in is given back to the pool.
-/

namespace BlockPool.LinkedList

/-! ## Nodes and links -/

def onPool {α : Type} (l : LinkedList)
    (operation : Pool → Except PoolError α × Pool) :
    Except PoolError α × LinkedList :=
  match l with
  | ⟨pool, head, closed⟩ =>
      match operation pool with
      | (result, pool) => (result, ⟨pool, head, closed⟩)

def free (l : LinkedList) (node : NodeRef) :
    Except ListError Unit × LinkedList :=
  match l.onPool fun pool => pool.deallocate node.handle with
  | (.error error, l) => (.error (.pool error), l)
  | (.ok (), l) => (.ok (), l)

def store (l : LinkedList) (node : NodeRef) (contents : Node) :
    Except ListError Unit × LinkedList :=
  match l.onPool fun pool => pool.write node.handle 0 contents.encode with
  | (.error error, l) => (.error (.atNode node error), l)
  | (.ok (), l) => (.ok (), l)

def create (l : LinkedList) (value : UInt16) (next : Option NodeRef) :
    Except ListError NodeRef × LinkedList :=
  match l.onPool fun pool => pool.allocate Node.byteSize with
  | (.error error, l) => (.error (.pool error), l)
  | (.ok handle, l) =>
      match l.store ⟨handle⟩ ⟨value, next⟩ with
      | (.error error, l) => (.error error, (l.free ⟨handle⟩).2)
      | (.ok (), l) => (.ok ⟨handle⟩, l)

def setNext (l : LinkedList) (node : NodeRef) (next : Option NodeRef) :
    Except ListError Unit × LinkedList :=
  match l.load node with
  | .error error => (.error error, l)
  | .ok contents => l.store node { contents with next }

/-- Makes the link out of a node, or the head where there is none, lead to `next`. -/
def relink (l : LinkedList) (before next : Option NodeRef) :
    Except ListError Unit × LinkedList :=
  match before with
  | none => (.ok (), { l with head := next })
  | some node => l.setNext node next

def place (l : LinkedList) (before : Option NodeRef) (value : UInt16)
    (next : Option NodeRef) : Except ListError NodeRef × LinkedList :=
  match l.create value next with
  | (.error error, l) => (.error error, l)
  | (.ok node, l) =>
      match l.relink before (some node) with
      | (.error error, l) => (.error error, (l.free node).2)
      | (.ok (), l) => (.ok node, l)

/-! ## Editing -/

def insert (l : LinkedList) (value : UInt16) :
    Except ListError NodeRef × LinkedList :=
  match l.ensureOpen with
  | .error error => (.error error, l)
  | .ok () =>
      match l.trail fun _ contents => contents.next = none with
      | .error error => (.error error, l)
      | .ok trail => l.place (trail.hit.map Prod.fst) value none

def insertAfter (l : LinkedList) (node : NodeRef) (value : UInt16) :
    Except ListError NodeRef × LinkedList :=
  match l.ensureOpen with
  | .error error => (.error error, l)
  | .ok () =>
      match l.member node with
      | .error error => (.error error, l)
      | .ok contents => l.place (some node) value contents.next

/-- The node whose link leads to `node`; none if that is the head. -/
def predecessor (l : LinkedList) (node : NodeRef) :
    Except ListError (Option NodeRef) :=
  if l.head = some node then
    .ok none
  else
    match l.trail fun _ contents => contents.next = some node with
    | .error error => .error error
    | .ok ⟨_, none⟩ => .error (.nodeNotFound node)
    | .ok ⟨_, some (before, _)⟩ => .ok (some before)

def insertBefore (l : LinkedList) (node : NodeRef) (value : UInt16) :
    Except ListError NodeRef × LinkedList :=
  match l.ensureOpen with
  | .error error => (.error error, l)
  | .ok () =>
      match l.predecessor node with
      | .error error => (.error error, l)
      | .ok before => l.place before value (some node)

def delete (l : LinkedList) (value : UInt16) :
    Except ListError Unit × LinkedList :=
  match l.ensureOpen with
  | .error error => (.error error, l)
  | .ok () =>
      match l.trail fun _ contents => contents.value = value with
      | .error error => (.error error, l)
      | .ok ⟨_, none⟩ => (.error (.valueNotFound value), l)
      | .ok ⟨passed, some (node, contents)⟩ =>
          match l.relink (passed.getLast?.map Prod.fst) contents.next with
          | (.error error, l) => (.error error, l)
          | (.ok (), l) => l.free node

/-- Frees the nodes from the head on; the head stays at the first that is left. -/
def drain : Nat → LinkedList → Except ListError Unit × LinkedList
  | 0, l =>
      match l.head with
      | none => (.ok (), l)
      | some _ => (.error .endless, l)
  | steps + 1, l =>
      match l.head with
      | none => (.ok (), l)
      | some node =>
          match l.load node with
          | .error error => (.error error, l)
          | .ok contents =>
              match l.free node with
              | (.error error, l) => (.error error, l)
              | (.ok (), l) => drain steps { l with head := contents.next }

/-- Frees every node, closes the pool and then the list.

Freeing a node makes its handle stale, so each step has one used block less. -/
def cleanup (l : LinkedList) : Except ListError Statistics × LinkedList :=
  match l.ensureOpen with
  | .error error => (.error error, l)
  | .ok () =>
      match l.drain l.reach with
      | (.error error, l) => (.error error, l)
      | (.ok (), l) =>
          match l.onPool Pool.close with
          | (.error error, l) => (.error (.pool error), l)
          | (.ok statistics, l) => (.ok statistics, { l with closed := true })

end BlockPool.LinkedList
