import BlockPool.Layout.Basic

/-!
# Placement of blocks

A request takes the first free record that is large enough and leaves what it
does not need as a free record behind it.  A released record takes in a free
successor and, under the bidirectional policy, goes into a free predecessor.
-/

namespace BlockPool

inductive Coalescing where
  | forward
  | bidirectional
  deriving DecidableEq, Repr

namespace Layout

def firstFit? (l : Layout) (size : Nat) : Option Nat :=
  (l.entries.find? fun entry => entry.2.free && size ≤ entry.2.size).map Prod.fst

/-- Takes the first `size` addresses of a free record.

The rest becomes a free record of its own; an empty rest does so only when
`keepEmpty` is set. -/
def claim (l : Layout) (keepEmpty : Bool) (index size : Nat) : Layout :=
  match l.get? index with
  | none => l
  | some record =>
      let rest := record.size - size
      if 0 < rest || keepEmpty then
        let l := l.modify index fun record =>
          { record with free := false, size := size }
        (l.insertAfter index (record.offset + size) rest true).2
      else
        l.modify index fun record => { record with free := false }

def absorb (l : Layout) (survivor absorbed : Nat) : Layout :=
  match l.remove absorbed with
  | (none, l) => l
  | (some gone, l) => l.modify survivor fun record =>
      { record with size := record.size + gone.size }

def absorbNext (l : Layout) (index : Nat) (next : Option Nat) : Layout :=
  match next with
  | none => l
  | some next => if l.isFree next then l.absorb index next else l

/-- Frees a record, retires its handles and merges it with free neighbours.

Returns the index of the record that holds its addresses afterwards. -/
def release (l : Layout) (policy : Coalescing) (index : Nat) : Nat × Layout :=
  match l.get? index with
  | none => (index, l)
  | some record =>
      let l := l.modify index fun record => { record with free := true }
      let l := (l.retire index).absorbNext index record.next
      match policy, record.prev with
      | .bidirectional, some prev =>
          if l.isFree prev then (prev, l.absorb prev index) else (index, l)
      | _, _ => (index, l)

end Layout

end BlockPool
