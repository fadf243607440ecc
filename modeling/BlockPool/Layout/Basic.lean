import BlockPool.Memory.Arena

/-!
# Layouts

A layout cuts a range of addresses into records.  The records live in an arena
and are chained in address order by the slot indices of their neighbours, so
that taking one out leaves the indices of the others alone.  The chain is read
by following `next` from `first` and ends at a link that names no record.
-/

namespace BlockPool

structure Record where
  offset : Nat
  size : Nat
  free : Bool
  next : Option Nat
  prev : Option Nat
  deriving DecidableEq, Repr

structure Block where
  offset : Nat
  size : Nat
  free : Bool
  deriving DecidableEq, Repr

def Record.block (r : Record) : Block := ⟨r.offset, r.size, r.free⟩

structure Layout where
  arena : Arena Record
  first : Option Nat
  deriving DecidableEq, Repr

namespace Layout

def spanning (size : Nat) : Layout :=
  let (index, arena) := Arena.empty.insert ⟨0, size, true, none, none⟩
  { arena, first := some index }

/-! ## Records and handles -/

def live (l : Layout) : Nat := l.arena.live

def slotCount (l : Layout) : Nat := l.arena.slotCount

def get? (l : Layout) (index : Nat) : Option Record := l.arena.get? index

def modify (l : Layout) (index : Nat) (change : Record → Record) : Layout :=
  { l with arena := l.arena.modify index change }

def isFree (l : Layout) (index : Nat) : Bool :=
  match l.get? index with
  | none => false
  | some record => record.free

def handle? (l : Layout) (index : Nat) : Option Handle := l.arena.handle? index

def resolve? (l : Layout) (h : Handle) : Option Nat := l.arena.resolve? h

/-- Makes every handle issued so far for a slot stop resolving. -/
def retire (l : Layout) (index : Nat) : Layout :=
  { l with arena := l.arena.retire index }

/-! ## The chain -/

def walk (l : Layout) : Nat → Option Nat → List (Nat × Record)
  | 0, _ => []
  | _, none => []
  | steps + 1, some index =>
      match l.get? index with
      | none => []
      | some record => (index, record) :: l.walk steps record.next

/-- The chain from its first record; one that does not repeat a record is shown whole. -/
def entries (l : Layout) : List (Nat × Record) := l.walk l.live l.first

def blocks (l : Layout) : List Block := l.entries.map fun entry => entry.2.block

def freeSizes (l : Layout) : List Nat :=
  (l.blocks.filter fun block => block.free).map Block.size

def usedSizes (l : Layout) : List Nat :=
  (l.blocks.filter fun block => !block.free).map Block.size

def largestFree (l : Layout) : Nat := l.freeSizes.foldr max 0

def freeBytes (l : Layout) : Nat := l.freeSizes.foldr (· + ·) 0

def usedBytes (l : Layout) : Nat := l.usedSizes.foldr (· + ·) 0

/-! ## Links -/

/-- Makes a record right after the one at `index` and returns its index.

Where there is no record at `index`, the new one is made all the same but
nothing leads to it. -/
def insertAfter (l : Layout) (index offset size : Nat) (free : Bool) :
    Nat × Layout :=
  let next := (l.get? index).bind Record.next
  let (created, arena) := l.arena.insert ⟨offset, size, free, next, some index⟩
  let arena := arena.modify index fun record =>
    { record with next := some created }
  match next with
  | none => (created, { l with arena })
  | some next =>
      (created,
        { l with arena := arena.modify next fun record =>
            { record with prev := some created } })

/-- Takes a record out of the chain and vacates its slot.

The addresses of the record are given to nobody; a caller adds its size to a
neighbour. -/
def remove (l : Layout) (index : Nat) : Option Record × Layout :=
  match l.get? index with
  | none => (none, l)
  | some record =>
      let l := { l with arena := l.arena.erase index }
      let l :=
        match record.prev.filter fun prev => (l.get? prev).isSome with
        | some prev => l.modify prev fun before =>
            { before with next := record.next }
        | none => { l with first := record.next }
      match record.next with
      | none => (some record, l)
      | some next =>
          (some record, l.modify next fun after =>
            { after with prev := record.prev })

/-! ## What the operations do to a look-up -/

theorem get?_modify (l : Layout) (index i : Nat) (change : Record → Record) :
    (l.modify index change).get? i =
      if i = index then (l.get? i).map change else l.get? i :=
  Arena.get?_modify l.arena index i change

@[simp] theorem get?_retire (l : Layout) (index i : Nat) :
    (l.retire index).get? i = l.get? i :=
  Arena.get?_retire l.arena index i

@[simp] theorem live_modify (l : Layout) (index : Nat) (change : Record → Record) :
    (l.modify index change).live = l.live := rfl

@[simp] theorem live_retire (l : Layout) (index : Nat) :
    (l.retire index).live = l.live := rfl

theorem get?_spanning (size i : Nat) :
    (spanning size).get? i =
      if i = 0 then some ⟨0, size, true, none, none⟩ else none := by
  cases i <;> rfl

/-! ## What a walk meets -/

@[simp] theorem walk_none (l : Layout) (steps : Nat) : l.walk steps none = [] := by
  cases steps <;> rfl

theorem length_walk_le (l : Layout) (steps : Nat) (link : Option Nat) :
    (l.walk steps link).length ≤ steps := by
  induction steps generalizing link with
  | zero => cases link <;> simp [walk]
  | succ steps ih =>
      cases link with
      | none => simp
      | some index =>
          simp only [walk]
          cases l.get? index with
          | none => simp
          | some record => simpa using ih record.next

theorem get?_of_mem_walk {l : Layout} {steps : Nat} {link : Option Nat}
    {index : Nat} {record : Record} (h : (index, record) ∈ l.walk steps link) :
    l.get? index = some record := by
  induction steps generalizing link with
  | zero => cases link <;> simp [walk] at h
  | succ steps ih =>
      cases link with
      | none => simp at h
      | some start =>
          simp only [walk] at h
          cases found : l.get? start with
          | none => simp [found] at h
          | some first =>
              simp only [found, List.mem_cons] at h
              rcases h with same | later
              · cases same
                exact found
              · exact ih later

end Layout

end BlockPool
