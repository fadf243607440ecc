import BlockPool.Pool.Heap

/-!
# Pools

A pool is set up once, serves blocks, and is closed for good.  Outside its
ready phase every operation on blocks fails with the error of that phase and
changes nothing.
-/

namespace BlockPool

inductive Phase where
  | uninitialized
  | ready (heap : Heap)
  | closed
  deriving DecidableEq, Repr

def Phase.name : Phase → String
  | uninitialized => "uninitialized"
  | ready _ => "ready"
  | closed => "closed"

def Phase.debugName : Phase → String
  | uninitialized => "Uninitialized"
  | ready _ => "Ready"
  | closed => "Closed"

structure Pool where
  config : Config
  phase : Phase
  deriving DecidableEq, Repr

namespace Pool

def withConfig (config : Config) : Except PoolError Pool :=
  match config.validate with
  | .error fault => .error (.invalidConfig fault)
  | .ok () => .ok ⟨config, .uninitialized⟩

protected def default : Pool := ⟨Config.default, .uninitialized⟩

instance : Inhabited Pool := ⟨Pool.default⟩

def isReady (p : Pool) : Bool :=
  match p.phase with
  | .ready _ => true
  | _ => false

def debugText (p : Pool) : String :=
  let size :=
    match p.phase with
    | .ready heap => s!", pool_size: {heap.size}"
    | _ => ""
  "MemoryPool \x7b state: " ++ p.phase.debugName ++ size ++
    ", config: " ++ p.config.debugText ++ " \x7d"

/-! ## Phases -/

def setUp (p : Pool) (size : Nat) : Except PoolError Unit × Pool :=
  match p with
  | ⟨config, .uninitialized⟩ =>
      if size = 0 then
        (.error (.invalidConfig .emptyPool), ⟨config, .uninitialized⟩)
      else
        (.ok (), ⟨config, .ready (.ofSize size config)⟩)
  | ⟨config, .ready heap⟩ => (.error .alreadyInitialized, ⟨config, .ready heap⟩)
  | ⟨config, .closed⟩ => (.error .alreadyClosed, ⟨config, .closed⟩)

def close (p : Pool) : Except PoolError Statistics × Pool :=
  match p with
  | ⟨config, .uninitialized⟩ => (.error .notInitialized, ⟨config, .uninitialized⟩)
  | ⟨config, .ready heap⟩ => (.ok heap.statistics, ⟨config, .closed⟩)
  | ⟨config, .closed⟩ => (.error .alreadyClosed, ⟨config, .closed⟩)

def heap (p : Pool) : Except PoolError Heap :=
  match p.phase with
  | .uninitialized => .error .notInitialized
  | .ready heap => .ok heap
  | .closed => .error .alreadyClosed

def onHeap {α : Type} (p : Pool)
    (operation : Heap → Except PoolError α × Heap) :
    Except PoolError α × Pool :=
  match p with
  | ⟨config, .uninitialized⟩ => (.error .notInitialized, ⟨config, .uninitialized⟩)
  | ⟨config, .ready heap⟩ =>
      match operation heap with
      | (result, heap) => (result, ⟨config, .ready heap⟩)
  | ⟨config, .closed⟩ => (.error .alreadyClosed, ⟨config, .closed⟩)

@[simp] theorem config_setUp (p : Pool) (size : Nat) :
    (p.setUp size).2.config = p.config := by
  unfold setUp
  split
  · split <;> rfl
  · rfl
  · rfl

@[simp] theorem config_close (p : Pool) : p.close.2.config = p.config := by
  unfold close
  split <;> rfl

@[simp] theorem config_onHeap {α : Type} (p : Pool)
    (operation : Heap → Except PoolError α × Heap) :
    (p.onHeap operation).2.config = p.config := by
  unfold onHeap
  split <;> rfl

theorem onHeap_of_error {α : Type} {p : Pool} {error : PoolError}
    (operation : Heap → Except PoolError α × Heap) (h : p.heap = .error error) :
    p.onHeap operation = (.error error, p) := by
  obtain ⟨config, phase⟩ := p
  cases phase with
  | uninitialized => cases h; rfl
  | ready heap => cases h
  | closed => cases h; rfl

theorem onHeap_of_ok {α : Type} {p : Pool} {heap : Heap}
    (operation : Heap → Except PoolError α × Heap) (h : p.heap = .ok heap) :
    p.onHeap operation =
      ((operation heap).1, ⟨p.config, .ready (operation heap).2⟩) := by
  obtain ⟨config, phase⟩ := p
  cases phase with
  | uninitialized => cases h
  | ready heap => cases h; rfl
  | closed => cases h

/-! ## Blocks -/

def allocate (p : Pool) (size : Nat) : Except PoolError Handle × Pool :=
  p.onHeap fun heap => heap.allocate size

def deallocate (p : Pool) (handle : Handle) : Except PoolError Unit × Pool :=
  p.onHeap fun heap => heap.deallocate handle

def resize (p : Pool) (handle : Handle) (size : Nat) :
    Except PoolError Handle × Pool :=
  p.onHeap fun heap => heap.resize handle size

def write (p : Pool) (handle : Handle) (offset : Nat) (data : List UInt8) :
    Except PoolError Unit × Pool :=
  p.onHeap fun heap => heap.write handle offset data

def read (p : Pool) (handle : Handle) : Except PoolError (List UInt8) :=
  p.heap.bind fun heap => heap.read handle

def readAt (p : Pool) (handle : Handle) (offset length : Nat) :
    Except PoolError (List UInt8) :=
  p.heap.bind fun heap => heap.readAt handle offset length

def block (p : Pool) (handle : Handle) : Except PoolError Block :=
  p.heap.bind fun heap => heap.block handle

def blocks (p : Pool) : Except PoolError (List Block) :=
  p.heap.map fun heap => heap.layout.blocks

def statistics (p : Pool) : Except PoolError Statistics :=
  p.heap.map Heap.statistics

def check (p : Pool) : Except PoolError Unit := p.heap.bind Heap.check

end Pool

end BlockPool
