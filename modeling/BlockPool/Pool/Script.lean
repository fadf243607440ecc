import BlockPool.Pool.Basic

/-!
# Scripts on pools

Requests are the operations of a pool as data, replies their results.  A
script is a list of requests; running it threads the pool through them.
-/

namespace BlockPool.Pool

inductive Request where
  | setUp (size : Nat)
  | close
  | allocate (size : Nat)
  | deallocate (handle : Handle)
  | resize (handle : Handle) (size : Nat)
  | read (handle : Handle)
  | readAt (handle : Handle) (offset length : Nat)
  | write (handle : Handle) (offset : Nat) (data : List UInt8)
  | block (handle : Handle)
  | blocks
  | statistics
  | check
  | phase
  | isReady
  | config
  | debug
  deriving DecidableEq, Repr

inductive Reply where
  | done
  | handle (handle : Handle)
  | bytes (bytes : List UInt8)
  | block (block : Block)
  | blocks (blocks : List Block)
  | statistics (statistics : Statistics)
  | flag (value : Bool)
  | text (text : String)
  deriving DecidableEq, Repr

def reply {α : Type} (form : α → Reply) :
    Except PoolError α × Pool → Except PoolError Reply × Pool
  | (result, p) => (result.map form, p)

def perform (p : Pool) : Request → Except PoolError Reply × Pool
  | .setUp size => reply (fun _ => .done) (p.setUp size)
  | .close => reply .statistics p.close
  | .allocate size => reply .handle (p.allocate size)
  | .deallocate handle => reply (fun _ => .done) (p.deallocate handle)
  | .resize handle size => reply .handle (p.resize handle size)
  | .read handle => ((p.read handle).map .bytes, p)
  | .readAt handle offset length =>
      ((p.readAt handle offset length).map .bytes, p)
  | .write handle offset data =>
      reply (fun _ => .done) (p.write handle offset data)
  | .block handle => ((p.block handle).map .block, p)
  | .blocks => (p.blocks.map .blocks, p)
  | .statistics => (p.statistics.map .statistics, p)
  | .check => (p.check.map fun _ => .done, p)
  | .phase => (.ok (.text p.phase.name), p)
  | .isReady => (.ok (.flag p.isReady), p)
  | .config => (.ok (.text p.config.debugText), p)
  | .debug => (.ok (.text p.debugText), p)

def run (p : Pool) : List Request → List (Except PoolError Reply) × Pool
  | [] => ([], p)
  | request :: rest =>
      let (result, p) := p.perform request
      let (results, p) := p.run rest
      (result :: results, p)

end BlockPool.Pool
