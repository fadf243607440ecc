import BlockPool.Pool.Script

/-!
# The shared pool

A process has at most one shared pool.  It comes into being with the first
valid configuration given for it or, with the default configuration, at its
first use; from then on its configuration is fixed.
-/

namespace BlockPool

structure Shared where
  pool : Option Pool
  deriving DecidableEq, Repr

namespace Shared

def absent : Shared := ⟨none⟩

/-- Makes the shared pool; a bad configuration is reported before anything else. -/
def configure (s : Shared) (config : Config) : Except PoolError Pool × Shared :=
  match Pool.withConfig config with
  | .error error => (.error error, s)
  | .ok made =>
      match s.pool with
      | none => (.ok made, ⟨some made⟩)
      | some _ => (.error .alreadyInitialized, s)

def current (s : Shared) : Pool := s.pool.getD .default

def perform (s : Shared) (request : Pool.Request) :
    Except PoolError Pool.Reply × Shared :=
  let (result, p) := s.current.perform request
  (result, ⟨some p⟩)

inductive Request where
  | configure (config : Config)
  | onPool (request : Pool.Request)
  deriving DecidableEq, Repr

def step (s : Shared) : Request → Except PoolError Pool.Reply × Shared
  | .configure config =>
      let (result, s) := s.configure config
      (result.map fun made => .text made.debugText, s)
  | .onPool request => s.perform request

def run (s : Shared) : List Request → List (Except PoolError Pool.Reply) × Shared
  | [] => ([], s)
  | request :: rest =>
      let (result, s) := s.step request
      let (results, s) := s.run rest
      (result :: results, s)

end Shared

end BlockPool
