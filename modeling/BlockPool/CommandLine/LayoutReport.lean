import BlockPool.CommandLine.Session
import BlockPool.Pool.Basic

/-!
# The inspect command

Blocks are allocated, some of them are freed by their position among the
allocations, and the layout is shown.  A failed allocation is reported and
keeps its position; freeing it, or a block that is free already, does nothing.
-/

namespace BlockPool.CommandLine

inductive LayoutLine where
  | notAllocated (position size : Nat) (error : PoolError)
  | header
  | block (block : Block)
  | blank
  | statistics (statistics : Statistics)
  deriving DecidableEq, Repr

def columnWidth : Nat := 8

def columns (first second third : String) : String :=
  FixedPlaces.padLeft columnWidth ' ' first ++ "  " ++
    FixedPlaces.padLeft columnWidth ' ' second ++ "  " ++ third

def LayoutLine.text : LayoutLine → String
  | .notAllocated position size error =>
      s!"alloc #{position} ({size} bytes): {error.message}"
  | .header => columns "offset" "size" "state"
  | .block b =>
      columns (toString b.offset) (toString b.size)
        (if b.free then "free" else "used")
  | .blank => ""
  | .statistics last => last.text

namespace LayoutReport

open Session

def allocateAll (pool : Pool) (position : Nat) :
    List Nat → Session LayoutLine (List (Option Handle) × Pool)
  | [] => pure ([], pool)
  | size :: sizes =>
      match pool.allocate size with
      | (.ok handle, pool) => do
          let (handles, pool) ← allocateAll pool (position + 1) sizes
          return (some handle :: handles, pool)
      | (.error error, pool) => do
          print (.notAllocated position size error)
          let (handles, pool) ← allocateAll pool (position + 1) sizes
          return (none :: handles, pool)

/-- Frees blocks by position; a handle that has been used is forgotten. -/
def freeAll (pool : Pool) (handles : List (Option Handle)) :
    List Nat → Session LayoutLine Pool
  | [] => pure pool
  | position :: positions =>
      match handles[position]? with
      | none => fail (.noSuchAllocation position handles.length)
      | some none => freeAll pool handles positions
      | some (some handle) => do
          let ((), pool) ←
            orFailWith (.release position) (pool.deallocate handle)
          freeAll pool (handles.set position none) positions

def printBlocks : List Block → Session LayoutLine Unit
  | [] => pure ()
  | block :: blocks => do
      print (.block block)
      printBlocks blocks

def run (config : Config) (size : Nat) (allocated freed : List Nat) :
    Session LayoutLine Unit := do
  let pool ← orFail .invalidConfig (Pool.withConfig config)
  let ((), pool) ← orFailWith .poolSetUp (pool.setUp size)
  let (handles, pool) ← allocateAll pool 0 allocated
  let pool ← freeAll pool handles freed
  print .header
  printBlocks (← orFail .pool pool.blocks)
  print .blank
  print (.statistics (← orFail .pool pool.statistics))
  orFail .pool pool.check
  let _ ← orFailWith .pool pool.close

end LayoutReport

end BlockPool.CommandLine
