import BlockPool.CommandLine.Session
import BlockPool.Pool.Basic

/-!
# The stress command

Workers allocate, grow and free blocks of one pool at random and free in the
end what they still hold; then the pool is checked.  The workers take turns as
a whole, and one seed determines all that they do.
-/

namespace BlockPool.CommandLine

inductive StressLine where
  | workload (threads iterations : Nat)
  | failures (count : Nat)
  | checked
  | statistics (statistics : Statistics)
  deriving DecidableEq, Repr

def StressLine.text : StressLine → String
  | .workload threads iterations =>
      s!"threads: {threads}, iterations: {iterations}"
  | .failures count => s!"retryable failures: {count}"
  | .checked => "invariants: ok"
  | .statistics last => last.text

namespace StressReport

open Session

/-! ## Random choices -/

structure Generator where
  state : UInt64
  deriving DecidableEq, Repr

def Generator.below (g : Generator) (bound : Nat) : Nat × Generator :=
  let state := g.state * 6364136223846793005 + 1442695040888963407
  ((state >>> 33).toNat % bound, ⟨state⟩)

/-! ## Workers -/

def largestBlock : Nat := 256

def mostHeld : Nat := 32

structure Worker where
  pool : Pool
  held : Array Handle
  generator : Generator
  failures : Nat

namespace Worker

def choose (w : Worker) (bound : Nat) : Nat × Worker :=
  let (choice, generator) := w.generator.below bound
  (choice, { w with generator })

def absorb (w : Worker) (error : PoolError) : Except PoolError Worker :=
  if error.isRetryable then .ok { w with failures := w.failures + 1 }
  else .error error

/-- Lets go of one held block; the last one takes its place. -/
def drop (w : Worker) (slot : Nat) : Except PoolError Worker :=
  match w.held[slot]? with
  | none => .ok w
  | some handle =>
      let held := (w.held.setIfInBounds slot (w.held.back?.getD handle)).pop
      match w.pool.deallocate handle with
      | (.error error, pool) => { w with pool, held }.absorb error
      | (.ok (), pool) => .ok { w with pool, held }

def allocate (w : Worker) (size : Nat) : Except PoolError Worker :=
  match w.pool.allocate size with
  | (.error error, pool) => { w with pool }.absorb error
  | (.ok handle, pool) => .ok { w with pool, held := w.held.push handle }

def grow (w : Worker) (slot size : Nat) : Except PoolError Worker :=
  match w.held[slot]? with
  | none => .ok w
  | some handle =>
      match w.pool.resize handle size with
      | (.error error, pool) => { w with pool }.absorb error
      | (.ok handle, pool) =>
          .ok { w with pool, held := w.held.setIfInBounds slot handle }

/-- Half of the steps allocate, a fifth grow a block, the others free one. -/
def act (w : Worker) : Except PoolError Worker :=
  let (roll, w) := w.choose 10
  if roll < 5 ∨ w.held.isEmpty then
    let (size, w) := w.choose (largestBlock + 1)
    w.allocate size
  else
    let (slot, w) := w.choose w.held.size
    if roll < 7 then
      let (size, w) := w.choose (2 * largestBlock + 1)
      w.grow slot size
    else
      w.drop slot

def step (w : Worker) : Except PoolError Worker := do
  let w ← w.act
  if mostHeld < w.held.size then w.drop 0 else return w

def steps : Nat → Worker → Except PoolError Worker
  | 0, w => .ok w
  | count + 1, w => do steps count (← w.step)

def finish (w : Worker) : Except PoolError Worker :=
  w.held.foldlM
    (fun w handle =>
      match w.pool.deallocate handle with
      | (.error error, _) => .error error
      | (.ok (), pool) => .ok { w with pool })
    { w with held := #[] }

end Worker

def work (iterations : Nat) : Nat → Worker → Except PoolError Worker
  | 0, w => .ok w
  | threads + 1, w => do
      let w ← Worker.steps iterations w
      work iterations threads (← w.finish)

def run (seed : UInt64) (config : Config) (size threads iterations : Nat) :
    Session StressLine Unit := do
  let pool ← orFail .invalidConfig (Pool.withConfig config)
  let ((), pool) ← orFailWith .poolSetUp (pool.setUp size)
  let w ← orFail .pool (work iterations threads ⟨pool, #[], ⟨seed⟩, 0⟩)
  orFail .invariants w.pool.check
  let (statistics, _) ← orFailWith .pool w.pool.close
  print (.workload threads iterations)
  print (.failures w.failures)
  print .checked
  print (.statistics statistics)

end StressReport

end BlockPool.CommandLine
