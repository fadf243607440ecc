import BlockPool.Config.Basic
import BlockPool.Layout.Audit

/-!
# Errors of a pool

Each error carries its cause; message, code and class are functions of it.
-/

namespace BlockPool

inductive Damage where
  | layout (fault : Fault)
  | accounting (allocated accounted : Nat)
  | vacantSlot (index : Nat)
  | claimLost
  deriving DecidableEq, Repr

def Damage.message : Damage → String
  | layout fault => fault.message
  | accounting allocated accounted =>
      s!"allocated records hold {allocated} bytes, accounting says {accounted}"
  | vacantSlot index => s!"record #{index} has no live slot"
  | claimLost => "claimed record vanished during resize"

inductive PoolError where
  | allocationFailed (requested largestFree : Nat)
  | notFound (handle : Handle)
  | outOfBounds (offset length size : Nat)
  | notInitialized
  | alreadyInitialized
  | alreadyClosed
  | invalidConfig (reason : ConfigFault)
  | corruption (damage : Damage)
  deriving DecidableEq, Repr

namespace PoolError

def message : PoolError → String
  | allocationFailed requested largestFree =>
      s!"Pool allocation failed: requested {requested} bytes, " ++
        s!"largest free block {largestFree}"
  | notFound handle => s!"Block not found for handle {handle.text}"
  | outOfBounds offset length size =>
      s!"Access out of bounds: {length} bytes at offset {offset} " ++
        s!"in a {size}-byte block"
  | notInitialized => "Pool is not initialized"
  | alreadyInitialized => "Pool is already initialized"
  | alreadyClosed => "Pool has been closed"
  | invalidConfig reason => s!"Invalid configuration: {reason.message}"
  | corruption damage => s!"Block directory corruption: {damage.message}"

def code : PoolError → String
  | allocationFailed .. => "POOL:ALLOC:FAILED"
  | notFound .. => "POOL:HANDLE:NOT_FOUND"
  | outOfBounds .. => "POOL:HANDLE:BOUNDS"
  | notInitialized => "POOL:STATE:UNINIT"
  | alreadyInitialized => "POOL:STATE:INIT"
  | alreadyClosed => "POOL:STATE:CLOSED"
  | invalidConfig .. => "POOL:CONFIG:INVALID"
  | corruption .. => "POOL:SYSTEM:CORRUPTION"

/-- Only a failed allocation can succeed later, once other blocks are freed. -/
def isRetryable : PoolError → Bool
  | allocationFailed .. => true
  | _ => false

def isLifecycle : PoolError → Bool
  | notInitialized | alreadyInitialized | alreadyClosed => true
  | _ => false

end PoolError

end BlockPool
