import BlockPool.Layout.Placement
import BlockPool.Text.Basic

/-!
# Configuration of a pool

A configuration chooses how freed blocks are merged, whether an empty rest of
a split is kept, whether operations are counted, and the bytes that fresh and
freed blocks are filled with.  The two fill bytes must differ.
-/

namespace BlockPool

structure Config where
  coalesce : Coalescing
  recordEmptyRemainder : Bool
  trackStats : Bool
  allocPattern : Option UInt8
  deallocPattern : Option UInt8
  deriving DecidableEq, Repr

inductive ConfigFault where
  | equalPatterns
  | emptyPool
  deriving DecidableEq, Repr

def ConfigFault.message : ConfigFault → String
  | equalPatterns => "alloc_pattern and dealloc_pattern must differ"
  | emptyPool => "pool size must be non-zero"

namespace Config

/-! ## Presets -/

def debug : Config :=
  { coalesce := .bidirectional
    recordEmptyRemainder := true
    trackStats := true
    allocPattern := some 0xBB
    deallocPattern := some 0xDD }

def reference : Config :=
  { coalesce := .forward
    recordEmptyRemainder := true
    trackStats := true
    allocPattern := none
    deallocPattern := none }

def production : Config :=
  { coalesce := .bidirectional
    recordEmptyRemainder := false
    trackStats := false
    allocPattern := none
    deallocPattern := none }

/-- What a field has that nothing else is said about, in a build with debug assertions;
a build without them has no fill bytes here. -/
protected def default : Config := debug

instance : Inhabited Config := ⟨Config.default⟩

def validate (c : Config) : Except ConfigFault Unit :=
  if c.allocPattern.isSome && c.allocPattern = c.deallocPattern then
    .error .equalPatterns
  else
    .ok ()

theorem validate_eq_ok_iff (c : Config) :
    c.validate = .ok () ↔
      c.allocPattern = none ∨ c.allocPattern ≠ c.deallocPattern := by
  unfold validate
  cases c.allocPattern <;> simp

/-! ## Debugging text -/

def boolText : Bool → String
  | true => "true"
  | false => "false"

def coalescingText : Coalescing → String
  | .forward => "Forward"
  | .bidirectional => "Bidirectional"

def patternText (pattern : Option UInt8) : String :=
  Text.optionalNumber (pattern.map UInt8.toNat)

def debugText (c : Config) : String :=
  "PoolConfig \x7b coalesce: " ++ coalescingText c.coalesce ++
    ", record_empty_remainder: " ++ boolText c.recordEmptyRemainder ++
    ", track_stats: " ++ boolText c.trackStats ++
    ", alloc_pattern: " ++ patternText c.allocPattern ++
    ", dealloc_pattern: " ++ patternText c.deallocPattern ++ " \x7d"

end Config

end BlockPool
