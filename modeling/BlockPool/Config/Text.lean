import BlockPool.Config.Basic
import BlockPool.Toml.Document
import BlockPool.Toml.Writer

/-!
# Configurations as TOML

A configuration is a table with one entry for each field; a fill byte that is
not set has no entry.  Reading back, an entry that is missing leaves its field
as the default configuration has it, and entries of other names are ignored.
-/

namespace BlockPool

open Toml (Scalar Value Entries)

def Coalescing.name : Coalescing → String
  | forward => "forward"
  | bidirectional => "bidirectional"

def Coalescing.ofName? : String → Option Coalescing
  | "forward" => some forward
  | "bidirectional" => some bidirectional
  | _ => none

/-- A choice is written as its name, or as a table with the name and nothing under it. -/
def Coalescing.ofValue? : Value → Option Coalescing
  | .scalar (.string name) => ofName? name
  | .table _ [(name, .table _ [])] => ofName? name
  | .table _ [(name, .array [])] => ofName? name
  | _ => none

namespace Config

/-! ## Writing -/

def patternSetting (name : String) : Option UInt8 → List (String × Scalar)
  | none => []
  | some byte => [(name, .integer byte.toNat)]

def settings (c : Config) : List (String × Scalar) :=
  [ ("coalesce", .string c.coalesce.name),
    ("record_empty_remainder", .boolean c.recordEmptyRemainder),
    ("track_stats", .boolean c.trackStats) ] ++
    patternSetting "alloc_pattern" c.allocPattern ++
    patternSetting "dealloc_pattern" c.deallocPattern

def toml (c : Config) : String := Toml.settingLines c.settings

/-! ## Reading -/

def boolean? : Value → Option Bool
  | .scalar (.boolean value) => some value
  | _ => none

/-- A fill byte; what is written down is always a byte, never none. -/
def pattern? : Value → Option (Option UInt8)
  | .scalar (.integer value) =>
      if 0 ≤ value ∧ value < 256 then some (some (UInt8.ofNat value.toNat)) else none
  | _ => none

def field? {α : Type} (standard : α) (read : Value → Option α) :
    Option Value → Option α
  | none => some standard
  | some value => read value

def ofFields? (value? : Fin 5 → Option Value) : Option Config := do
  let standard := Config.default
  let coalesce ← field? standard.coalesce Coalescing.ofValue? (value? 0)
  let recordEmptyRemainder ←
    field? standard.recordEmptyRemainder boolean? (value? 1)
  let trackStats ← field? standard.trackStats boolean? (value? 2)
  let allocPattern ← field? standard.allocPattern pattern? (value? 3)
  let deallocPattern ← field? standard.deallocPattern pattern? (value? 4)
  return { coalesce, recordEmptyRemainder, trackStats, allocPattern, deallocPattern }

def fieldName : Fin 5 → String
  | 0 => "coalesce"
  | 1 => "record_empty_remainder"
  | 2 => "track_stats"
  | 3 => "alloc_pattern"
  | 4 => "dealloc_pattern"

def ofEntries? (entries : Entries) : Option Config :=
  ofFields? fun field => entries.get? (fieldName field)

/-- A configuration may also be a sequence of values in the order of the fields.

A date counts as a table without entries of interest. -/
def ofValue? : Value → Option Config
  | .table _ entries => ofEntries? entries
  | .array items => ofFields? fun field => items[field.val]?
  | .tables elements => ofFields? fun field => elements.reverse[field.val]?
  | .dateTime => some Config.default
  | _ => none

def ofToml? (text : String) : Option Config :=
  (Toml.parse text).bind ofEntries?

end Config

end BlockPool
