import BlockPool.Layout.Basic
import BlockPool.Text.Basic

/-!
# Audit of a layout

The audit follows the chain once and stops at the first fault.  It passes the
layouts whose chain visits every record, whose `prev` links lead back along it,
and whose records follow each other without gap from address zero to the end.
-/

namespace BlockPool

inductive Fault where
  | cycle
  | wrongPrev (index : Nat) (found expected : Option Nat)
  | wrongOffset (index found expected : Nat)
  | addressOverflow (index : Nat)
  | unreachable (reached live : Nat)
  | wrongTotal (total size : Nat)
  deriving DecidableEq, Repr

namespace Fault

def message : Fault → String
  | cycle => "record chain contains a cycle"
  | wrongPrev index found expected =>
      s!"record #{index} has prev {Text.optionalNumber found}, " ++
        s!"expected {Text.optionalNumber expected}"
  | wrongOffset index found expected =>
      s!"record #{index} starts at {found}, expected {expected}"
  | addressOverflow index => s!"record #{index} overflows the address space"
  | unreachable reached live => s!"{reached} records reachable, {live} live"
  | wrongTotal total size => s!"record sizes sum to {total}, pool holds {size}"

end Fault

namespace Layout

/-- Addresses are words, so a record has to end below this bound. -/
def addressBound : Nat := UInt64.size

/-- Follows part of the chain.

`reached` records came before it, the last of them is `prev`, and they end at
`offset`.  Returns the two numbers for the whole chain. -/
def auditFrom (live : Nat) :
    List (Nat × Record) → Nat → Nat → Option Nat → Except Fault (Nat × Nat)
  | [], reached, offset, _ => .ok (reached, offset)
  | (index, record) :: rest, reached, offset, prev =>
      if live ≤ reached then
        .error .cycle
      else if record.prev ≠ prev then
        .error (.wrongPrev index record.prev prev)
      else if record.offset ≠ offset then
        .error (.wrongOffset index record.offset offset)
      else if addressBound ≤ record.offset + record.size then
        .error (.addressOverflow index)
      else
        auditFrom live rest (reached + 1) (record.offset + record.size)
          (some index)

/-- A chain with more entries than there are records repeats one of them, so
one entry more than that is looked at. -/
def audit (l : Layout) (size : Nat) : Except Fault Unit :=
  match auditFrom l.live (l.walk (l.live + 1) l.first) 0 0 none with
  | .error fault => .error fault
  | .ok (reached, total) =>
      if reached ≠ l.live then
        .error (.unreachable reached l.live)
      else if total ≠ size then
        .error (.wrongTotal total size)
      else
        .ok ()

end Layout

end BlockPool
