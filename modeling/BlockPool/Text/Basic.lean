/-!
# Text helpers

How an optional number is written in messages and debugging text, which
characters are white space, and properties of characters that are kept as the
ranges of code points that have them.
-/

namespace BlockPool.Text

def optionalNumber : Option Nat → String
  | none => "None"
  | some n => s!"Some({n})"

/-! ## White space -/

def blankCodes : List Nat :=
  [9, 10, 11, 12, 13, 32, 0x85, 0xA0, 0x1680, 0x2000, 0x2001, 0x2002, 0x2003,
   0x2004, 0x2005, 0x2006, 0x2007, 0x2008, 0x2009, 0x200A, 0x2028, 0x2029,
   0x202F, 0x205F, 0x3000]

def isBlank (c : Char) : Bool := blankCodes.contains c.toNat

def trim (cs : List Char) : List Char :=
  ((cs.dropWhile isBlank).reverse.dropWhile isBlank).reverse

/-! ## Ranges of code points -/

structure CodeRange where
  first : Nat
  last : Nat
  deriving DecidableEq, Repr

namespace CodeRange

def has (range : CodeRange) (c : Char) : Bool :=
  range.first ≤ c.toNat && c.toNat ≤ range.last

def ofPairs (pairs : List (Nat × Nat)) : List CodeRange :=
  pairs.map fun pair => ⟨pair.1, pair.2⟩

end CodeRange

end BlockPool.Text
