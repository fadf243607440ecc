import BlockPool.Pattern.Mode

/-!
# Atoms of a pattern

The smallest parts of a pattern: characters, plain or escaped, places in the
text, and classes with a letter of their own.
-/

namespace BlockPool.Pattern

inductive Atom where
  /-- A character; `byte` when it was written as the number of a byte. -/
  | literal (char : Char) (byte : Bool)
  | edge (word : Bool)
  | shorthand
  deriving DecidableEq, Repr

namespace Atom

/--
Outside of brackets.  There is no table of the cases of letters, so a
character whose case is ignored is refused unless characters are bytes.  A
byte beyond ASCII alone is no text.
-/
def standsAlone (mode : Mode) : Atom → Bool
  | literal char byte =>
      if mode.unicode then !mode.ignoreCase else !(byte && 0x80 ≤ char.toNat)
  | edge _ => true
  | shorthand => true

/-- Between brackets, where a class of bytes holds ASCII only. -/
def standsInBrackets (mode : Mode) : Atom → Bool
  | literal char _ =>
      if mode.unicode then !mode.ignoreCase else char.toNat < 0x80
  | edge _ => false
  | shorthand => true

end Atom

/-! ## Numbers of characters -/

def hexDigit? (c : Char) : Option Nat :=
  if c.isDigit then some (c.toNat - 48)
  else if 'a' ≤ c && c ≤ 'f' then some (c.toNat - 87)
  else if 'A' ≤ c && c ≤ 'F' then some (c.toNat - 55)
  else none

def fixedHex? (mode : Mode) : Nat → Nat → List Char → Option (Nat × List Char)
  | 0, value, cs => some (value, cs)
  | _ + 1, _, [] => none
  | n + 1, value, c :: cs =>
      (hexDigit? c).bind fun digit =>
        fixedHex? mode n (16 * value + digit) (mode.skip cs)

def bracedHex? (mode : Mode) (value : Option Nat) (cs : List Char) :
    Option (Nat × List Char) :=
  match h : mode.skip cs with
  | [] => none
  | c :: rest =>
      if c = '\x7d' then value.map fun value => (value, mode.skip rest)
      else (hexDigit? c).bind fun digit =>
        bracedHex? mode (some (16 * value.getD 0 + digit)) rest
termination_by cs.length
decreasing_by
  have shorter := mode.length_skip_le cs
  simp only [h, List.length_cons] at shorter
  omega

def charOf? (value : Nat) : Option Char :=
  if value.isValidChar then some (Char.ofNat value) else none

def numbered? (mode : Mode) (digits : Nat) (cs : List Char) :
    Option (Atom × List Char) := do
  match mode.skip cs with
  | '\x7b' :: cs =>
      let (value, rest) ← bracedHex? mode none cs
      return (.literal (← charOf? value) false, rest)
  | cs =>
      let (value, rest) ← fixedHex? mode digits 0 cs
      return (.literal (← charOf? value) (digits = 2), rest)

/-! ## Ends of words -/

def wordEdges : List (List Char) :=
  ["start", "end", "start-half", "end-half"].map String.toList

def isEdgeLetter (c : Char) : Bool :=
  c.isAlpha || c = '-'

def edgeName? (mode : Mode) (name : List Char) (cs : List Char) :
    Option (List Char) :=
  match cs with
  | [] => none
  | c :: rest =>
      if isEdgeLetter c then edgeName? mode (name ++ [c]) (mode.skip rest)
      else if c = '\x7d' && wordEdges.contains name then some rest
      else none
termination_by cs.length
decreasing_by
  have shorter := mode.length_skip_le rest
  simp only [List.length_cons]
  omega

def afterEdge? (mode : Mode) : List Char → Option (List Char)
  | '\x7b' :: cs =>
      match mode.skip cs with
      | [] => none
      | c :: rest =>
          if isEdgeLetter c then edgeName? mode [] (c :: rest)
          else some ('\x7b' :: cs)
  | cs => some cs

/-! ## Escapes -/

/--
What a backslash begins.  Classes by property, and those of digits, blanks and
words among all characters, are refused, for there are no tables of them; among
bytes no class stands for the bytes outside of it.
-/
def escape? (mode : Mode) : List Char → Option (Atom × List Char)
  | [] => none
  | c :: cs =>
      match c with
      | 'x' => numbered? mode 2 cs
      | 'u' => numbered? mode 4 cs
      | 'U' => numbered? mode 8 cs
      | 'd' | 's' | 'w' => if mode.unicode then none else some (.shorthand, cs)
      | 'a' => some (.literal '\x07' false, cs)
      | 'f' => some (.literal '\x0c' false, cs)
      | 't' => some (.literal '\t' false, cs)
      | 'n' => some (.literal '\n' false, cs)
      | 'r' => some (.literal '\r' false, cs)
      | 'v' => some (.literal '\x0b' false, cs)
      | 'A' | 'z' => some (.edge false, cs)
      | 'B' | '<' | '>' => some (.edge true, cs)
      | 'b' => (afterEdge? mode cs).map fun rest => (.edge true, rest)
      | _ =>
          if c.toNat < 0x80 && !c.isAlphanum then some (.literal c false, cs)
          else none

def atom? (mode : Mode) : List Char → Option (Atom × List Char)
  | [] => none
  | '\\' :: cs => escape? mode cs
  | c :: cs => some (.literal c false, cs)

end BlockPool.Pattern
