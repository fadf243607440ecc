import BlockPool.Pattern.Atom

/-!
# Classes in brackets

A class in brackets is a union of characters, ranges, named classes and further
classes in brackets, or unions joined by operators on sets.  What is kept of a
class is how deeply its parts are nested.
-/

namespace BlockPool.Pattern

def depthOf : List Nat → Nat
  | [] => 0
  | [depth] => depth
  | depths => depths.foldr max 0 + 1

structure Bracket where
  before : List Nat
  left : Option Nat
  deriving DecidableEq, Repr

def joined (left : Option Nat) (items : List Nat) : Nat :=
  match left with
  | none => depthOf items
  | some left => max left (depthOf items) + 1

def namedClasses : List (List Char) :=
  ["alnum", "alpha", "ascii", "blank", "cntrl", "digit", "graph", "lower",
   "print", "punct", "space", "upper", "word", "xdigit"].map String.toList

def namedClass? : List Char → Option (Bool × List Char)
  | ':' :: cs =>
      let (negated, cs) := match cs with
        | '^' :: cs => (true, cs)
        | cs => (false, cs)
      match cs.dropWhile (· ≠ ':') with
      | ':' :: ']' :: rest =>
          if namedClasses.contains (cs.takeWhile (· ≠ ':')) then some (negated, rest)
          else none
      | _ => none
  | _ => none

/-- Bytes outside of a class are no text, so a class of bytes is not negated. -/
def mayNegate (mode : Mode) (negated : Bool) : Bool :=
  mode.unicode || !negated

/-- Dashes at the beginning of a class stand for themselves. -/
def dashes (mode : Mode) (items : List Nat) (cs : List Char) : List Nat × List Char :=
  match cs with
  | '-' :: rest => dashes mode (0 :: items) (mode.skip rest)
  | cs => (items, cs)
termination_by cs.length
decreasing_by
  have shorter := mode.length_skip_le rest
  simp only [List.length_cons]
  omega

/--
What follows an opening bracket: a sign of negation, dashes, or a closing
bracket that stands for itself.
-/
def opening? (mode : Mode) (cs : List Char) : Option (List Nat × List Char) :=
  let (negated, cs) := match mode.skip cs with
    | '^' :: cs => (true, mode.skip cs)
    | cs => (false, cs)
  let (items, rest) := match dashes mode [] cs with
    | ([], ']' :: rest) => ([0], mode.skip rest)
    | read => read
  if mayNegate mode negated && (items.isEmpty || (Atom.literal '-' false).standsInBrackets mode)
  then some (items, rest)
  else none

/-- The next character that is not blank; the sign of a comment is passed over. -/
def ahead? (mode : Mode) (cs : List Char) : Option Char :=
  if mode.spaced then
    match cs.dropWhile Text.isBlank with
    | '#' :: cs => (cs.dropWhile Text.isBlank).head?
    | cs => cs.head?
  else cs.head?

def member? (mode : Mode) (cs : List Char) : Option (List Char) := do
  let (low, rest) ← atom? mode cs
  guard (low.standsInBrackets mode)
  match mode.skip rest with
  | '-' :: rest =>
      if ahead? mode rest = some ']' || ahead? mode rest = some '-' then
        return '-' :: rest
      else
        let (high, rest) ← atom? mode (mode.skip rest)
        guard (high.standsInBrackets mode)
        match low, high with
        | .literal low _, .literal high _ => if low ≤ high then some rest else none
        | _, _ => none
  | rest => return rest

/-- Reads a class after its opening; `fuel` is more than the characters left. -/
def class? (mode : Mode) : Nat → List Bracket → Option Nat → List Nat → List Char →
    Option (Nat × List Char)
  | 0, _, _, _, _ => none
  | fuel + 1, outer, left, items, cs =>
      match mode.skip cs with
      | [] => none
      | '[' :: rest =>
          match namedClass? rest with
          | some (negated, rest) =>
              if mayNegate mode negated && !(mode.unicode && mode.ignoreCase) then
                class? mode fuel outer left (0 :: items) rest
              else none
          | none =>
              (opening? mode rest).bind fun inner =>
                class? mode fuel (⟨items, left⟩ :: outer) none inner.1 inner.2
      | ']' :: rest =>
          match outer with
          | [] => some (joined left items + 1, rest)
          | bracket :: outer =>
              class? mode fuel outer bracket.left
                ((joined left items + 1) :: bracket.before) rest
      | '&' :: '&' :: rest | '-' :: '-' :: rest | '~' :: '~' :: rest =>
          class? mode fuel outer (some (joined left items)) [] rest
      | cs => (member? mode cs).bind (class? mode fuel outer left (0 :: items))

def brackets? (mode : Mode) (cs : List Char) : Option (Nat × List Char) :=
  (opening? mode cs).bind fun inner =>
    class? mode (cs.length + 1) [] none inner.1 inner.2

end BlockPool.Pattern
