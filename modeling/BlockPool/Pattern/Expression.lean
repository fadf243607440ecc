import BlockPool.Pattern.Brackets
import BlockPool.Text.Alphanumeric

/-!
# Well-formed patterns

A pattern is a regular expression.  Nothing is matched with it here, so only
the form of an expression is kept: how deeply it is nested, and whether it asks
for the ends of words among all letters, which is not provided.
-/

namespace BlockPool.Pattern

structure Shape where
  depth : Nat
  wordEdge : Bool
  deriving DecidableEq, Repr

namespace Shape

def leaf : Shape := ⟨0, false⟩

def nest (shape : Shape) : Shape := ⟨shape.depth + 1, shape.wordEdge⟩

def join (shapes : List Shape) : Shape :=
  ⟨depthOf (shapes.map depth), shapes.any wordEdge⟩

end Shape

/-- A part of a branch; settings are not an expression that can be repeated. -/
inductive Piece where
  | settings
  | expression (shape : Shape)
  deriving DecidableEq, Repr

def Piece.shape : Piece → Shape
  | settings => Shape.leaf
  | expression shape => shape

structure Group where
  mode : Mode
  branches : List Shape
  pieces : List Piece
  deriving DecidableEq, Repr

/-- How far a pattern has been read; pieces and branches are kept last first. -/
structure Reading where
  mode : Mode
  outer : List Group
  branches : List Shape
  pieces : List Piece
  names : List (List Char)
  deriving DecidableEq, Repr

namespace Reading

def start : Reading := ⟨.standard, [], [], [], []⟩

def add (reading : Reading) (shape : Shape) : Reading :=
  { reading with pieces := .expression shape :: reading.pieces }

def shape (reading : Reading) : Shape :=
  Shape.join (Shape.join (reading.pieces.map Piece.shape) :: reading.branches)

def branch (reading : Reading) : Reading :=
  { reading with
    branches := Shape.join (reading.pieces.map Piece.shape) :: reading.branches
    pieces := [] }

def enter (reading : Reading) (mode : Mode) : Reading :=
  { reading with
    mode
    outer := ⟨reading.mode, reading.branches, reading.pieces⟩ :: reading.outer
    branches := []
    pieces := [] }

/-- A closed group is an expression in the mode in which it was opened. -/
def leave? (reading : Reading) : Option Reading :=
  match reading.outer with
  | [] => none
  | group :: outer =>
      some { reading with
        mode := group.mode
        outer
        branches := group.branches
        pieces := .expression reading.shape.nest :: group.pieces }

/-- Repeats the last expression; one that is repeated `never` asks for nothing. -/
def repeat? (reading : Reading) (never : Bool) : Option Reading :=
  match reading.pieces with
  | .expression shape :: pieces =>
      some { reading with
        pieces :=
          .expression ⟨shape.depth + 1, shape.wordEdge && !never⟩ :: pieces }
  | _ => none

def take? (reading : Reading) (atom : Atom) : Option Reading :=
  if atom.standsAlone reading.mode then
    some (reading.add ⟨0, reading.mode.unicode && atom = .edge true⟩)
  else none

end Reading

/-! ## Repetition -/

def dropLazy : List Char → List Char
  | '?' :: cs => cs
  | cs => cs

def digits (mode : Mode) (value : Option Nat) (cs : List Char) :
    Option Nat × List Char :=
  match cs with
  | [] => (value, [])
  | c :: rest =>
      if c.isDigit then
        digits mode (some (10 * value.getD 0 + (c.toNat - 48))) (mode.skip rest)
      else (value, c :: rest)
termination_by cs.length
decreasing_by
  have shorter := mode.length_skip_le rest
  simp only [List.length_cons]
  omega

def times? (mode : Mode) (cs : List Char) : Option (Nat × List Char) :=
  match digits mode none (cs.dropWhile Text.isBlank) with
  | (some n, rest) =>
      if n < UInt32.size then some (n, rest.dropWhile Text.isBlank) else none
  | (none, _) => none

def bounds? (mode : Mode) (cs : List Char) : Option (Bool × List Char) := do
  let (least, rest) ← times? mode (mode.skip cs)
  match rest with
  | '\x7d' :: rest => return (least = 0, rest)
  | ',' :: rest =>
      match mode.skip rest with
      | '\x7d' :: rest => return (false, rest)
      | rest =>
          let (most, rest) ← times? mode rest
          match rest with
          | '\x7d' :: rest => if least ≤ most then some (most = 0, rest) else none
          | _ => none
  | _ => none

/-! ## Groups -/

def isName : List Char → Bool
  | [] => false
  | c :: cs =>
      (c = '_' || Text.isAlphabetic c) && cs.all fun c =>
        c = '_' || c = '.' || c = '[' || c = ']' || Text.isAlphanumeric c

def namedGroup? (reading : Reading) (cs : List Char) : Option (Reading × List Char) :=
  let name := cs.takeWhile (· ≠ '>')
  match cs.dropWhile (· ≠ '>') with
  | '>' :: rest =>
      if isName name && !reading.names.contains name then
        some ({ reading with names := name :: reading.names }.enter reading.mode, rest)
      else none
  | _ => none

def settingsGroup? (reading : Reading) (cs : List Char) : Option (Reading × List Char) := do
  let (settings, rest) ← settings? [] true cs
  let mode := reading.mode.setAll settings
  match rest with
  | ':' :: rest => return (reading.enter mode, rest)
  | ')' :: rest =>
      if settings.isEmpty then none
      else return ({ reading with mode, pieces := .settings :: reading.pieces }, rest)
  | _ => none

def group? (reading : Reading) (cs : List Char) : Option (Reading × List Char) :=
  match reading.mode.skip cs with
  | '?' :: 'P' :: '<' :: rest => namedGroup? reading rest
  | '?' :: '<' :: rest => namedGroup? reading rest
  | '?' :: rest => settingsGroup? reading rest
  | rest => some (reading.enter reading.mode, rest)

/-! ## Patterns -/

/-- Reads what the character `c` begins.  A dot is a character, not a byte. -/
def next? (reading : Reading) (c : Char) (cs : List Char) :
    Option (Reading × List Char) :=
  match c with
  | '(' => group? reading cs
  | ')' => reading.leave?.map fun reading => (reading, cs)
  | '|' => some (reading.branch, cs)
  | '[' =>
      (brackets? reading.mode cs).map fun read => (reading.add ⟨read.1, false⟩, read.2)
  | '?' | '*' | '+' =>
      (reading.repeat? false).map fun reading => (reading, dropLazy cs)
  | '\x7b' =>
      (bounds? reading.mode cs).bind fun read =>
        (reading.repeat? read.1).map fun after =>
          (after, dropLazy (reading.mode.skip read.2))
  | '.' => if reading.mode.unicode then some (reading.add Shape.leaf, cs) else none
  | '^' | '$' => some (reading.add Shape.leaf, cs)
  | '\\' =>
      (escape? reading.mode cs).bind fun read =>
        (reading.take? read.1).map fun reading => (reading, read.2)
  | c => (reading.take? (.literal c false)).map fun reading => (reading, cs)

/-- Reads to the end of a pattern; `fuel` is more than the characters left. -/
def read? : Nat → Reading → List Char → Option Shape
  | 0, _, _ => none
  | fuel + 1, reading, cs =>
      match reading.mode.skip cs with
      | [] => if reading.outer.isEmpty then some reading.shape else none
      | c :: rest =>
          (next? reading c rest).bind fun read => read? fuel read.1 read.2

def depthLimit : Nat := 250

def isPattern (cs : List Char) : Bool :=
  (read? (cs.length + 1) .start cs).any fun shape =>
    shape.depth ≤ depthLimit && !shape.wordEdge

end BlockPool.Pattern
