import BlockPool.CommandLine.Invocation
import BlockPool.Pattern.Expression
import BlockPool.Text.Slice

/-!
# Log filters

A log filter is a list of directives between commas.  A directive is a level,
a target, or a target and perhaps a span with fields, followed by a level.
Nothing is logged here, so it only matters which filters are well formed.
-/

namespace BlockPool.CommandLine.LogFilter

def levelNames : List (List Char) :=
  ["trace", "debug", "info", "warn", "error", "off"].map String.toList

def isLevel (cs : List Char) : Bool :=
  cs.isEmpty || levelNames.contains (cs.map Char.toLower) ||
    match size? (String.ofList cs) with
    | none => false
    | some n => n ≤ 5

/-! ## Fields -/

def isInfinityOrNaN (cs : List Char) : Bool :=
  (["inf", "infinity", "nan"].map String.toList).contains (cs.map Char.toLower)

def isExponent : List Char → Bool
  | [] => true
  | e :: cs =>
      let digits := match cs with
        | '+' :: cs | '-' :: cs => cs
        | cs => cs
      (e = 'e' || e = 'E') && !digits.isEmpty && digits.all Char.isDigit

def isUnsigned (cs : List Char) : Bool :=
  let whole := cs.takeWhile Char.isDigit
  match cs.dropWhile Char.isDigit with
  | '.' :: cs =>
      let places := cs.takeWhile Char.isDigit
      !(whole.isEmpty && places.isEmpty) && isExponent (cs.dropWhile Char.isDigit)
  | cs => !whole.isEmpty && isExponent cs

/--
The value of a field is a truth value, a number or a pattern.  A number is a
pattern too, unless it begins with a plus.
-/
def isValue : List Char → Bool
  | '+' :: cs => isInfinityOrNaN cs || isUnsigned cs
  | cs => Pattern.isPattern cs

/-- A field is a name and perhaps a value; more equals signs are of no account. -/
def isField (cs : List Char) : Bool :=
  !cs.isEmpty &&
    match cs.dropWhile (· ≠ '=') with
    | [] => true
    | _ :: value => isValue (value.takeWhile (· ≠ '='))

/-! ## Directives -/

inductive State where
  | start
  | target
  | span
  | field (first : Nat)
  | fields
  | spanned
  deriving DecidableEq, Repr

def startsTarget (c : Char) : Bool :=
  c = '-' || c = ':' || c = '_' || Text.isAlphanumeric c

/--
Reads a directive from its byte `n` on.  Fields and levels are taken from `text`
at the places counted so far.
-/
def directive (text : List Char) : State → Nat → List Char → Bool
  | .start, n, '[' :: cs => directive text .span (n + 1) cs
  | .start, n, c :: cs => startsTarget c && directive text .target (n + c.utf8Size) cs
  | .start, _, [] => false
  | .target, n, '=' :: _ => (Text.dropBytes? (n + 1) text).any isLevel
  | .target, n, '[' :: cs => directive text .span (n + 1) cs
  | .target, n, c :: cs => directive text .target (n + c.utf8Size) cs
  | .target, _, [] => true
  | .span, n, ']' :: cs => directive text .spanned (n + 1) cs
  | .span, n, '\x7b' :: cs => directive text (.field (n + 1)) (n + 1) cs
  | .span, n, c :: cs => directive text .span (n + c.utf8Size) cs
  | .span, _, [] => false
  | .field first, n, '\x7d' :: cs =>
      (Text.slice? text first n).any isField && directive text .fields (n + 1) cs
  | .field first, n, c :: cs => directive text (.field first) (n + c.utf8Size) cs
  | .field _, _, [] => false
  | .fields, n, ']' :: cs => directive text .spanned (n + 1) cs
  | .fields, _, _ => false
  | .spanned, n, '=' :: _ => (Text.dropBytes? (n + 1) text).any isLevel
  | .spanned, _, [] => true
  | .spanned, _, _ :: _ => false

/--
Places are counted from the first character that is not blank, and texts are
taken from the whole part, so blanks in front put them out of step.
-/
def isDirective (cs : List Char) : Bool :=
  directive cs .start 0 (Text.trim cs)

def isFilter (text : String) : Bool :=
  ((text.splitOn ",").filter fun part => part ≠ "").all fun part =>
    isDirective part.toList

end BlockPool.CommandLine.LogFilter
