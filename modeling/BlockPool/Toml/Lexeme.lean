/-!
# Lexemes of TOML

Every reader takes what it reads from the front of a text and returns it with
the text that is left, or fails.
-/

namespace BlockPool.Toml

/-! ## Blanks, comments and line ends -/

def isBlank (c : Char) : Bool := c = ' ' || c = '\t'

def skipBlanks (cs : List Char) : List Char := cs.dropWhile isBlank

/-- Printable characters and the tab; all characters beyond ASCII count as printable. -/
def isPrintable (c : Char) : Bool :=
  c = '\t' || (' ' ≤ c && c ≤ '~') || '\x80' ≤ c

def skipComment : List Char → List Char
  | '#' :: cs => cs.dropWhile isPrintable
  | cs => cs

def lineEnd (cs : List Char) : Option (List Char) :=
  match skipComment (skipBlanks cs) with
  | [] => some []
  | '\n' :: rest => some rest
  | '\r' :: '\n' :: rest => some rest
  | _ => none

def gaps : Bool → List Char → Option (List Char)
  | _, '\n' :: cs => gaps false cs
  | _, '\r' :: '\n' :: cs => gaps false cs
  | true, c :: cs => if isPrintable c then gaps true cs else none
  | true, [] => none
  | false, '#' :: cs => gaps true cs
  | false, ' ' :: cs => gaps false cs
  | false, '\t' :: cs => gaps false cs
  | false, cs => some cs

def skipGaps (cs : List Char) : Option (List Char) := gaps false cs

/-! ## Digits -/

def isHexDigit (c : Char) : Bool :=
  c.isDigit || ('a' ≤ c && c ≤ 'f') || ('A' ≤ c && c ≤ 'F')

def digitValue (c : Char) : Nat :=
  if c.isDigit then c.toNat - '0'.toNat
  else if 'a' ≤ c then c.toNat - 'a'.toNat + 10
  else c.toNat - 'A'.toNat + 10

def numeral (base : Nat) (digits : List Char) : Nat :=
  digits.foldl (fun value c => value * base + digitValue c) 0

/-! ## Strings -/

def escape? : Char → Option Char
  | 'b' => some '\x08'
  | 't' => some '\t'
  | 'n' => some '\n'
  | 'f' => some '\x0c'
  | 'r' => some '\r'
  | '"' => some '"'
  | '\\' => some '\\'
  | _ => none

def unicode? (digits : List Char) : Option Char :=
  let code := numeral 16 digits
  if digits.all isHexDigit ∧ code.isValidChar then
    some (Char.ofNat code)
  else
    none

def prepend (c : Option Char) (next : Option (List Char × List Char)) :
    Option (List Char × List Char) :=
  match c, next with
  | some c, some (text, rest) => some (c :: text, rest)
  | _, _ => none

def quoted : List Char → Option (List Char × List Char)
  | [] => none
  | '"' :: rest => some ([], rest)
  | '\\' :: 'u' :: a :: b :: c :: d :: cs =>
      prepend (unicode? [a, b, c, d]) (quoted cs)
  | '\\' :: 'U' :: a :: b :: c :: d :: e :: f :: g :: h :: cs =>
      prepend (unicode? [a, b, c, d, e, f, g, h]) (quoted cs)
  | '\\' :: c :: cs => prepend (escape? c) (quoted cs)
  | c :: cs =>
      if isPrintable c && c ≠ '\\' then prepend (some c) (quoted cs) else none

def literal : List Char → Option (List Char × List Char)
  | [] => none
  | '\'' :: rest => some ([], rest)
  | c :: cs => if isPrintable c then prepend (some c) (literal cs) else none

/-! ### Strings over several lines -/

def skipLineBreak : List Char → List Char
  | '\n' :: cs => cs
  | '\r' :: '\n' :: cs => cs
  | cs => cs

inductive Folding where
  | none
  | untilBreak
  | afterBreak
  deriving DecidableEq, Repr

/-- A string between threefold quotation marks; two more marks may end its text. -/
def quotedLines : Folding → List Char → Option (List Char × List Char)
  | _, [] => none
  | .untilBreak, '\n' :: cs => quotedLines .afterBreak cs
  | .untilBreak, '\r' :: '\n' :: cs => quotedLines .afterBreak cs
  | .untilBreak, c :: cs => if isBlank c then quotedLines .untilBreak cs else none
  | .afterBreak, ' ' :: cs => quotedLines .afterBreak cs
  | .afterBreak, '\t' :: cs => quotedLines .afterBreak cs
  | .afterBreak, '\n' :: cs => quotedLines .afterBreak cs
  | .afterBreak, '\r' :: '\n' :: cs => quotedLines .afterBreak cs
  | _, '"' :: '"' :: '"' :: '"' :: '"' :: rest => some (['"', '"'], rest)
  | _, '"' :: '"' :: '"' :: '"' :: rest => some (['"'], rest)
  | _, '"' :: '"' :: '"' :: rest => some ([], rest)
  | _, '\n' :: cs => prepend (some '\n') (quotedLines .none cs)
  | _, '\r' :: '\n' :: cs => prepend (some '\n') (quotedLines .none cs)
  | _, '\\' :: ' ' :: cs => quotedLines .untilBreak cs
  | _, '\\' :: '\t' :: cs => quotedLines .untilBreak cs
  | _, '\\' :: '\n' :: cs => quotedLines .afterBreak cs
  | _, '\\' :: '\r' :: '\n' :: cs => quotedLines .afterBreak cs
  | _, '\\' :: 'u' :: a :: b :: c :: d :: cs =>
      prepend (unicode? [a, b, c, d]) (quotedLines .none cs)
  | _, '\\' :: 'U' :: a :: b :: c :: d :: e :: f :: g :: h :: cs =>
      prepend (unicode? [a, b, c, d, e, f, g, h]) (quotedLines .none cs)
  | _, '\\' :: c :: cs => prepend (escape? c) (quotedLines .none cs)
  | _, c :: cs =>
      if isPrintable c && c ≠ '\\' then
        prepend (some c) (quotedLines .none cs)
      else
        none

def literalLines : List Char → Option (List Char × List Char)
  | [] => none
  | '\'' :: '\'' :: '\'' :: '\'' :: '\'' :: rest => some (['\'', '\''], rest)
  | '\'' :: '\'' :: '\'' :: '\'' :: rest => some (['\''], rest)
  | '\'' :: '\'' :: '\'' :: rest => some ([], rest)
  | '\n' :: cs => prepend (some '\n') (literalLines cs)
  | '\r' :: '\n' :: cs => prepend (some '\n') (literalLines cs)
  | c :: cs => if isPrintable c then prepend (some c) (literalLines cs) else none

def string (cs : List Char) : Option (String × List Char) :=
  let text :=
    match cs with
    | '"' :: '"' :: '"' :: cs => quotedLines .none (skipLineBreak cs)
    | '"' :: cs => quoted cs
    | '\'' :: '\'' :: '\'' :: cs => literalLines (skipLineBreak cs)
    | '\'' :: cs => literal cs
    | _ => none
  text.map fun (text, rest) => (String.ofList text, rest)

/-! ## Keys -/

def isKeyChar (c : Char) : Bool := c.isAlphanum || c = '_' || c = '-'

def simpleKey (cs : List Char) : Option (String × List Char) :=
  let text :=
    match cs with
    | '"' :: cs => quoted cs
    | '\'' :: cs => literal cs
    | cs =>
        match cs.span isKeyChar with
        | ([], _) => none
        | found => some found
  text.map fun (text, rest) => (String.ofList text, rest)

def dottedKeys : Nat → List Char → Option (List String × List Char)
  | 0, _ => none
  | count + 1, cs =>
      match simpleKey (skipBlanks cs) with
      | none => none
      | some (key, rest) =>
          match skipBlanks rest with
          | '.' :: rest =>
              (dottedKeys count rest).map fun (keys, rest) => (key :: keys, rest)
          | rest => some ([key], rest)

/-- How deep values may be nested and how long dotted keys may be, plus one. -/
def depthLimit : Nat := 80

def key (cs : List Char) : Option ((List String × String) × List Char) :=
  match dottedKeys (depthLimit - 1) cs with
  | none => none
  | some (keys, rest) =>
      match keys.getLast? with
      | none => none
      | some last => some ((keys.dropLast, last), rest)

end BlockPool.Toml
