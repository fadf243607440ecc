import BlockPool.Toml.Number
import BlockPool.Toml.Value

/-!
# TOML documents

A document is read line by line: comments, pairs of a key and a value, and the
headers that say which table the pairs after them belong to.
-/

namespace BlockPool.Toml

/-! ## Values -/

def items (item : List Char → Option (Value × List Char)) :
    Nat → List Char → Option (List Value × List Char)
  | 0, _ => none
  | fuel + 1, cs => do
      match ← skipGaps cs with
      | ']' :: rest => some ([], rest)
      | cs =>
          let (value, rest) ← item cs
          match ← skipGaps rest with
          | ',' :: rest =>
              let (values, rest) ← items item fuel rest
              some (value :: values, rest)
          | ']' :: rest => some ([value], rest)
          | _ => none

def pair (item : List Char → Option (Value × List Char)) (cs : List Char) :
    Option ((List String × String) × Value × List Char) := do
  let (path, rest) ← key cs
  match rest with
  | '=' :: rest =>
      let (value, rest) ← item (skipBlanks rest)
      some (path, value, rest)
  | _ => none

def pairs (item : List Char → Option (Value × List Char)) :
    Nat → Entries → List Char → Option (Entries × List Char)
  | 0, _, _ => none
  | fuel + 1, entries, cs => do
      let ((path, key), value, rest) ← pair item cs
      let entries ← Entries.insert path key value .braces entries
      match skipBlanks rest with
      | ',' :: rest => pairs item fuel entries rest
      | '}' :: rest => some (entries, rest)
      | _ => none

def scalar (cs : List Char) : Option (Value × List Char) :=
  match cs with
  | 't' :: 'r' :: 'u' :: 'e' :: rest => some (.scalar (.boolean true), rest)
  | 'f' :: 'a' :: 'l' :: 's' :: 'e' :: rest =>
      some (.scalar (.boolean false), rest)
  | _ =>
      match string cs with
      | some (text, rest) => some (.scalar (.string text), rest)
      | none =>
          match dateTime cs with
          | some rest => some (.dateTime, rest)
          | none =>
              match float cs with
              | some rest => some (.float, rest)
              | none =>
                  (integer cs).map fun (value, rest) =>
                    (.scalar (.integer value), rest)

/-- A value that nests less than `depth` deep, with no blanks in front. -/
def value : Nat → List Char → Option (Value × List Char)
  | 0, _ => none
  | 1, cs => scalar cs
  | depth + 1, '[' :: cs =>
      (items (value depth) (cs.length + 1) cs).map fun (values, rest) =>
        (.array values, rest)
  | depth + 1, '{' :: cs =>
      match skipBlanks cs with
      | '}' :: rest => some (.table .braces [], rest)
      | _ =>
          (pairs (value depth) (cs.length + 1) [] cs).map fun (entries, rest) =>
            (.table .braces entries, rest)
  | _ + 1, cs => scalar cs

/-! ## Lines -/

structure Document where
  entries : Entries
  current : List String
  deriving Repr

namespace Document

def empty : Document := ⟨[], []⟩

def header (cs : List Char) (close : List Char → Option (List Char)) :
    Option ((List String × String) × List Char) := do
  let (path, rest) ← key cs
  let rest ← lineEnd (← close rest)
  some (path, rest)

def line (d : Document) (cs : List Char) : Option (Document × List Char) :=
  match cs with
  | '#' :: _ | '\n' :: _ | '\r' :: _ => (lineEnd cs).map fun rest => (d, rest)
  | '[' :: '[' :: cs => do
      let ((path, key), rest) ←
        header cs fun rest => (expect ']' rest).bind (expect ']')
      let entries ← Entries.openElement path key .header d.entries
      some (⟨entries, path ++ [key]⟩, rest)
  | '[' :: cs => do
      let ((path, key), rest) ← header cs (expect ']')
      let entries ← Entries.openTable path key .header d.entries
      some (⟨entries, path ++ [key]⟩, rest)
  | cs => do
      let ((path, key), value, rest) ← pair (value depthLimit) cs
      let rest ← lineEnd rest
      let entries ←
        Entries.within false (Entries.insert path key value) d.current .header
          d.entries
      some (⟨entries, d.current⟩, rest)

def lines : Nat → Document → List Char → Option Document
  | 0, _, _ => none
  | count + 1, d, cs =>
      match skipBlanks cs with
      | [] => some d
      | cs =>
          match d.line cs with
          | none => none
          | some (d, rest) => lines count d rest

end Document

/-- A byte order mark at the start says nothing. -/
def skipMark : List Char → List Char
  | '\uFEFF' :: cs => cs
  | cs => cs

/-- The entries of a document.  Every line has at least one character. -/
def parse (text : String) : Option Entries :=
  let cs := skipMark text.toList
  (Document.empty.lines (cs.length + 1) cs).map Document.entries

end BlockPool.Toml
