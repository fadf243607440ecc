/-!
# TOML values

A document is a table whose entries keep their order.  A table remembers how
it came about, because that decides which later lines may add to it.
-/

namespace BlockPool.Toml

inductive Scalar where
  | string (text : String)
  | integer (value : Int)
  | boolean (value : Bool)
  deriving DecidableEq, Repr

inductive Origin where
  | header
  /-- By a header of a table below it. -/
  | implied
  | dotted
  | braces
  deriving DecidableEq, Repr

/-- Numbers with a fraction, and dates and times, are told apart but not evaluated. -/
inductive Value where
  | scalar (scalar : Scalar)
  | float
  | dateTime
  | array (items : List Value)
  | table (origin : Origin) (entries : List (String × Value))
  /-- Tables under one repeated header, the last one first. -/
  | tables (elements : List Value)
  deriving Repr

abbrev Entries := List (String × Value)

namespace Entries

def get? (entries : Entries) (key : String) : Option Value :=
  entries.lookup key

def replace (entries : Entries) (key : String) (value : Value) : Entries :=
  entries.map fun entry => if entry.1 = key then (key, value) else entry

def add (entries : Entries) (key : String) (value : Value) : Entries :=
  entries ++ [(key, value)]

/-- Changes the table at the end of a path, making the tables that are missing.

A path of dotted keys does not lead through a table that has a header of its
own, and no path leads through braces.  Under a repeated header the last table
is meant. -/
def within (dotted : Bool) (change : Origin → Entries → Option Entries) :
    List String → Origin → Entries → Option Entries
  | [], origin, entries => change origin entries
  | key :: path, _, entries =>
      match entries.get? key with
      | none =>
          let origin := if dotted then Origin.dotted else Origin.implied
          (within dotted change path origin []).map fun inner =>
            entries.add key (.table origin inner)
      | some (.table origin inner) =>
          if origin = .braces ∨ dotted = true ∧ origin = .header then
            none
          else
            (within dotted change path origin inner).map fun inner =>
              entries.replace key (.table origin inner)
      | some (.tables (.table origin inner :: earlier)) =>
          (within dotted change path origin inner).map fun inner =>
            entries.replace key (.tables (.table origin inner :: earlier))
      | some _ => none

/-- Adds a value under a dotted key.

A table that a header made or implied takes plain keys only, one that dotted
keys made takes dotted keys only, and no key is given twice. -/
def insert (path : List String) (key : String) (value : Value) :
    Origin → Entries → Option Entries :=
  within true
    (fun origin entries =>
      if decide (origin = .dotted) = path.isEmpty then none
      else if (entries.get? key).isSome then none
      else some (entries.add key value))
    path

def openTable (path : List String) (key : String) :
    Origin → Entries → Option Entries :=
  within false
    (fun _ entries =>
      match entries.get? key with
      | none => some (entries.add key (.table .header []))
      | some (.table .implied inner) =>
          some (entries.replace key (.table .header inner))
      | some _ => none)
    path

def openElement (path : List String) (key : String) :
    Origin → Entries → Option Entries :=
  within false
    (fun _ entries =>
      match entries.get? key with
      | none => some (entries.add key (.tables [.table .header []]))
      | some (.tables elements) =>
          some (entries.replace key (.tables (.table .header [] :: elements)))
      | some _ => none)
    path

end Entries

end BlockPool.Toml
