import BlockPool.CommandLine.Session
import BlockPool.LinkedList.Edit

/-!
# The list command

A list is filled, values are deleted from it, and it is shown.  A deletion of
a value that is not in the list is reported and does not count as a failure.
-/

namespace BlockPool.CommandLine

inductive ListLine where
  | notDeleted (value : UInt16)
  | shown (text : String)
  | counted (count : Nat)
  | found (value : UInt16) (node : NodeRef)
  | notFound (value : UInt16)
  | statistics (statistics : Statistics)
  deriving DecidableEq, Repr

def ListLine.text : ListLine → String
  | .notDeleted value => s!"delete {value}: not in list"
  | .shown text => s!"list: {text}"
  | .counted count => s!"count: {count}"
  | .found value node => s!"search {value}: found at {node.text}"
  | .notFound value => s!"search {value}: not in list"
  | .statistics last => last.text

namespace ListReport

open Session

def insertAll : List UInt16 → LinkedList → Session ListLine LinkedList
  | [], l => pure l
  | value :: values, l => do
      let (_, l) ← orFailWith (.insertion value) (l.insert value)
      insertAll values l

def deleteAll : List UInt16 → LinkedList → Session ListLine LinkedList
  | [], l => pure l
  | value :: values, l =>
      match l.delete value with
      | (.ok (), l) => deleteAll values l
      | (.error (.valueNotFound _), l) => do
          print (.notDeleted value)
          deleteAll values l
      | (.error error, _) => fail (.deletion value error)

def searchFor (l : LinkedList) : Option UInt16 → Session ListLine Unit
  | none => pure ()
  | some value => do
      match ← orFail .list (l.search value) with
      | some node => print (.found value node)
      | none => print (.notFound value)

def run (config : Config) (size : Nat) (inserted deleted : List UInt16)
    (search : Option UInt16) : Session ListLine Unit := do
  let pool ← orFail .invalidConfig (Pool.withConfig config)
  let l ← orFail .listSetUp (LinkedList.ofPool pool size)
  let l ← insertAll inserted l
  let l ← deleteAll deleted l
  print (.shown (← orFail .list l.display))
  print (.counted (← orFail .list l.length))
  searchFor l search
  let (statistics, _) ← orFailWith .cleanUp l.cleanup
  print (.statistics statistics)

end ListReport

end BlockPool.CommandLine
