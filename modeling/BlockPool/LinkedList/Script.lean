import BlockPool.LinkedList.Edit
import BlockPool.Pool.Script

/-!
# Scripts on lists

Requests are the operations of a list as data; between them the pool below the
list may be used directly.
-/

namespace BlockPool.LinkedList

inductive Request where
  | insert (value : UInt16)
  | insertAfter (node : NodeRef) (value : UInt16)
  | insertBefore (node : NodeRef) (value : UInt16)
  | delete (value : UInt16)
  | search (value : UInt16)
  | displayRange (start stop : Option NodeRef)
  | display
  | length
  | values
  | first
  | value (node : NodeRef)
  | next (node : NodeRef)
  | cleanup
  | onPool (request : Pool.Request)
  deriving DecidableEq, Repr

inductive Reply where
  | done
  | node (node : NodeRef)
  | link (node : Option NodeRef)
  | value (value : UInt16)
  | values (values : List UInt16)
  | length (length : Nat)
  | text (text : String)
  | statistics (statistics : Statistics)
  deriving DecidableEq, Repr

/-- The answer to a request: of the list, or of the pool where that was used directly. -/
inductive Answer where
  | ofList (result : Except ListError Reply)
  | ofPool (result : Except PoolError Pool.Reply)

def answer {α : Type} (form : α → Reply) :
    Except ListError α × LinkedList → Answer × LinkedList
  | (result, l) => (.ofList (result.map form), l)

def perform (l : LinkedList) : Request → Answer × LinkedList
  | .insert value => answer .node (l.insert value)
  | .insertAfter node value => answer .node (l.insertAfter node value)
  | .insertBefore node value => answer .node (l.insertBefore node value)
  | .delete value => answer (fun _ => .done) (l.delete value)
  | .search value => (.ofList ((l.search value).map .link), l)
  | .displayRange start stop =>
      (.ofList ((l.displayRange start stop).map .text), l)
  | .display => (.ofList (l.display.map .text), l)
  | .length => (.ofList (l.length.map .length), l)
  | .values => (.ofList (l.values.map .values), l)
  | .first => (.ofList (l.first.map .link), l)
  | .value node => (.ofList ((l.value node).map .value), l)
  | .next node => (.ofList ((l.next node).map .link), l)
  | .cleanup => answer .statistics l.cleanup
  | .onPool request =>
      match l.onPool fun pool => pool.perform request with
      | (result, l) => (.ofPool result, l)

def run (l : LinkedList) : List Request → List Answer × LinkedList
  | [] => ([], l)
  | request :: rest =>
      let (result, l) := l.perform request
      let (results, l) := l.run rest
      (result :: results, l)

end BlockPool.LinkedList
