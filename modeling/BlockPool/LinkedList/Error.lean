import BlockPool.LinkedList.Node
import BlockPool.Pool.Error

/-!
# Errors of a list

A list passes the errors of its pool on as they are and adds its own.
-/

namespace BlockPool

inductive ListError where
  | nodeNotFound (node : NodeRef)
  | valueNotFound (value : UInt16)
  | closed
  | endless
  | pool (error : PoolError)
  deriving DecidableEq, Repr

namespace ListError

def message : ListError → String
  | nodeNotFound node => s!"Node {node.text} is not part of this list"
  | valueNotFound value => s!"No node holds value {value}"
  | closed => "List has been cleaned up"
  | endless => "List does not end"
  | pool error => error.message

def code : ListError → String
  | nodeNotFound .. => "LIST:NODE:NOT_FOUND"
  | valueNotFound .. => "LIST:VALUE:NOT_FOUND"
  | closed => "LIST:STATE:CLOSED"
  | endless => "LIST:STATE:ENDLESS"
  | pool error => error.code

def isRetryable : ListError → Bool
  | pool error => error.isRetryable
  | _ => false

def atNode (node : NodeRef) : PoolError → ListError
  | .notFound _ => nodeNotFound node
  | error => pool error

end ListError

end BlockPool
