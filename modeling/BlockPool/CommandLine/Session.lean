import BlockPool.CommandLine.FileTree
import BlockPool.LinkedList.Error

/-!
# Sessions of a command

A session prints lines and ends with a result or with a failure.  The lines
printed before a failure stay.
-/

namespace BlockPool.CommandLine

inductive Failure where
  | badLogLevel (level : String)
  | unreadableConfig (path : String) (fault : ReadFault)
  | malformedConfig (path : String)
  | rejectedConfig (path : String) (fault : ConfigFault)
  | invalidConfig (error : PoolError)
  | poolSetUp (error : PoolError)
  | listSetUp (error : PoolError)
  | insertion (value : UInt16) (error : ListError)
  | deletion (value : UInt16) (error : ListError)
  | cleanUp (error : ListError)
  | list (error : ListError)
  | noSuchAllocation (position count : Nat)
  | release (position : Nat) (error : PoolError)
  | invariants (error : PoolError)
  | pool (error : PoolError)
  deriving DecidableEq, Repr

namespace Failure

def context : Failure → String
  | badLogLevel level => s!"invalid log level \x60{level}\x60"
  | unreadableConfig path _ => s!"failed to read config file {path}"
  | malformedConfig path => s!"failed to parse config file {path}"
  | rejectedConfig path _ => s!"invalid pool config in {path}"
  | invalidConfig _ => "invalid pool config"
  | poolSetUp _ => "failed to initialize pool"
  | listSetUp _ => "failed to initialize list"
  | insertion value _ => s!"failed to insert {value}"
  | deletion value _ => s!"failed to delete {value}"
  | cleanUp _ => "failed to clean up list"
  | list error => error.message
  | noSuchAllocation position count =>
      s!"--free {position}: only {count} allocations were made"
  | release position _ => s!"failed to free allocation #{position}"
  | invariants _ => "pool invariants violated"
  | pool error => error.message

def cause : Failure → Option String
  | badLogLevel _ => some "invalid filter directive"
  | unreadableConfig _ fault => some fault.message
  | malformedConfig _ => some "not a table of pool settings"
  | rejectedConfig _ fault => some (PoolError.invalidConfig fault).message
  | invalidConfig error => some error.message
  | poolSetUp error => some error.message
  | listSetUp error => some error.message
  | insertion _ error => some error.message
  | deletion _ error => some error.message
  | cleanUp error => some error.message
  | release _ error => some error.message
  | invariants error => some error.message
  | list _ | noSuchAllocation .. | pool _ => none

def text (f : Failure) : String :=
  match f.cause with
  | none => s!"Error: {f.context}"
  | some cause => s!"Error: {f.context}\n\nCaused by:\n    {cause}"

end Failure

structure Session (Line α : Type) where
  lines : List Line
  result : Except Failure α

namespace Session

variable {Line α β : Type}

instance : Monad (Session Line) where
  pure a := ⟨[], .ok a⟩
  bind s next :=
    match s with
    | ⟨lines, .error failure⟩ => ⟨lines, .error failure⟩
    | ⟨lines, .ok a⟩ =>
        let rest := next a
        ⟨lines ++ rest.lines, rest.result⟩

def print (line : Line) : Session Line Unit := ⟨[line], .ok ()⟩

def fail (failure : Failure) : Session Line α := ⟨[], .error failure⟩

def orFail {ε : Type} (failure : ε → Failure) :
    Except ε α → Session Line α
  | .error error => fail (failure error)
  | .ok a => pure a

def orFailWith {ε σ : Type} (failure : ε → Failure) :
    Except ε α × σ → Session Line (α × σ)
  | (.error error, _) => fail (failure error)
  | (.ok a, state) => pure (a, state)

def mapLines {Other : Type} (change : Line → Other) (s : Session Line α) :
    Session Other α :=
  ⟨s.lines.map change, s.result⟩

end Session

end BlockPool.CommandLine
