import BlockPool.CommandLine.Arguments
import BlockPool.Config.Text

/-!
# Invocations of the program

There are three commands.  Three options concern all of them and may stand
before or behind the name of the command; behind it they count for more.
-/

namespace BlockPool.CommandLine

/-! ## Numbers in arguments -/

def decimal? (digits : List Char) : Option Nat :=
  if !digits.isEmpty && digits.all Char.isDigit then
    some (Toml.numeral 10 digits)
  else
    none

/-- A size or a count: digits, perhaps with a plus sign, that fit a word. -/
def size? (text : String) : Option Nat :=
  let value :=
    match text.toList with
    | '+' :: digits => decimal? digits
    | digits => decimal? digits
  value.bind fun n => if n < UInt64.size then some n else none

def listValue? (text : String) : Option UInt16 :=
  let value :=
    match text.toList with
    | '+' :: digits => decimal? digits
    | '-' :: digits => (decimal? digits).filter fun n => n = 0
    | digits => decimal? digits
  value.bind fun n => if n < UInt16.size then some (UInt16.ofNat n) else none

def path? (text : String) : Option String := if text = "" then none else some text

/-! ## Options of all commands -/

structure Globals where
  config : Option String := none
  logLevel : Option String := none
  coalesce : Option Coalescing := none
  deriving DecidableEq, Repr

namespace Globals

def options : List (Opt Globals) :=
  [ .single "config" (some 'c') path? Globals.config
      fun path g => { g with config := some path },
    .single "log-level" none some Globals.logLevel
      fun level g => { g with logLevel := some level },
    .single "coalesce" none Coalescing.ofName? Globals.coalesce
      fun policy g => { g with coalesce := some policy } ]

def orElse (g h : Globals) : Globals :=
  { config := g.config.or h.config
    logLevel := g.logLevel.or h.logLevel
    coalesce := g.coalesce.or h.coalesce }

end Globals

/-! ## Commands -/

inductive Command where
  | list (size : Nat) (inserted deleted : List UInt16) (search : Option UInt16)
  | inspect (size : Nat) (allocated freed : List Nat)
  | stress (size threads iterations : Nat)
  deriving DecidableEq, Repr

structure ListSettings where
  size : Option Nat := none
  inserted : List UInt16 := []
  deleted : List UInt16 := []
  search : Option UInt16 := none

def ListSettings.options : List (Opt ListSettings) :=
  [ .single "size" (some 's') size? ListSettings.size
      fun size s => { s with size := some size },
    .several "insert" (some 'i') listValue?
      fun values s => { s with inserted := s.inserted ++ values },
    .several "delete" (some 'd') listValue?
      fun values s => { s with deleted := s.deleted ++ values },
    .single "search" none listValue? ListSettings.search
      fun value s => { s with search := some value } ]

def ListSettings.command (s : ListSettings) : Command :=
  .list (s.size.getD 1024) s.inserted s.deleted s.search

structure InspectSettings where
  size : Option Nat := none
  allocated : List Nat := []
  freed : List Nat := []

def InspectSettings.options : List (Opt InspectSettings) :=
  [ .single "size" (some 's') size? InspectSettings.size
      fun size s => { s with size := some size },
    .several "alloc" (some 'a') size?
      fun sizes s => { s with allocated := s.allocated ++ sizes },
    .several "free" (some 'f') size?
      fun positions s => { s with freed := s.freed ++ positions } ]

def InspectSettings.command (s : InspectSettings) : Command :=
  .inspect (s.size.getD 256) s.allocated s.freed

structure StressSettings where
  size : Option Nat := none
  threads : Option Nat := none
  iterations : Option Nat := none

def StressSettings.options : List (Opt StressSettings) :=
  [ .single "size" (some 's') size? StressSettings.size
      fun size s => { s with size := some size },
    .single "threads" (some 't') size? StressSettings.threads
      fun threads s => { s with threads := some threads },
    .single "iterations" (some 'i') size? StressSettings.iterations
      fun iterations s => { s with iterations := some iterations } ]

def StressSettings.command (s : StressSettings) : Command :=
  .stress (s.size.getD 65536) (s.threads.getD 4) (s.iterations.getD 1000)

/-! ## The whole line -/

structure Invocation where
  globals : Globals
  command : Command
  deriving DecidableEq, Repr

inductive Parsed where
  | refused
  | help
  | version
  | run (invocation : Invocation)
  deriving DecidableEq, Repr

def parseCommand {σ : Type} (options : List (Opt σ)) (standard : σ)
    (command : σ → Command) (outer : Globals) (arguments : List String) :
    Parsed :=
  let grammar : Grammar (Globals × σ) :=
    { options := Globals.options.map Opt.onFirst ++ options.map Opt.onSecond
      flags := [.help]
      commands := [] }
  match grammar.read arguments none ({}, standard) with
  | .finished (inner, settings) => .run ⟨inner.orElse outer, command settings⟩
  | .asked .help => .help
  | _ => .refused

def parseHelp (arguments : List String) : Parsed :=
  match arguments with
  | [] => .help
  | [name] =>
      if ["list", "stress", "inspect", "help"].contains name then .help
      else .refused
  | _ => .refused

def parse (arguments : List String) : Parsed :=
  let grammar : Grammar Globals :=
    { options := Globals.options
      flags := [.help, .version]
      commands := ["list", "stress", "inspect", "help"] }
  match grammar.read arguments none {} with
  | .command "list" rest globals =>
      parseCommand ListSettings.options {} ListSettings.command globals rest
  | .command "stress" rest globals =>
      parseCommand StressSettings.options {} StressSettings.command globals rest
  | .command "inspect" rest globals =>
      parseCommand InspectSettings.options {} InspectSettings.command globals rest
  | .command _ rest _ => parseHelp rest
  | .asked .help => .help
  | .asked .version => .version
  | _ => .refused

end BlockPool.CommandLine
