import BlockPool.CommandLine.LayoutReport
import BlockPool.CommandLine.ListReport
import BlockPool.CommandLine.LogFilter
import BlockPool.CommandLine.StressReport

/-!
# The program

An invocation is carried out in this order: the log filter, the configuration
file, the coalescing policy given on the line, the command.
-/

namespace BlockPool.CommandLine

def configOfFile? (text : String) : Option Config :=
  match Toml.parse text with
  | none => none
  | some [] => some Config.default
  | some [("pool", value)] => Config.ofValue? value
  | some _ => none

open Session

def checkLogLevel {Line : Type} : Option String → Session Line Unit
  | none => pure ()
  | some level =>
      if LogFilter.isFilter level then pure () else fail (.badLogLevel level)

def loadConfig {Line : Type} (files : Files) :
    Option String → Session Line Config
  | none => pure Config.default
  | some path => do
      let text ← orFail (.unreadableConfig path) (files path)
      match configOfFile? text with
      | none => fail (.malformedConfig path)
      | some config =>
          orFail (.rejectedConfig path) config.validate
          return config

def runCommand (seed : UInt64) (config : Config) :
    Command → Session String Unit
  | .list size inserted deleted search =>
      (ListReport.run config size inserted deleted search).mapLines ListLine.text
  | .inspect size allocated freed =>
      (LayoutReport.run config size allocated freed).mapLines LayoutLine.text
  | .stress size threads iterations =>
      (StressReport.run seed config size threads iterations).mapLines
        StressLine.text

def execute (files : Files) (seed : UInt64) (invocation : Invocation) :
    Session String Unit := do
  let globals := invocation.globals
  checkLogLevel globals.logLevel
  let config ← loadConfig files globals.config
  let coalesce := globals.coalesce.getD config.coalesce
  runCommand seed { config with coalesce } invocation.command

/-! ## What the caller sees -/

structure Outcome where
  status : Nat
  output : String
  error : String
  deriving DecidableEq, Repr

def version : String := "mempool 0.1.0"

def usage : List String :=
  [ "Self-managed first-fit memory pool.",
    "",
    "Usage: mempool [OPTIONS] <COMMAND>",
    "",
    "Commands:",
    "  list     Build a pool-backed list and print it",
    "  stress   Hammer one pool with random work and verify it afterwards",
    "  inspect  Print the layout after a scripted allocation sequence",
    "",
    "Options:",
    "  -c, --config <CONFIG>        TOML file with a pool table",
    "      --log-level <LOG_LEVEL>  Log filter",
    "      --coalesce <COALESCE>    forward or bidirectional",
    "  -h, --help                   Print help",
    "  -V, --version                Print version" ]

def textOfLines (lines : List String) : String :=
  String.join (lines.map fun line => line ++ "\n")

def Outcome.ofSession (s : Session String Unit) : Outcome :=
  match s.result with
  | .ok () => ⟨0, textOfLines s.lines, ""⟩
  | .error failure => ⟨1, textOfLines s.lines, failure.text⟩

def respond (files : Files) (seed : UInt64) (arguments : List String) : Outcome :=
  match parse arguments with
  | .refused => ⟨2, "", "error: the command line was not understood"⟩
  | .help => ⟨0, textOfLines usage, ""⟩
  | .version => ⟨0, textOfLines [version], ""⟩
  | .run invocation => .ofSession (execute files seed invocation)

end BlockPool.CommandLine
