import BlockPool.CommandLine.Program

/-!
# Entry point

Reads the configuration file that the command line or the environment names,
lets the program respond, and prints what it says.
-/

namespace BlockPool.CommandLine

def readFault (number : UInt32) (text : String) : ReadFault :=
  match (if number < 0x80000000 then number else -number).toNat with
  | 2 => .notFound
  | 20 => .notDirectory
  | 21 => .isDirectory
  | 36 => .nameTooLong
  | _ => .other text

def faultOf (error : IO.Error) : ReadFault :=
  match error with
  | .noFileOrDirectory _ number _ => readFault number (toString error)
  | .inappropriateType _ number _ => readFault number (toString error)
  | .invalidArgument _ number _ => readFault number (toString error)
  | _ => .other (toString error)

def readConfig (arguments : List String) : IO Files := do
  match parse arguments with
  | .run invocation =>
      match invocation.globals.config with
      | none => return fun _ => .error .notFound
      | some path =>
          try
            let text ← IO.FS.readFile path
            return fun _ => .ok text
          catch error => return fun _ => .error (faultOf error)
  | _ => return fun _ => .error .notFound

/-- A configuration file from the environment goes in front of the arguments. -/
def withEnvironment (arguments : List String) : IO (List String) := do
  match parse arguments with
  | .run invocation =>
      match invocation.globals.config, ← IO.getEnv "MEMPOOL_CONFIG" with
      | none, some path => return ("--config=" ++ path) :: arguments
      | _, _ => return arguments
  | _ => return arguments

end BlockPool.CommandLine

open BlockPool.CommandLine in
def main (arguments : List String) : IO UInt32 := do
  let arguments ← withEnvironment arguments
  let files ← readConfig arguments
  let seed ← IO.rand 0 0xFFFFFFFF
  let outcome := respond files (UInt64.ofNat seed) arguments
  IO.print outcome.output
  unless outcome.error.isEmpty do
    IO.eprintln outcome.error
  return UInt32.ofNat outcome.status
