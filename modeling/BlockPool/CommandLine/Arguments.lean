/-!
# Arguments of a command

A command line is read from left to right.  An option takes the value that is
attached to it or the words after it, hands them to its own reader and may be
refused by it.  The reading ends with the last argument, with the name of a
command, or with a flag that asks for a text to be shown.
-/

namespace BlockPool.CommandLine

/-! ## The shape of one argument -/

inductive Shape where
  /-- Two dashes alone, behind which no option is read any more. -/
  | endOfOptions
  | long (name : String) (attached : Option String)
  | short (letter : Char) (attached : Option String)
  /-- Everything else, a single dash included. -/
  | word
  deriving DecidableEq, Repr

def attachedToLong : List Char → Option String
  | [] => none
  | _ :: value => some (String.ofList value)

/-- What is left of a short option behind its letter; an equals sign in front is dropped. -/
def attachedToShort : List Char → Option String
  | [] => none
  | '=' :: value => some (String.ofList value)
  | value => some (String.ofList value)

def shape (argument : String) : Shape :=
  match argument.toList with
  | ['-', '-'] => .endOfOptions
  | '-' :: '-' :: cs =>
      let (name, rest) := cs.span fun c => c ≠ '='
      .long (String.ofList name) (attachedToLong rest)
  | '-' :: letter :: rest => .short letter (attachedToShort rest)
  | _ => .word

/-! ## Options and flags -/

structure Opt (σ : Type) where
  long : String
  short : Option Char
  many : Bool
  store : List String → σ → Option σ

namespace Opt

variable {σ τ α : Type}

def single (long : String) (short : Option Char) (read : String → Option α)
    (get : σ → Option α) (set : α → σ → σ) : Opt σ :=
  { long, short
    many := false
    store := fun values settings =>
      match values, get settings with
      | [value], none => (read value).map fun value => set value settings
      | _, _ => none }

/-- An option with values between commas or in words of their own, over all occurrences. -/
def several (long : String) (short : Option Char) (read : String → Option α)
    (append : List α → σ → σ) : Opt σ :=
  { long, short
    many := true
    store := fun values settings =>
      let parts := values.flatMap fun value => value.splitOn ","
      (parts.mapM read).map fun values => append values settings }

def onFirst (o : Opt σ) : Opt (σ × τ) :=
  { long := o.long
    short := o.short
    many := o.many
    store := fun values settings =>
      (o.store values settings.1).map fun first => (first, settings.2) }

def onSecond (o : Opt τ) : Opt (σ × τ) :=
  { long := o.long
    short := o.short
    many := o.many
    store := fun values settings =>
      (o.store values settings.2).map fun second => (settings.1, second) }

end Opt

inductive Flag where
  | help
  | version
  deriving DecidableEq, Repr

def Flag.long : Flag → String
  | help => "help"
  | version => "version"

def Flag.short : Flag → Char
  | help => 'h'
  | version => 'V'

structure Grammar (σ : Type) where
  options : List (Opt σ)
  flags : List Flag
  commands : List String

/-! ## Meanings of arguments -/

inductive Meaning (σ : Type) where
  | endOfOptions
  | option (option : Opt σ) (attached : Option String)
  | flag (flag : Flag)
  | word
  | unknown

namespace Grammar

variable {σ : Type}

def longMeaning (g : Grammar σ) (name : String) (attached : Option String) :
    Meaning σ :=
  match g.options.find? fun option => option.long = name with
  | some option => .option option attached
  | none =>
      match g.flags.find? fun flag => flag.long = name, attached with
      | some flag, none => .flag flag
      | _, _ => .unknown

/-- What stands behind the letter of a flag is not looked at. -/
def shortMeaning (g : Grammar σ) (letter : Char) (attached : Option String) :
    Meaning σ :=
  match g.options.find? fun option => option.short = some letter with
  | some option => .option option attached
  | none =>
      match g.flags.find? fun flag => flag.short = letter with
      | some flag => .flag flag
      | none => .unknown

def meaning (g : Grammar σ) (argument : String) : Meaning σ :=
  match shape argument with
  | .endOfOptions => .endOfOptions
  | .long name attached => g.longMeaning name attached
  | .short letter attached => g.shortMeaning letter attached
  | .word => .word

end Grammar

/-! ## Reading a line -/

structure Pending (σ : Type) where
  option : Opt σ
  values : List String

def settle {σ : Type} (settings : σ) : Option (Pending σ) → Option σ
  | none => some settings
  | some ⟨_, []⟩ => none
  | some ⟨option, values⟩ => option.store values settings

inductive Reading (σ : Type) where
  | refused
  | asked (flag : Flag)
  | finished (settings : σ)
  | command (name : String) (rest : List String) (settings : σ)

def Reading.proceed {σ : Type} (settings : Option σ) (next : σ → Reading σ) :
    Reading σ :=
  match settings with
  | none => .refused
  | some settings => next settings

def Grammar.read {σ : Type} (g : Grammar σ) :
    List String → Option (Pending σ) → σ → Reading σ
  | [], pending, settings => .proceed (settle settings pending) .finished
  | argument :: rest, pending, settings =>
      match g.meaning argument, pending with
      | .word, some ⟨option, values⟩ =>
          if option.many then
            g.read rest (some ⟨option, values ++ [argument]⟩) settings
          else
            .proceed (option.store [argument] settings) (g.read rest none)
      | .word, none =>
          if g.commands.contains argument then
            .command argument rest settings
          else
            .refused
      | .endOfOptions, pending =>
          .proceed (settle settings pending) fun settings =>
            if rest.isEmpty then .finished settings else .refused
      | .flag flag, pending =>
          .proceed (settle settings pending) fun _ => .asked flag
      | .option option none, pending =>
          .proceed (settle settings pending) (g.read rest (some ⟨option, []⟩))
      | .option option (some value), pending =>
          .proceed (settle settings pending) fun settings =>
            .proceed (option.store [value] settings) (g.read rest none)
      | .unknown, _ => .refused

end BlockPool.CommandLine
