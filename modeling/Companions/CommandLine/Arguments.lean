import Companions.CommandLine.LogFormat
import Companions.File.Path
/-!
The command line: `ecsgen [-v] [--log-format F] process|inspect …`. Arguments are taken from the
left; an option's value is checked only when the next argument needs the option to be settled, so
that of two faults the one that is met first is reported.
-/
namespace Companions.CommandLine

inductive ArgumentError where
  | unknownArgument
  | invalidValue
  | missingArgument
  | conflict
  | tooManyValues
  | invalidSubcommand
  | missingSubcommand
  | help
  | version
  /-- Nothing was given at all. -/
  | helpOnMissing
  deriving DecidableEq, Repr

/-- Options are known at one level of the command line; the first five everywhere. -/
inductive Argument where
  | verbose
  | logFormat
  | help
  | version
  | reference
  | config
  | out
  | assembly
  deriving DecidableEq, Repr

inductive Subcommand where
  | process
  | inspect
  deriving DecidableEq, Repr

def Subcommand.ofName? : String → Option Subcommand
  | "process" => some .process
  | "inspect" => some .inspect
  | _ => none

namespace Argument

def takesValue : Argument → Bool
  | .verbose | .help | .version => false
  | _ => true

/-- Whether an option may stand before the subcommand, or behind the given one. -/
def allowed (level : Option Subcommand) : Argument → Bool
  | .verbose | .logFormat | .help => true
  | .version => level = none
  | .reference => level ≠ none
  | .config | .out => level = some .process
  | .assembly => false

def ofLong? : String → Option Argument
  | "verbose" => some .verbose
  | "log-format" => some .logFormat
  | "help" => some .help
  | "version" => some .version
  | "reference" => some .reference
  | "config" => some .config
  | "out" => some .out
  | _ => none

def ofShort? : Char → Option Argument
  | 'v' => some .verbose
  | 'h' => some .help
  | 'V' => some .version
  | 'r' => some .reference
  | 'c' => some .config
  | 'o' => some .out
  | _ => none

end Argument

/-- What was given at one level. -/
structure Given where
  verbose : Option Nat := none
  logFormat : Option LogFormat := none
  references : List Path := []
  config : Option Path := none
  out : Option Path := none
  assembly : Option Path := none
  deriving DecidableEq, Repr, Inhabited

namespace Given

/-- A path is any text but the empty one. -/
def path (value : String) : Except ArgumentError Path :=
  if value = "" then .error .invalidValue else .ok ⟨value⟩

/-- A second value for an option that takes one is a conflict, whatever the value. -/
def store (g : Given) (a : Argument) (value : String) : Except ArgumentError Given :=
  match a with
  | .logFormat =>
    if g.logFormat.isSome then .error .conflict
    else match LogFormat.ofName? value with
      | some f => .ok { g with logFormat := some f }
      | none => .error .invalidValue
  | .reference => do return { g with references := g.references ++ [← path value] }
  | .config =>
    if g.config.isSome then .error .conflict else do return { g with config := some (← path value) }
  | .out =>
    if g.out.isSome then .error .conflict else do return { g with out := some (← path value) }
  | .assembly => do return { g with assembly := some (← path value) }
  | .verbose | .help | .version => .error .tooManyValues

/-- A flag without value. Its count stops at 255. -/
def flag (g : Given) : Argument → Except ArgumentError Given
  | .verbose => .ok { g with verbose := some (min (g.verbose.getD 0 + 1) 255) }
  | .help => .error .help
  | .version => .error .version
  | _ => .error .invalidValue

end Given

/-- The state between two arguments of one level. -/
structure Reading where
  given : Given := {}
  /-- What was named last, with its value once that came. -/
  pending : Option (Argument × Option String) := none
  /-- Whether the place of the assembly is taken. -/
  placed : Bool := false
  /-- Whether `--` was met, behind which nothing is an option. -/
  trailing : Bool := false
  deriving Repr

namespace Reading

/-- Whether the next argument is the value of an option. -/
def awaits (r : Reading) : Bool := r.pending matches some (_, none)

/-- Takes in what is pending. -/
def settle (r : Reading) : Except ArgumentError Reading :=
  match r.pending with
  | none => .ok r
  | some (_, none) => .error .invalidValue
  | some (a, some value) => do return { r with given := ← r.given.store a value, pending := none }

/-- An option that takes a value: attached to it, or still to come. -/
def option (r : Reading) (a : Argument) (attached : Option String) : Except ArgumentError Reading := do
  let r ← r.settle
  match attached with
  | none => return { r with pending := some (a, none) }
  | some value => return { r with given := ← r.given.store a value }

def flag (r : Reading) (a : Argument) : Except ArgumentError Reading := do
  let r ← r.settle
  return { r with given := ← r.given.flag a }

/-- `--name` or `--name=value`, without the dashes. -/
def long (r : Reading) (level : Option Subcommand) (s : List Char) : Except ArgumentError Reading :=
  let name := String.ofList (s.takeWhile (· ≠ '='))
  let attached := match s.dropWhile (· ≠ '=') with
    | [] => none
    | _ :: value => some (String.ofList value)
  match (Argument.ofLong? name).filter (·.allowed level) with
  | none => .error .unknownArgument
  | some a =>
    if a.takesValue then r.option a attached
    else if attached.isSome then .error .tooManyValues
    else r.flag a

/-- Short options in a row; the first that takes a value takes the rest of the row, less an equals
sign in front of it. -/
def short (r : Reading) (level : Option Subcommand) : List Char → Except ArgumentError Reading
  | [] => .ok r
  | c :: rest =>
    match (Argument.ofShort? c).filter (·.allowed level) with
    | none => .error .unknownArgument
    | some a =>
      if a.takesValue then
        match rest with
        | [] => r.option a none
        | '=' :: value => r.option a (some (String.ofList value))
        | value => r.option a (some (String.ofList value))
      else do (← r.flag a).short level rest

/-- An argument that is neither an option nor the value of one. -/
def positional (r : Reading) (level : Option Subcommand) (s : String) : Except ArgumentError Reading :=
  match level with
  | none =>
    if r.trailing ∧ (s = "help" ∨ (Subcommand.ofName? s).isSome) then .error .unknownArgument
    else .error .invalidSubcommand
  | some _ =>
    if r.placed then .error .unknownArgument
    else do return { (← r.settle) with pending := some (.assembly, some s), placed := true }

def argument (r : Reading) (level : Option Subcommand) (s : String) : Except ArgumentError Reading :=
  if r.trailing then r.positional level s
  else
    match s.toList with
    | ['-', '-'] => .ok { r with trailing := true }
    | '-' :: '-' :: name => r.long level name
    | '-' :: c :: row => r.short level (c :: row)
    | _ =>
      match r.pending with
      | some (a, none) => .ok { r with pending := some (a, some s) }
      | _ => r.positional level s

end Reading

/-- All arguments of a subcommand. -/
def readSubcommand (c : Subcommand) (r : Reading) : List String → Except ArgumentError Given
  | [] => do
    let r ← r.settle
    if r.given.assembly.isSome then return r.given else throw .missingArgument
  | s :: rest => do readSubcommand c (← r.argument (some c) s) rest

/-- What stands behind `help`: at most one subcommand. -/
def helpTopic : List String → ArgumentError
  | [] => .help
  | [s] => if s = "help" ∨ (Subcommand.ofName? s).isSome then .help else .invalidSubcommand
  | _ => .invalidSubcommand

/-- A command line that was understood. -/
structure Arguments where
  verbose : Nat
  logFormat : Option LogFormat
  command : Subcommand
  assembly : Path
  references : List Path
  config : Option Path
  out : Option Path
  deriving DecidableEq, Repr

/-- The arguments up to the subcommand, and those behind it. A flag behind the subcommand wins
over the same one before it. -/
def readTop (r : Reading) : List String → Except ArgumentError Arguments
  | [] => do
    let r ← r.settle
    if r.given.verbose.isNone ∧ r.given.logFormat.isNone then throw .helpOnMissing
    else throw .missingSubcommand
  | s :: rest =>
    if !r.trailing && !r.awaits && s = "help" then .error (helpTopic rest)
    else
      match if r.trailing || r.awaits then none else Subcommand.ofName? s with
      | none => do readTop (← r.argument none s) rest
      | some c => do
        let inner ← readSubcommand c {} rest
        let outer := (← r.settle).given
        match inner.assembly with
        | none => throw .missingArgument
        | some assembly =>
          return {
            verbose := (inner.verbose.or outer.verbose).getD 0
            logFormat := inner.logFormat.or outer.logFormat
            command := c
            assembly := assembly
            references := inner.references
            config := inner.config
            out := inner.out }

/-- Reads the arguments behind the program's name. -/
def parse (arguments : List String) : Except ArgumentError Arguments := readTop {} arguments

end Companions.CommandLine
