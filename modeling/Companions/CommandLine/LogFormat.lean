import Companions.Text.Basic
/-!
How much of the journal is shown, and in which form: from the flags of the command line and from
the environment.
-/
namespace Companions

inductive LogFormat where
  | text
  | tree
  | json
  deriving DecidableEq, Repr, Inhabited

namespace LogFormat

def name : LogFormat → String
  | .text => "text"
  | .tree => "tree"
  | .json => "json"

def ofName? (s : String) : Option LogFormat := [text, tree, json].find? (·.name = s)

/-- A name with blanks around it, in whatever case. -/
def parse? (s : String) : Option LogFormat :=
  ofName? (String.ofList (Text.lower (Text.trim s.toList)))

end LogFormat

/-- What the flag for more detail asks for when it is given so many times. -/
def verbosityDirective : Nat → Option String
  | 0 => none
  | 1 => some "warn,ecsgen::activity=info"
  | 2 => some "warn,ecsgen::activity=debug"
  | 3 => some "debug"
  | _ => some "trace"

structure LogSettings where
  directive : String
  format : LogFormat
  /-- Off when only the activity log was asked for. -/
  showTargets : Bool
  deriving DecidableEq, Repr

namespace LogSettings

/-- The environment's directive wins over the flags, the flag's format over the environment's.
Nothing is shown if nothing asks for it. -/
def resolve? (verbosity : Nat) (format : Option LogFormat) (env : String → Option String) :
    Option LogSettings := do
  let explicit := (env "ECSGEN_LOG").or (env "RUST_LOG")
  let directive ← explicit.or (verbosityDirective verbosity)
  let format := format.or ((env "ECSGEN_LOG_FORMAT").bind LogFormat.parse?)
  return ⟨directive, format.getD .text, explicit.isSome || 3 ≤ verbosity⟩

end LogSettings
end Companions
