import Companions.CommandLine.Arguments
import Companions.CommandLine.Filter
import Companions.PostProcess
/-!
The two commands, and the program as a whole: from arguments, environment and files to output,
exit code and log.
-/
namespace Companions.CommandLine

/-- Why a command failed. -/
inductive CommandError where
  | config (error : ConfigError)
  | unreadable (assembly : Path) (error : ImageError)
  | unprocessed (assembly : Path) (error : PostProcessError)
  | unwritten (out : Path) (error : ImageError)
  | references (error : ImageError)
  deriving DecidableEq, Repr

/-- The messages from the outermost cause inward. -/
def CommandError.chain : CommandError → List String
  | .config e => e.chain
  | .unreadable p e => s!"failed to read assembly: {p.text}" :: e.chain
  | .unprocessed p e => s!"failed to process {p.text}" :: e.chain
  | .unwritten p e => s!"failed to write {p.text}" :: e.chain
  | .references e => "failed to load reference assemblies" :: e.chain

/-- What became of an assembly. -/
inductive Status where
  | ignored
  | unchanged
  | written (path : Path)
  deriving DecidableEq, Repr

/-- Target of the events about commands. -/
def commandTarget : String := "ecsgen_cli::driver"

/-- The named configuration file, or the one beside the assembly, or the defaults. -/
def resolveConfig (assembly : Path) (config : Option Path) : Script (Except ConfigError Config) :=
  match config with
  | some path => Config.load path
  | none => Config.discover (assembly.parent?.getD ⟨"."⟩)

/-- Processes an assembly into another file, changed or not. -/
def processTo (p : Processor) (budget : Nat) (assembly : Path) (references : List Path)
    (out : Path) : Script (Attempt CommandError Status) := do
  match ← Image.load assembly with
  | .error e => return .failed (.unreadable assembly e)
  | .ok m =>
    match (← p.run budget m references).2 with
    | .failed e => return .failed (.unprocessed assembly e)
    | .unfinished => return .unfinished
    | .done o =>
      match ← o.image.save out with
      | .error e => return .failed (.unwritten out e)
      | .ok () =>
        .say [.event ⟨.info, commandTarget, "wrote processed assembly",
          ["path", "symbols", "changed"]⟩]
        return .done (.written out)

def process (budget : Nat) (assembly : Path) (references : List Path) (config out : Option Path) :
    Script (Attempt CommandError Status) := do
  match ← resolveConfig assembly config with
  | .error e => return .failed (.config e)
  | .ok config =>
    let p : Processor := { config := config }
    if !config.shouldProcess assembly.assemblyName then
      .say [.event ⟨.info, commandTarget, "assembly is on the ignore list", ["assembly"]⟩]
      return .done .ignored
    else
      match out with
      | some out => processTo p budget assembly references out
      | none =>
        match (← p.processPath budget assembly references).2 with
        | .failed e => return .failed (.unprocessed assembly e)
        | .unfinished => return .unfinished
        | .done true => return .done (.written assembly)
        | .done false => return .done .unchanged

/-- Unique name of a type, and its base chain if it has one. -/
def inspectLine (c : Context) (id : TypeId) : String :=
  let chain := (c.baseChain (c.target.referenceTo id)).items
  if chain.isEmpty then c.target.uniqueName id
  else c.target.uniqueName id ++ " : " ++ " -> ".intercalate (chain.map (·.display))

/-- What is noted beside the lines. -/
def inspectJournal (c : Context) (x : Index) : Journal :=
  Index.repetitions c.target ++ (Pass.forAll (fun id => c.ancestors (c.target.referenceTo id)) x.ids : Pass Unit _).journal

/-- A line for each indexed type. -/
def inspect (assembly : Path) (references : List Path) :
    Script (Except CommandError (List String)) := do
  match ← Image.load assembly with
  | .error e => return .error (.unreadable assembly e)
  | .ok m =>
    match ← Resolver.make {} references true with
    | (_, .error e) => return .error (.references e)
    | (r, .ok ()) =>
      let (_, c) ← Context.build m r
      let x := Index.build c.target
      .say (inspectJournal c x)
      return .ok (x.ids.map (inspectLine c))

/-- What a run of the program shows and returns. -/
structure Report where
  exitCode : Nat
  output : List String := []
  /-- The messages of the failure, from the outermost cause inward. -/
  failure : List String := []
  deriving DecidableEq, Repr

def versionLine : String := "ecsgen 0.1.0"

/-- Help and version are no failures; any other fault of the arguments is one of its own kind. -/
def reportArguments : ArgumentError → Report
  | .help => { exitCode := 0 }
  | .version => { exitCode := 0, output := [versionLine] }
  | _ => { exitCode := 2 }

def statusLine (assembly : Path) : Status → String
  | .ignored => s!"{assembly.text}: ignored"
  | .unchanged => s!"{assembly.text}: unchanged"
  | .written path => s!"wrote {path.text}"

/-- Runs the command that the arguments ask for; nothing if a walk does not end in its budget. -/
def execute (budget : Nat) (a : Arguments) : Script (Option Report) := do
  match a.command with
  | .process =>
    match ← process budget a.assembly a.references a.config a.out with
    | .done s => return some { exitCode := 0, output := [statusLine a.assembly s] }
    | .failed e => return some { exitCode := 1, failure := e.chain }
    | .unfinished => return none
  | .inspect =>
    match ← inspect a.assembly a.references with
    | .ok lines => return some { exitCode := 0, output := lines }
    | .error e => return some { exitCode := 1, failure := e.chain }

/-- What is shown of a journal. -/
structure Shown where
  events : List Event := []
  /-- Whether a directive is complained about. -/
  complaint : Bool := false
  deriving DecidableEq, Repr

/-- The filter that the settings ask for, if they ask for any; one that is broken is a fault. -/
def filterOf : Option LogSettings → Except Report (Option Filter)
  | none => .ok none
  | some s =>
    match Filter.ofText? s.directive with
    | some f => .ok (some f)
    | none => .error { exitCode := 101 }

def shown (filter : Option Filter) (j : Journal) : Shown :=
  match filter with
  | none => {}
  | some f => ⟨f.select [] j, f.faulty⟩

end Companions.CommandLine
