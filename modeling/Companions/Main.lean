import Companions.CommandLine.Program
/-!
The program on the files of the machine.
-/
namespace Companions

namespace Script

/-- What a file access gives, or nothing if the system refuses it. -/
def allowed {α : Type} (access : IO α) : BaseIO (Option α) := do
  match ← access.toBaseIO with
  | .ok a => return some a
  | .error _ => return none

/-- Runs a script on the machine and collects its journal. A path counts as a file if it leads to
one, whether or not this can be read. -/
def perform {α : Type} : Script α → Journal → BaseIO (α × Journal)
  | .done a, j => return (a, j)
  | .read p k, j => do
    let bytes ← allowed (IO.FS.readBinFile p.text)
    (k (bytes.map (·.data.toList))).perform j
  | .isFile p k, j => do
    let kind ← allowed do return (← (← IO.FS.realPath p.text).metadata).type
    (k (kind.any (· == .file))).perform j
  | .canonical p k, j => do
    let real ← allowed (IO.FS.realPath p.text)
    (k (real.map fun r => ⟨r.toString⟩)).perform j
  | .write p b k, j => do
    let written ← allowed (IO.FS.writeBinFile p.text ⟨b.toArray⟩)
    (k written.isSome).perform j
  | .append p b k, j => do
    let written ← allowed do (← IO.FS.Handle.mk p.text .append).write ⟨b.toArray⟩
    (k written.isSome).perform j
  | .makeDirectories p k, j => do
    let made ← allowed (IO.FS.createDirAll p.text)
    (k made.isSome).perform j
  | .note more k, j => k.perform (j ++ more)

end Script

namespace CommandLine

/-- Steps that a single walk over types may take. -/
def walkBudget : Nat := 1 <<< 62

def usage : List String :=
  ["Companion-type generator for ECS authoring assemblies", "",
    "Usage: ecsgen [OPTIONS] process <ASSEMBLY> [-r REFERENCE]... [-c CONFIG] [-o OUT]",
    "       ecsgen [OPTIONS] inspect <ASSEMBLY> [-r REFERENCE]...", "",
    "Options:",
    "  -v, --verbose        Show the activity log on stderr; repeat for more detail",
    "      --log-format F   Shape of stderr log output: text, tree or json",
    "  -h, --help           Print help",
    "  -V, --version        Print version"]

def levelName : Level → String
  | .error => "ERROR"
  | .warn => "WARN"
  | .info => "INFO"
  | .debug => "DEBUG"
  | .trace => "TRACE"

/-- One line of the log. -/
def logLine (s : LogSettings) (e : Event) : String :=
  match s.format with
  | .json =>
    (ofUtf8? (Json.write (Json.object [("level", .text (levelName e.level)),
      ("fields", Json.object [("message", .text e.message)]), ("target", .text e.target)]))).getD ""
  | _ =>
    if s.showTargets then levelName e.level ++ " " ++ e.target ++ ": " ++ e.message
    else levelName e.level ++ " " ++ e.message

/-- The outermost message, and the causes below it. -/
def failureLines : List String → List String
  | [] => []
  | [m] => ["Error: " ++ m]
  | m :: causes => ["Error: " ++ m, "", "Caused by:"] ++ causes.map ("    " ++ ·)

/-- Reads arguments and environment, runs the command, and shows what came of it. -/
def perform (arguments : List String) : IO UInt32 := do
  match CommandLine.parse arguments with
  | .error .help =>
    usage.forM (IO.println ·)
    return 0
  | .error e =>
    let report := reportArguments e
    report.output.forM (IO.println ·)
    if report.exitCode ≠ 0 then usage.forM (IO.eprintln ·)
    return UInt32.ofNat report.exitCode
  | .ok a =>
    let names := ["ECSGEN_LOG", "RUST_LOG", "ECSGEN_LOG_FORMAT"]
    let found ← names.mapM fun n => do return (n, ← IO.getEnv n)
    let settings := LogSettings.resolve? a.verbose a.logFormat fun n => (found.lookup n).join
    match filterOf settings with
    | .error r => return UInt32.ofNat r.exitCode
    | .ok filter =>
      let (report, journal) ← (execute walkBudget a).perform []
      match settings with
      | none => pure ()
      | some s => (shown filter journal).events.forM fun e => IO.eprintln (logLine s e)
      match report with
      | none => return 1
      | some r =>
        r.output.forM (IO.println ·)
        (failureLines r.failure).forM (IO.eprintln ·)
        return UInt32.ofNat r.exitCode

end CommandLine
end Companions

def main (arguments : List String) : IO UInt32 := Companions.CommandLine.perform arguments
