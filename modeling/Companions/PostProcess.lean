import Companions.Authoring
import Companions.Marker
import Companions.Resolver
import Companions.File.Config
/-!
The post-process of one assembly: references are resolved, authoring fields and companions are
added, and the difference is logged. A processor keeps what it loaded for the next assembly.
-/
namespace Companions

inductive PostProcessError where
  | image (error : ImageError)
  | synthesis (error : SynthesisError)
  deriving DecidableEq, Repr

namespace PostProcessError

def message : PostProcessError → String
  | .image e => e.message
  | .synthesis e => s!"synthesis failed: {e.message}"

/-- The message and those of the causes below it. -/
def chain : PostProcessError → List String
  | .image e => (PostProcessError.image e).message :: e.chain
  | .synthesis e => [(PostProcessError.synthesis e).message, e.message]

end PostProcessError

/-- The full names of what one companion pass injected, in order. -/
structure Injected where
  suffix : String
  types : List String
  deriving DecidableEq, Repr

/-- All that a pass over an image produced. -/
structure Outcome where
  image : Image
  fields : List AuthoringField
  injected : List Injected
  difference : Difference
  log : List String
  deriving Repr

/-- Whether fields or companions were added. -/
def Outcome.changed (o : Outcome) : Bool :=
  !o.fields.isEmpty || o.injected.any (!·.types.isEmpty)

/-- Target of the events about whole passes. -/
def postProcessTarget : String := "ecsgen_synth::post_process"

namespace Context

/-- The type that a companion accompanies: the first argument of its base. -/
def accompaniedType? (c : Context) (id : TypeId) : Option TypeRef := do
  (← (← c.target.get? id).base).arguments.head?

/-- Puts the marker on each companion, made from the type it accompanies. -/
def markAll (c : Context) (budget : Nat) (marker : TypeRef) : List TypeId → Pass SynthesisError Context
  | [] => return c
  | id :: ids => do
    match c.accompaniedType? id with
    | none => c.markAll budget marker ids
    | some t =>
      .say [.line s!"- Custom Attribute {c.target.fullName id} - {marker.display} {t.display}"]
      let c ← (c.attach budget id marker [t]).mapError (·.error)
      c.markAll budget marker ids

/-- One companion pass with its marker. -/
def runCompanionPass (c : Context) (budget : Nat) (x : Index) (p : CompanionPass) :
    Pass SynthesisError (Context × Index × Injected) := do
  let (c, x, ids) ← (c.injectCompanions budget x p.request).mapError (·.error)
  let c ← match p.marker with
    | none => pure c
    | some marker => c.markAll budget marker ids
  return (c, x, ⟨p.request.suffix, ids.map c.target.fullName⟩)

def runCompanionPasses (c : Context) (budget : Nat) (x : Index) :
    List CompanionPass → Pass SynthesisError (Context × List Injected)
  | [] => return (c, [])
  | p :: ps => do
    let (c, x, injected) ← c.runCompanionPass budget x p
    let (c, rest) ← c.runCompanionPasses budget x ps
    return (c, injected :: rest)

/-- The end of the log: what was injected, the difference, and the references. -/
def report (target : Image) (injected : List Injected) (d : Difference) : Journal :=
  (injected.filter (!·.types.isEmpty)).flatMap
      (fun i => .banner s!"Injected {i.suffix}" :: i.types.map fun t => .line s!"Injecting type {t}") ++
    .banner "Assembly Diff Added" :: d.added.map .line ++
    .banner "Assembly Diff Removed" :: d.removed.map .line ++
    .line "" :: Journal.list "Assembly References" (target.references.map (·.display))

/-- A pass over the target once its references are resolved. -/
def postProcess (c : Context) (budget : Nat) (config : Config) :
    Pass SynthesisError (Image × List AuthoringField × List Injected × Difference) := do
  let before := Index.build c.target
  .say (Index.repetitions c.target)
  let contracts := config.contracts
  let (c, fields) ← c.addFields budget before contracts.templates contracts.rules
  let (c, injected) ←
    c.runCompanionPasses budget before (contracts.passes config.injectInspectorEditors)
  let difference := Index.diff before (Index.build c.target)
  .say (Index.repetitions c.target)
  .say (report c.target injected difference)
  return (c.target, fields, injected, difference)

end Context

structure Processor where
  config : Config := {}
  cache : Cache := {}
  deriving Repr, Inhabited

namespace Processor

/-- Appends the activity log to its file, after making the directories above. -/
def appendLog (path : Path) (lines : Journal) : Script Bool := do
  let ready ← match path.parent? with
    | some parent => if parent.isEmpty then pure true else .makeAll parent
    | none => pure true
  if ready then .appendFile path (utf8 lines.text) else return false

/-- Writes the log where the configuration says; a failure is no more than a warning. -/
def writeLog (p : Processor) (journal : Journal) : Script Unit := do
  match p.config.logPath with
  | none => return ()
  | some path =>
    if !(← appendLog ⟨path⟩ journal) then
      .say [.warning postProcessTarget "failed to write activity log" ["path", "error"]]

/-- A pass over an image, with the given files as references. -/
def runInside (p : Processor) (budget : Nat) (m : Image) (references : List Path) :
    Script (Processor × Attempt PostProcessError Outcome) := do
  let opening : Journal := [.line s!"Processing assembly {m.identity.display}"]
  .say opening
  match ← Resolver.make p.cache references p.config.resolveAdditional with
  | (r, .error e) => return ({ p with cache := r.cache }, .failed (.image e))
  | (r, .ok ()) =>
    let (r, c) ← Context.build m r
    let p := { p with cache := r.cache }
    let pass := c.postProcess budget p.config
    .say pass.journal
    match pass.result with
    | .failed e => return (p, .failed (.synthesis e))
    | .unfinished => return (p, .unfinished)
    | .done (image, fields, injected, difference) =>
      .say [.event ⟨.info, postProcessTarget, "post-process pass finished", ["fields", "added"]⟩]
      let log := opening ++ pass.journal
      p.writeLog log
      return (p, .done ⟨image, fields, injected, difference, log.lines⟩)

/-- A pass inside its span. -/
def run (p : Processor) (budget : Nat) (m : Image) (references : List Path) :
    Script (Processor × Attempt PostProcessError Outcome) := do
  .say [.enter ⟨postProcessTarget, "run", [("assembly", m.identity.display)]⟩]
  let result ← p.runInside budget m references
  .say [.leave]
  return result

/-- A pass over an encoded image. -/
def runBytes (p : Processor) (budget : Nat) (image : Bytes) (symbols : Option Bytes)
    (references : List Path) : Script (Processor × Attempt PostProcessError Outcome) := do
  match ← Image.readNoted image symbols with
  | .error e => return (p, .failed (.image e))
  | .ok m => p.run budget m references

def sayIgnored : Script Unit := 
  .say [.event ⟨.debug, postProcessTarget, "ignored", ["assembly"]⟩]

/-- An assembly in memory: the encoded result, or nothing if the name is to be ignored. -/
def process (p : Processor) (budget : Nat) (name : String) (image : Bytes)
    (symbols : Option Bytes) (references : List Path) :
    Script (Processor × Attempt PostProcessError (Option ImageBytes)) := do
  if !p.config.shouldProcess name then
    sayIgnored
    return (p, .done none)
  else
    let (p, outcome) ← p.runBytes budget image symbols references
    return (p, outcome.bind fun o =>
      match o.image.write with
      | .ok b => .done (some b)
      | .error e => .failed (.image e))

/-- An assembly in its file: it is written back if the pass changed it. -/
def processPath (p : Processor) (budget : Nat) (path : Path) (references : List Path) :
    Script (Processor × Attempt PostProcessError Bool) := do
  if !p.config.shouldProcess path.assemblyName then
    sayIgnored
    return (p, .done false)
  else
    match ← Image.load path with
    | .error e => return (p, .failed (.image e))
    | .ok m =>
      match ← p.run budget m references with
      | (p, .failed e) => return (p, .failed e)
      | (p, .unfinished) => return (p, .unfinished)
      | (p, .done o) =>
        if !o.changed then return (p, .done false)
        else
          match ← o.image.save path with
          | .error e => return (p, .failed (.image e))
          | .ok () =>
            .say [.event ⟨.info, postProcessTarget, "rewrote assembly", ["path"]⟩]
            return (p, .done true)

end Processor
end Companions
