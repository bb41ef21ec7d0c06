import Companions.Contract
import Companions.Index
/-!
Companion types. A pass finds the types that satisfy one of its contracts, leaves out those that
some type already accompanies, and nests into each other one a class that derives from the
template bound to it.
-/
namespace Companions

/-- Why a pass could not build what it was asked for. -/
inductive SynthesisError where
  | unresolvedType (type role : String)
  | missingConstructor (type : String)
  | noMatchingConstructor (marker : String) (arguments : List String)
  deriving DecidableEq, Repr

def SynthesisError.message : SynthesisError → String
  | .unresolvedType type role => s!"cannot resolve {role} '{type}'"
  | .missingConstructor type => s!"template '{type}' has no parameterless constructor"
  | .noMatchingConstructor marker arguments =>
    "could not find a suitable constructor for attribute '" ++ marker ++
      "' with parameters (" ++ ", ".intercalate arguments ++ ")"

/-- Target of the events about companions. -/
def companionTarget : String := "ecsgen_synth::synthesis"

namespace Context

/-- The source types of a request, with their ids. -/
def sources (c : Context) (budget : Nat) (x : Index) (q : CompanionRequest) :
    Pass SynthesisError (List (TypeId × TypeRef)) :=
  Pass.select
    (fun (_, t) => do
      return (← Pass.first? (fun contract => c.assignable budget t contract) q.contracts).isSome)
    (x.ids.map fun id => (id, c.target.referenceTo id))

/-- The unique names of the types that some indexed type accompanies: the single argument of an
instantiation of the template or of a recognized template. -/
def accompanied (c : Context) (x : Index) (q : CompanionRequest) :
    Pass SynthesisError (List String) := do
  let templates := (q.recognized ++ [q.template]).map (·.definitionName)
  let bases ← x.genericBases c
  return bases.filterMap fun b =>
    match b.arguments with
    | [a] => if b.definitionName ∈ templates then some a.uniqueName else none
    | _ => none

/-- The template's parameterless constructor, and the assembly that declares it. -/
def templateConstructor (c : Context) (q : CompanionRequest) :
    Pass SynthesisError (Method × Identity) :=
  match c.resolve? q.template with
  | none => .fail (.unresolvedType q.template.display "companion template")
  | some r =>
    match r.node.constructors.find? (·.parameters.isEmpty) with
    | none => .fail (.missingConstructor q.template.display)
    | some m => .done (m, r.image.identity)

end Context

/-- A public nested class named after its source, derived from the template bound to the source,
whose constructor calls the template's. -/
def companionOf (q : CompanionRequest) (base : Method) (name : String) (source : TypeRef) :
    TypeDef :=
  let bound := TypeRef.generic q.template [source]
  { TypeDef.ofKind .classType "" name with
    base := some bound
    flags := .union .isPublic .nestedPublic
    methods := [.callingBase (base.reference bound) base.returnType] }

/-- What injecting one companion leads to. -/
structure Injection where
  context : Context
  index : Index
  id : Option TypeId
  journal : Journal

namespace Context

/-- Injects the companion of one source type, unless its full name is taken. -/
def injectOne (c : Context) (x : Index) (q : CompanionRequest) (base : Method)
    (source : TypeId × TypeRef) : Injection :=
  let name := ((c.target.get? source.1).map (·.name)).getD "" ++ q.suffix
  let fullName := Name.nest (c.target.fullName source.1) name
  if (c.target.find? fullName).isSome then
    ⟨c, x, none, [.warning companionTarget "nested type already exists, skipping companion"
      ["full_name"]]⟩
  else
    let id := c.target.size
    let c := { c with target := c.target.addNestedType source.1 (companionOf q base name source.2) }
    ⟨c, x.add c.target id, some id,
      .event ⟨.trace, imageTarget, "AssemblyImage::allocate", ["assembly", "id", "full_name"]⟩ ::
        x.repeated c.target id ++
        [.event ⟨.debug, companionTarget, "injected companion", ["full_name"]⟩,
          .line s!"Injecting type {fullName}"]⟩

/-- Injects companions one after the other; the ids are those of the new nodes. -/
def injectAll (c : Context) (x : Index) (q : CompanionRequest) (base : Method) :
    List (TypeId × TypeRef) → Context × Index × List TypeId × Journal
  | [] => (c, x, [], [])
  | s :: ss =>
    let first := c.injectOne x q base s
    let (c, x, ids, journal) := first.context.injectAll first.index q base ss
    (c, x, first.id.toList ++ ids, first.journal ++ journal)

/-- The part of a companion pass that only looks: the source types without companion. -/
def companionless (c : Context) (budget : Nat) (x : Index) (q : CompanionRequest) :
    Pass SynthesisError (List (TypeId × TypeRef)) := do
  .say [.banner s!"Injecting {q.suffix}"]
  .say (.list "Searching for types deriving from" (q.contracts.map (·.display)))
  let found ← c.sources budget x q
  .say [.line ""]
  .say (.list "Found" (found.map (·.2.display)))
  if found.isEmpty then return []
  let taken ← c.accompanied x q
  let unused := found.filter fun (_, t) => t.uniqueName ∉ taken
  .say [.line ""]
  .say (.list s!"Types that need injection on {q.suffix}" (unused.map (·.2.display)))
  return unused

/-- One companion pass: context and index afterwards, and the ids of what was injected. -/
def injectCompanions (c : Context) (budget : Nat) (x : Index) (q : CompanionRequest) :
    Pass (Failure (Context × Index) SynthesisError) (Context × Index × List TypeId) :=
  .within ⟨companionTarget, "synthesize", [("suffix", q.suffix), ("template", q.template.display)]⟩ do
    let unused ← (c.companionless budget x q).leaving (c, x)
    if unused.isEmpty then return (c, x, [])
    let (base, assembly) ← (c.templateConstructor q).leaving (c, x)
    let c := { c with target := c.target.addReference assembly }
    let (c, x, ids, journal) := c.injectAll x q base unused
    .say journal
    return (c, x, ids)

end Context
end Companions
