import Companions.Contract
import Companions.Index
/-!
Authoring fields. An authoring type derives from a generic template bound to component shapes;
each shape becomes a public field of it, named by its place among the shapes once equal ones
stand together.
-/
namespace Companions

/-- A field that a pass adds, or would add, to an authoring type. -/
structure AuthoringField where
  owner : TypeId
  name : String
  component : TypeRef
  storage : Storage
  deriving DecidableEq, Repr, Inhabited

namespace AuthoringField

/-- `Value`, `Value2`, `Value3` and so on. -/
def nameAt (ordinal : Nat) : String :=
  if ordinal = 0 then "Value" else "Value" ++ Nat.repr (ordinal + 1)

def type (f : AuthoringField) : TypeRef :=
  match f.storage with
  | .single => f.component
  | .sequence => .array f.component

/-- Path of the field in a serialized object. -/
def propertyPath (f : AuthoringField) : String := f.name

/-- Path of an element; only a sequence has any. -/
def elementPath? (f : AuthoringField) (index : Nat) : Option String :=
  match f.storage with
  | .single => none
  | .sequence => some (f.name ++ ".Array.data[" ++ Nat.repr index ++ "]")

/-- Path of a member of the value at `path`. -/
def memberPath (path member : String) : String := path ++ "." ++ member

end AuthoringField

/-- Target of the events about authoring fields. -/
def authoringTarget : String := "ecsgen_synth::fields"

namespace TypeRef

/-- Puts a shape behind the last one of its unique name, or at the end. -/
def placeInGroup (t : TypeRef) : List (List TypeRef) → List (List TypeRef)
  | [] => [[t]]
  | g :: gs =>
    if (g.head?.map uniqueName) = some t.uniqueName then (g ++ [t]) :: gs
    else g :: t.placeInGroup gs

/-- Shapes of one unique name stand together, groups in the order of their first members. -/
def grouped (ts : List TypeRef) : List TypeRef :=
  (ts.foldl (fun gs t => t.placeInGroup gs) []).flatten

end TypeRef

namespace Context

variable {ε : Type}

/-- How a component shape is stored: as the first rule says that the shape satisfies. -/
def classify (c : Context) (budget : Nat) (rules : List ContractRule) (component : TypeRef) :
    Pass ε (Option Storage) := do
  let rule ← Pass.first? (fun r => c.assignable budget component r.predicate) rules
  return rule.map (·.storage)

/-- The first ancestor that instantiates one of the named definitions. -/
def authoringInstance? (c : Context) (templates : List String) (t : TypeRef) :
    Pass ε (Option TypeRef) :=
  c.ancestor? t fun b => b.isGeneric && b.definitionName ∈ templates

/-- The indexed types that have an instance of a template among their ancestors. -/
def authoringTypes (c : Context) (templates : List TypeRef) (x : Index) :
    Pass ε (List (TypeId × TypeRef)) := do
  let found ← Pass.forAll
    (fun id => do
      let bound ← c.authoringInstance? (templates.map (·.definitionName)) (c.target.referenceTo id)
      return bound.map fun b => (id, b))
    x.ids
  return found.filterMap id

/-- A shape that no rule covers is stored as a single value, with a warning. -/
def storageOf (c : Context) (budget : Nat) (rules : List ContractRule) (component : TypeRef) :
    Pass ε Storage := do
  match ← c.classify budget rules component with
  | some s => return s
  | none =>
    .say [.warning authoringTarget
      "component shape matches no dispatch rule, storing as a single value" ["component"]]
    return .single

/-- The fields of one authoring type, whether or not it has them. -/
def plannedFields (c : Context) (budget : Nat) (rules : List ContractRule) (owner : TypeId)
    (bound : TypeRef) : Pass ε (List AuthoringField) :=
  Pass.forAll
    (fun (component, ordinal) => do
      return ⟨owner, AuthoringField.nameAt ordinal, component,
        ← c.storageOf budget rules component⟩)
    (TypeRef.grouped bound.arguments).zipIdx

end Context

namespace Image

/-- Flags the node behind a component as serializable. -/
def markSerializable (m : Image) (component : TypeRef) : Image :=
  match component.fullName.bind m.find? with
  | none => m
  | some id => m.update id fun d => { d with flags := d.flags.union .serializable }

/-- Adds a field unless the owner is missing or has one of that name. -/
def addAuthoringField? (m : Image) (f : AuthoringField) : Option (Image × TypeDef) := do
  let owner ← m.get? f.owner
  if (owner.field? f.name).isSome then none
  else some (m.update f.owner fun d => { d with fields := d.fields ++ [.ofPublic f.name f.type] },
    owner)

end Image

namespace Context

variable {ε : Type}

/-- Flags the component if the target declares it, and adds the field if it is missing. -/
def applyField (c : Context) (f : AuthoringField) : Context × Option (AuthoringField × Entry) :=
  let m := if c.declaredInTarget f.component then c.target.markSerializable f.component
    else c.target
  match m.addAuthoringField? f with
  | none => ({ c with target := m }, none)
  | some (m, owner) =>
    ({ c with target := m }, some (f, .line s!"- Added {f.type.display} {f.propertyPath} to authoring component {owner.name}"))

/-- The fields that were added, one after the other, with a line for each. -/
def applyFields (c : Context) : List AuthoringField → Context × List (AuthoringField × Entry)
  | [] => (c, [])
  | f :: fs =>
    let (c, added) := c.applyField f
    let (c, rest) := c.applyFields fs
    (c, added.toList ++ rest)

/-- Adds to every authoring type in the index one field for each of its component shapes. The
plan is made before anything is changed. -/
def addFields (c : Context) (budget : Nat) (x : Index) (templates : List TypeRef)
    (rules : List ContractRule) : Pass ε (Context × List AuthoringField) :=
  .within ⟨authoringTarget, "synthesize_fields", []⟩ do
    let authoring ← c.authoringTypes templates x
    .say [.line ""]
    .say (.list "Found authoring types"
      (authoring.map fun (id, b) => s!"{c.target.fullName id} : {b.display}"))
    let planned ← Pass.forAll (fun (id, b) => c.plannedFields budget rules id b) authoring
    let (c, added) := c.applyFields planned.flatten
    .say (added.map (·.2))
    return (c, added.map (·.1))

end Context
end Companions
