import Companions.Companion
/-!
Marker attributes: an instance of an attribute is put on a node, made with the first constructor
that takes the arguments.
-/
namespace Companions

/-- Target of the events about attributes. -/
def markerTarget : String := "ecsgen_synth::attributes"

namespace Context

/-- Whether a parameter takes the argument: a type descriptor takes any, another parameter what
is assignable to it. -/
def accepts (c : Context) (budget : Nat) (pair : Parameter × TypeRef) : Pass SynthesisError Bool :=
  if pair.1.type.fullName = some Name.typeDescriptor then return true
  else c.assignable budget pair.2 pair.1.type

/-- Whether a constructor takes the arguments, one parameter for each. -/
def takes (c : Context) (budget : Nat) (arguments : List TypeRef) (m : Method) :
    Pass SynthesisError Bool :=
  if m.parameters.length = arguments.length then
    Pass.all (c.accepts budget) (m.parameters.zip arguments)
  else return false

/-- The attribute's assembly and its first constructor that takes the arguments. -/
def markerConstructor (c : Context) (budget : Nat) (marker : TypeRef)
    (arguments : List TypeRef) : Pass SynthesisError (Method × Identity) :=
  match c.resolve? marker with
  | none => .fail (.unresolvedType marker.display "attribute type")
  | some r => do
    match ← Pass.first? (c.takes budget arguments) r.node.constructors with
    | none => .fail (.noMatchingConstructor marker.display (arguments.map (·.display)))
    | some m => return (m, r.image.identity)

end Context

/-- The attribute made by a constructor from types. -/
def markerOf (marker : TypeRef) (m : Method) (arguments : List TypeRef) : CustomAttribute where
  constructor := m.reference marker
  arguments := (m.parameters.zip arguments).map fun (p, a) => ⟨p.type, .type a⟩

namespace Context

/-- Puts the attribute on a node of the target and refers to the attribute's assembly. -/
def attach (c : Context) (budget : Nat) (owner : TypeId) (marker : TypeRef)
    (arguments : List TypeRef) : Pass (Failure Context SynthesisError) Context := do
  let (m, assembly) ← (c.markerConstructor budget marker arguments).leaving c
  if owner < c.target.size then
    .say [.event ⟨.debug, markerTarget, "attached attribute", ["attribute", "owner"]⟩]
    let c := { c with target := c.target.update owner fun d =>
      { d with attributes := d.attributes ++ [markerOf marker m arguments] } }
    return { c with target := c.target.addReference assembly }
  else .fail ⟨c, .unresolvedType s!"#{owner}" "attribute owner"⟩

end Context
end Companions
