import Companions.Image.Basic
/-!
Type contexts: the target image together with the images it refers to. A reference is resolved
by its assembly first and its full name second.
-/
namespace Companions

structure Context where
  target : Image
  /-- Simple name to image, in the order in which the images were found. -/
  references : Table Image := {}
  deriving DecidableEq, Repr, Inhabited

/-- A node, its id, and the image that holds it. -/
structure Resolved where
  image : Image
  id : TypeId
  node : TypeDef

namespace Context

/-- Of several images with one simple name the first counts. -/
def addReference (c : Context) (m : Image) : Context :=
  { c with references := c.references.insertNew m.name m }

def ofImages (target : Image) (references : List Image) : Context :=
  references.foldl addReference { target := target }

def images (c : Context) : List Image := c.target :: c.references.values

/-- The image whose simple name is `scope`. -/
def image? (c : Context) (scope : String) : Option Image :=
  if scope = c.target.name then some c.target else c.references.get? scope

/-- The declaring node of a reference. Arrays and parameters have none. -/
def resolve? (c : Context) : TypeRef → Option Resolved
  | .named scope fullName => do
    let m ← c.image? scope
    let id ← m.find? fullName
    return ⟨m, id, ← m.get? id⟩
  | .generic e _ => c.resolve? e
  | .array _ => none
  | .param .. => none

/-- Whether the reference is to a type of the target's name. -/
def inTarget (c : Context) (t : TypeRef) : Bool := t.scope = some c.target.name

/-- Whether a plain named reference resolves to a node of the target. -/
def declaredInTarget (c : Context) : TypeRef → Bool
  | .named scope fullName => scope = c.target.name && (c.resolve? (.named scope fullName)).isSome
  | _ => false

/-- The declared base of a reference's node, bound to the reference's arguments. -/
def base? (c : Context) (t : TypeRef) : Option TypeRef := do
  let r ← c.resolve? t
  return (← r.node.base).substitute t.arguments

/-- Base and interfaces of a reference's node, bound to the reference's arguments. -/
def supertypes (c : Context) (t : TypeRef) : List TypeRef :=
  match c.resolve? t with
  | none => []
  | some r => (r.node.base.toList ++ r.node.interfaces).map (·.substitute t.arguments)

end Context
end Companions
