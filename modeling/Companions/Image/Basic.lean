import Companions.Identity
import Companions.TypeDef
import Companions.Table
/-!
Assembly images: the types of one assembly in an arena, the assemblies it refers to, and a table
from full names to nodes. The table is derived: it is kept current when a node is added and
rebuilt when an image is read.
-/
namespace Companions

structure Image where
  identity : Identity
  references : List Identity := []
  types : List TypeDef := []
  /-- Top-level nodes in declaration order. -/
  roots : List TypeId := []
  lookup : Table TypeId := {}
  deriving DecidableEq, Repr, Inhabited

namespace Image

/-- Simple name of the assembly, the scope of every reference to its types. -/
def name (m : Image) : String := m.identity.name

def get? (m : Image) (id : TypeId) : Option TypeDef := m.types[id]?

def size (m : Image) : Nat := m.types.length

theorem lt_of_get? {m : Image} {id : TypeId} {d : TypeDef} (h : m.get? id = some d) : id < m.size :=
  (List.getElem?_eq_some_iff.mp h).1

theorem exists_get? {m : Image} {id : TypeId} (inside : id < m.size) : ∃ d, m.get? id = some d :=
  ⟨_, List.getElem?_eq_getElem inside⟩

theorem mem_types_iff {m : Image} {d : TypeDef} : d ∈ m.types ↔ ∃ id, m.get? id = some d :=
  List.mem_iff_getElem?

/-- A reference is added once by simple name, and never to the image itself. -/
def addReference (m : Image) (i : Identity) : Image :=
  if i.name = m.identity.name ∨ m.references.any (·.name = i.name) then m
  else { m with references := m.references ++ [i] }

/-- Climbs the declaring links of `id` for `steps` steps at most, `inner` being the names passed
so far, innermost last. A link that leads nowhere leaves these names alone. -/
def fullNameFrom (m : Image) : (steps : Nat) → TypeId → (inner : List String) → String
  | 0, id, inner =>
    match m.get? id with
    | none => "/".intercalate inner
    | some d => inner.foldl Name.nest (Name.qualify d.space d.name)
  | n + 1, id, inner =>
    match m.get? id with
    | none => "/".intercalate inner
    | some d =>
      match d.declaring with
      | some parent => fullNameFrom m n parent (d.name :: inner)
      | none => inner.foldl Name.nest (Name.qualify d.space d.name)

/-- `Space.Outer/Inner`: the name in its namespace, or behind the declaring type's. -/
def fullName (m : Image) (id : TypeId) : String := m.fullNameFrom m.types.length id []

def find? (m : Image) (fullName : String) : Option TypeId := m.lookup.get? fullName

def referenceTo (m : Image) (id : TypeId) : TypeRef := .named m.identity.name (m.fullName id)

/-- `Full.Name/Assembly`. -/
def uniqueName (m : Image) (id : TypeId) : String := (m.referenceTo id).uniqueName

/-- Puts a node at the end of the arena and enters its name, unless the name is taken. -/
def allocate (m : Image) (d : TypeDef) : Image :=
  let added := { m with types := m.types ++ [d] }
  { added with lookup := m.lookup.insertNew (added.fullName m.types.length) m.types.length }

/-- Adds a top-level node. Its id is the former size. -/
def addType (m : Image) (d : TypeDef) : Image :=
  let added := m.allocate { d with declaring := none }
  { added with roots := m.roots ++ [m.types.length] }

/-- Replaces the node by its image under `f`. -/
def update (m : Image) (id : TypeId) (f : TypeDef → TypeDef) : Image :=
  { m with types := m.types.modify id f }

/-- Adds a node nested in `parent`. Its id is the former size. -/
def addNestedType (m : Image) (parent : TypeId) (d : TypeDef) : Image :=
  (m.allocate { d with declaring := some parent }).update parent
    fun p => { p with nested := p.nested ++ [m.types.length] }

/-- Enters the full names of all nodes; of equal names the first node keeps it. -/
def rebuildLookup (m : Image) : Image :=
  let table := (List.range m.types.length).foldl (fun t id => t.insertNew (m.fullName id) id) {}
  { m with lookup := table }

end Image
end Companions
