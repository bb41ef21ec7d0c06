import Companions.Image.Traversal
import Companions.Pass
/-!
The index of an image: unique names of its nodes in the order of the nodes. Two indexes compare
to the names that one has and the other has not.
-/
namespace Companions

structure Index where
  types : Table TypeId := {}
  deriving DecidableEq, Repr, Inhabited

/-- Names in ascending order. -/
structure Difference where
  added : List String
  removed : List String
  deriving DecidableEq, Repr

def Difference.isEmpty (d : Difference) : Bool := d.added.isEmpty && d.removed.isEmpty

/-- Target of the events about indexes. -/
def indexTarget : String := "ecsgen_synth::index"

namespace Index

def lookup? (x : Index) (identity : String) : Option TypeId := x.types.get? identity

def contains (x : Index) (identity : String) : Bool := x.types.contains identity

def names (x : Index) : List String := x.types.keys

def ids (x : Index) : List TypeId := x.types.values

def size (x : Index) : Nat := x.types.size

/-- Enters a node; a name that is present keeps its first node. -/
def add (x : Index) (m : Image) (id : TypeId) : Index :=
  ⟨x.types.insertNew (m.uniqueName id) id⟩

/-- The index of all nodes that can be reached. -/
def build (m : Image) : Index := m.typeIds.foldl (fun x id => x.add m id) {}

/-- What is noted when a node is entered whose name is present. -/
def repeated (x : Index) (m : Image) (id : TypeId) : Journal :=
  if x.contains (m.uniqueName id) then
    [.event ⟨.trace, indexTarget, "AssemblyIndex::add_type already indexed", ["identity"]⟩]
  else []

/-- What is noted while the index of an image is built. -/
def repetitions (m : Image) : Journal :=
  (m.typeIds.foldl (fun (x, j) id => (x.add m id, j ++ x.repeated m id)) (({} : Index), [])).2

def lookupRef? (x : Index) (t : TypeRef) : Option TypeId := x.lookup? t.uniqueName

/-- The first node whose name starts with `hint`. -/
def lookupByStart? (x : Index) (hint : String) : Option TypeId :=
  (x.types.entries.find? fun e => Text.startsWith hint.toList e.1.toList).map (·.2)

def diff (before after : Index) : Difference where
  added := (after.names.filter fun n => !before.contains n).mergeSort
  removed := (before.names.filter fun n => !after.contains n).mergeSort

variable {ε : Type}

/-- Every instantiation in the base chain of every indexed node, in the order of the index. -/
def genericBases (x : Index) (c : Context) : Pass ε (List TypeRef) := do
  let chains ← Pass.forAll (fun id => c.ancestors (c.target.referenceTo id)) x.ids
  return chains.flatten.filter (·.isGeneric)

end Index
end Companions
