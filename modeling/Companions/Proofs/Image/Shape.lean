import Companions.Index
/-!
The shape of an image: nodes, their names, links, supertypes and methods. Flags, fields, attributes
and the list of references are not part of it, and nothing that names a node depends on them.
-/
namespace Companions

namespace TypeDef

/-- The node without flags, fields, attributes and source. -/
def shape (d : TypeDef) : TypeDef :=
  { d with flags := ⟨0⟩, fields := [], attributes := [], source := none }

@[simp] theorem shape_name (d : TypeDef) : d.shape.name = d.name := rfl
@[simp] theorem shape_base (d : TypeDef) : d.shape.base = d.base := rfl
@[simp] theorem shape_interfaces (d : TypeDef) : d.shape.interfaces = d.interfaces := rfl
@[simp] theorem shape_declaring (d : TypeDef) : d.shape.declaring = d.declaring := rfl
@[simp] theorem shape_nested (d : TypeDef) : d.shape.nested = d.nested := rfl
@[simp] theorem shape_constructors (d : TypeDef) : d.shape.constructors = d.constructors := rfl

end TypeDef

namespace Image

/-- The image with the shapes of its nodes and without references. -/
def shape (m : Image) : Image := { m with references := [], types := m.types.map TypeDef.shape }

@[simp] theorem shape_identity (m : Image) : m.shape.identity = m.identity := rfl
@[simp] theorem shape_name (m : Image) : m.shape.name = m.name := rfl
@[simp] theorem shape_roots (m : Image) : m.shape.roots = m.roots := rfl
@[simp] theorem find?_shape (m : Image) (fullName : String) : m.shape.find? fullName = m.find? fullName := rfl

@[simp] theorem length_shape (m : Image) : m.shape.types.length = m.types.length :=
  List.length_map _

@[simp] theorem get?_shape (m : Image) (id : TypeId) :
    m.shape.get? id = (m.get? id).map TypeDef.shape := List.getElem?_map

theorem fullNameFrom_shape (m : Image) (n : Nat) (id : TypeId) (inner : List String) :
    m.shape.fullNameFrom n id inner = m.fullNameFrom n id inner := by
  induction n generalizing id inner with
  | zero =>
      rw [fullNameFrom, fullNameFrom, get?_shape]
      cases m.get? id <;> rfl
  | succ n ih =>
      rw [fullNameFrom, fullNameFrom, get?_shape]
      cases m.get? id with
      | none => rfl
      | some d =>
          simp only [Option.map_some, TypeDef.shape_declaring]
          cases d.declaring with
          | none => rfl
          | some parent => exact ih parent (d.name :: inner)

@[simp] theorem fullName_shape (m : Image) (id : TypeId) : m.shape.fullName id = m.fullName id := by
  rw [fullName, fullName, length_shape, fullNameFrom_shape]

@[simp] theorem referenceTo_shape (m : Image) (id : TypeId) :
    m.shape.referenceTo id = m.referenceTo id := by
  rw [referenceTo, referenceTo, fullName_shape, shape_identity]

@[simp] theorem uniqueName_shape (m : Image) (id : TypeId) :
    m.shape.uniqueName id = m.uniqueName id := by
  rw [uniqueName, uniqueName, referenceTo_shape]

theorem preorder_shape (m : Image) (n : Nat) (stack seen : List TypeId) :
    m.shape.preorder n stack seen = m.preorder n stack seen := by
  induction n generalizing stack seen with
  | zero => rfl
  | succ n ih =>
      cases stack with
      | nil => rfl
      | cons id stack =>
          rw [preorder, preorder, get?_shape]
          split
          · exact ih ..
          · cases m.get? id with
            | none => exact ih ..
            | some d => exact congrArg (id :: ·) (ih ..)

@[simp] theorem typeIds_shape (m : Image) : m.shape.typeIds = m.typeIds := by
  have nested : m.shape.types.flatMap (·.nested) = m.types.flatMap (·.nested) := by
    simp [shape, List.flatMap_map]
  rw [typeIds, typeIds, nested, shape_roots, preorder_shape]

end Image

namespace Index

@[simp] theorem add_shape (x : Index) (m : Image) (id : TypeId) : x.add m.shape id = x.add m id := by
  rw [add, add, Image.uniqueName_shape]

@[simp] theorem build_shape (m : Image) : build m.shape = build m := by
  rw [build, build, Image.typeIds_shape]
  simp only [add_shape]

end Index

namespace Image

/-! ## Changes that keep the shape -/

@[simp] theorem shape_addReference (m : Image) (i : Identity) : (m.addReference i).shape = m.shape := by
  unfold addReference
  split <;> rfl

/-- A change of a node that its shape does not show is not shown by the image. -/
theorem shape_update (m : Image) (id : TypeId) {f : TypeDef → TypeDef}
    (h : ∀ d, (f d).shape = d.shape) : (m.update id f).shape = m.shape := by
  simp only [shape, update, Image.mk.injEq, true_and, and_true]
  refine List.ext_getElem? fun i => ?_
  rw [List.getElem?_map, List.getElem?_map, List.getElem?_modify]
  split
  · cases m.types[i]? with
    | none => rfl
    | some d => exact congrArg some (h d)
  · simp

end Image
end Companions
