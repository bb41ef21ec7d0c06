import Companions.Image.Encoding
import Companions.Proofs.Image.Shape
import Companions.Proofs.Image.Validate
/-!
The content of an image: what its encoding carries. Source locations are left to the symbols, and
the table of names is made anew, so nothing that is checked or written depends on either.
-/
namespace Companions

namespace TypeDef

/-- The node without its source location. -/
def unplaced (d : TypeDef) : TypeDef := { d with source := none }

@[simp] theorem shape_unplaced (d : TypeDef) : d.unplaced.shape = d.shape := rfl
@[simp] theorem unplaced_nested (d : TypeDef) : d.unplaced.nested = d.nested := rfl
@[simp] theorem unplaced_unplaced (d : TypeDef) : d.unplaced.unplaced = d.unplaced := rfl
@[simp] theorem toJson_unplaced (d : TypeDef) : d.unplaced.toJson = d.toJson := rfl

end TypeDef

namespace Image

/-- The image as it is encoded. -/
def content (m : Image) : Image := { m with types := m.types.map TypeDef.unplaced, lookup := {} }

@[simp] theorem content_identity (m : Image) : m.content.identity = m.identity := rfl
@[simp] theorem content_references (m : Image) : m.content.references = m.references := rfl
@[simp] theorem content_roots (m : Image) : m.content.roots = m.roots := rfl

@[simp] theorem length_content (m : Image) : m.content.types.length = m.types.length :=
  List.length_map _

@[simp] theorem get?_content (m : Image) (id : TypeId) :
    m.content.get? id = (m.get? id).map TypeDef.unplaced := List.getElem?_map

@[simp] theorem content_content (m : Image) : m.content.content = m.content := by
  simp [content]

@[simp] theorem content_rebuildLookup (m : Image) : m.rebuildLookup.content = m.content := rfl

/-! ## Names and order -/

theorem fullNameFrom_lookup (m : Image) (t : Table TypeId) (n : Nat) (id : TypeId)
    (inner : List String) :
    { m with lookup := t }.fullNameFrom n id inner = m.fullNameFrom n id inner := by
  induction n generalizing id inner with
  | zero => rfl
  | succ n ih =>
      rw [fullNameFrom, fullNameFrom]
      simp only [ih]
      rfl

@[simp] theorem fullName_lookup (m : Image) (t : Table TypeId) (id : TypeId) :
    { m with lookup := t }.fullName id = m.fullName id := fullNameFrom_lookup ..

theorem preorder_lookup (m : Image) (t : Table TypeId) (n : Nat) (stack seen : List TypeId) :
    { m with lookup := t }.preorder n stack seen = m.preorder n stack seen := by
  induction n generalizing stack seen with
  | zero => rfl
  | succ n ih =>
      cases stack with
      | nil => rfl
      | cons id stack =>
          rw [preorder, preorder]
          simp only [ih]
          rfl

theorem shape_content (m : Image) : m.content.shape = { m.shape with lookup := {} } := by
  simp [content, shape]

@[simp] theorem fullName_content (m : Image) : m.content.fullName = m.fullName := by
  funext id
  rw [← fullName_shape, shape_content, fullName_lookup, fullName_shape]

@[simp] theorem typeIds_content (m : Image) : m.content.typeIds = m.typeIds := by
  rw [← typeIds_shape, shape_content, typeIds, preorder_lookup]
  exact m.typeIds_shape

/-! ## Rules and encoding -/

theorem obeys_content_iff {m : Image} {id : TypeId} {d : TypeDef} :
    m.content.Obeys id d.unplaced ↔ m.Obeys id d := by
  constructor
  · rintro ⟨listed, inside, fields, returns⟩
    refine ⟨fun parent hp => ?_, by simpa using inside, fields, returns⟩
    obtain ⟨p, found, mem⟩ := listed parent hp
    rw [get?_content] at found
    obtain ⟨q, node, rfl⟩ := Option.map_eq_some_iff.mp found
    exact ⟨q, node, mem⟩
  · rintro ⟨listed, inside, fields, returns⟩
    refine ⟨fun parent hp => ?_, by simpa using inside, fields, returns⟩
    obtain ⟨p, found, mem⟩ := listed parent hp
    exact ⟨p.unplaced, by rw [get?_content, found]; rfl, mem⟩

theorem valid_content_iff {m : Image} : m.content.Valid ↔ m.Valid := by
  constructor
  · rintro ⟨roots, nodes, names⟩
    refine ⟨fun id hid => ?_, fun id d hd => ?_, by simpa using names⟩
    · obtain ⟨d, found, top⟩ := roots id hid
      rw [get?_content] at found
      obtain ⟨e, node, rfl⟩ := Option.map_eq_some_iff.mp found
      exact ⟨e, node, top⟩
    · exact obeys_content_iff.mp (nodes id d.unplaced (by rw [get?_content, hd]; rfl))
  · rintro ⟨roots, nodes, names⟩
    refine ⟨fun id hid => ?_, fun id d hd => ?_, by simpa using names⟩
    · obtain ⟨d, node, top⟩ := roots id hid
      exact ⟨d.unplaced, by rw [get?_content, node]; rfl, top⟩
    · rw [get?_content] at hd
      obtain ⟨e, node, rfl⟩ := Option.map_eq_some_iff.mp hd
      exact obeys_content_iff.mpr (nodes id e node)

@[simp] theorem toJson_content (m : Image) : m.content.toJson = m.toJson := by
  simp [toJson, content, Json.list, Function.comp_def]

/-! ## Images of one content -/

section
variable {m m' : Image} (same : m'.content = m.content)
include same

theorem identity_of_content : m'.identity = m.identity := by
  rw [← content_identity, same, content_identity]

theorem references_of_content : m'.references = m.references := by
  rw [← content_references, same, content_references]

theorem roots_of_content : m'.roots = m.roots := by
  rw [← content_roots, same, content_roots]

theorem length_of_content : m'.types.length = m.types.length := by
  rw [← length_content, same, length_content]

theorem get?_of_content (id : TypeId) :
    (m'.get? id).map TypeDef.unplaced = (m.get? id).map TypeDef.unplaced := by
  rw [← get?_content, ← get?_content, same]

theorem fullName_of_content : m'.fullName = m.fullName := by
  rw [← fullName_content, same, fullName_content]

theorem typeIds_of_content : m'.typeIds = m.typeIds := by
  rw [← typeIds_content, same, typeIds_content]

theorem toJson_of_content : m'.toJson = m.toJson := by
  rw [← toJson_content, same, toJson_content]

theorem valid_of_content (valid : m.Valid) : m'.Valid := by
  rw [← valid_content_iff, same]
  exact valid_content_iff.mpr valid

end

end Image
end Companions
