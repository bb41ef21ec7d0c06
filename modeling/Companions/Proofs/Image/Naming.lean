import Companions.Proofs.Image.Lookup
import Companions.Proofs.Relation.Reach
/-!
Names and what finds them. An image calls its nodes by full names, which its table leads back to them,
and by references, which a context resolves; the index has the unique names of those that are listed.
Table and index are made in different orders, by names that are climbed for along declaring links. They
agree in every image that was read, even where such a climb has no end: validation has seen each full
name once.
-/
namespace Companions

namespace Context
variable {c : Context}

/-- With a current table, the reference to a node of the target leads to that very node. -/
theorem resolve?_referenceTo (current : c.target.Current) {id : TypeId} {d : TypeDef}
    (node : c.target.get? id = some d) :
    c.resolve? (c.target.referenceTo id) = some ⟨c.target, id, d⟩ := by
  apply resolve?_of_get?
  · exact c.image?_target
  · exact current id (Image.lt_of_get? node)
  · exact node

end Context

namespace Image
variable {m : Image}

/-- In an image that was read, every node is found by its full name and nothing by any other; the
reference to a node is resolved to it wherever the image is the target; and the index leads from the
unique names of the listed nodes, and from no others, to these. -/
theorem naming_of_read {image : Bytes} {symbols : Option Bytes} (h : read image symbols = .ok m) :
    (∀ id < m.size, m.find? (m.fullName id) = some id) ∧
    (∀ name id, m.find? name = some id → id < m.size ∧ m.fullName id = name) ∧
    (∀ c : Context, c.target = m → ∀ id d, m.get? id = some d →
      c.resolve? (m.referenceTo id) = some ⟨m, id, d⟩) ∧
    (Index.build m).types.entries = m.typeIds.map (fun id => (m.uniqueName id, id)) ∧
    ∀ name id, (Index.build m).lookup? name = some id ↔ id ∈ m.typeIds ∧ m.uniqueName id = name := by
  have table := tabulated_of_read h
  have valid := valid_of_read h
  refine ⟨table.current, fun name id => (table name id).mp, ?_, valid.entries_build,
    fun name id => valid.lookup?_build⟩
  intro c target id d node
  subst target
  exact Context.resolve?_referenceTo table.current node

/-- A type with a nested one, and two types that lie in each other and are listed nowhere else. -/
def knottedGame : Image where
  identity := { name := "Game" }
  types := [
    { name := "Shop", space := "Town", kind := .classType, flags := .isPublic, nested := [1] },
    { name := "Till", kind := .classType, flags := .isPublic, declaring := some 0 },
    { name := "Left", kind := .classType, flags := .isPublic, declaring := some 3, nested := [3] },
    { name := "Right", kind := .classType, flags := .isPublic, declaring := some 2, nested := [2] }]
  roots := [0]

/-- A chain that never ends is climbed as often as there are nodes; the name it gives is good. -/
theorem knottedGame_named :
    ∃ m, read knottedGame.encode.image none = .ok m ∧
      m.find? "Left/Right/Left/Right/Left" = some 2 ∧ m.typeIds = [0, 1] ∧
      (Index.build m).lookup? "Town.Shop/Till/Game" = some 1 ∧
      ∀ c : Context, c.target = m → ∀ id d, m.get? id = some d →
        c.resolve? (m.referenceTo id) = some ⟨m, id, d⟩ := by
  have valid : knottedGame.Valid := validate_ok_iff.mp (by rfl)
  have found := read_encode_bare valid (valid.addressed (by decide)) (by decide +kernel)
  obtain ⟨finds, -, resolves, -, indexed⟩ := naming_of_read found
  have listed : knottedGame.content.rebuildLookup.typeIds = [0, 1] := by rfl
  refine ⟨_, found, finds 2 (by decide), listed, (indexed _ 1).mpr ⟨?_, by rfl⟩, resolves⟩
  rw [listed]
  decide

end Image
end Companions
