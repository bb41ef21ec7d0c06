import Mathlib.Logic.Relation
import Companions.Authoring
import Companions.Proofs.Image.Shape
/-!
How passes change an image. Some changes only touch it: they flag a node or add a reference. The
others add a field, an attribute or a nested node. Nothing is ever taken away.
-/
namespace Companions

namespace TypeFlags

theorem contains_union (a b : TypeFlags) : (a.union b).contains b := by
  simp only [contains, union, decide_eq_true_eq, ← UInt32.toBitVec_inj, UInt32.toBitVec_and,
    UInt32.toBitVec_or]
  ext i
  simp only [BitVec.getElem_and, BitVec.getElem_or]
  cases b.bits.toBitVec[i] <;> simp

theorem union_of_contains {a b : TypeFlags} (h : a.contains b) : a.union b = a := by
  obtain ⟨a⟩ := a
  simp only [contains, decide_eq_true_eq] at h
  rw [union, mk.injEq, ← h, ← UInt32.toBitVec_inj, UInt32.toBitVec_or, UInt32.toBitVec_and]
  ext i
  simp only [BitVec.getElem_and, BitVec.getElem_or]
  cases a.toBitVec[i] <;> simp

end TypeFlags

namespace Image

/-! ## Flags and references -/

theorem get?_update (m : Image) (id : TypeId) (f : TypeDef → TypeDef) (i : TypeId) :
    (m.update id f).get? i = if id = i then (m.get? i).map f else m.get? i := by
  rw [get?, update, List.getElem?_modify]
  split
  · rfl
  · exact Option.map_id'

theorem update_eq_self {m : Image} {id : TypeId} {f : TypeDef → TypeDef}
    (h : ∀ d, m.get? id = some d → f d = d) : m.update id f = m := by
  unfold update
  congr 1
  refine List.ext_getElem? fun i => ?_
  rw [List.getElem?_modify]
  split
  · next same =>
      subst same
      cases found : m.types[id]? with
      | none => rfl
      | some d => exact congrArg some (h d found)
  · exact Option.map_id'

/-- An image is what stands in it and the nodes that its ids lead to. -/
theorem ext_get? {m m' : Image} (identity : m.identity = m'.identity)
    (references : m.references = m'.references) (roots : m.roots = m'.roots)
    (lookup : m.lookup = m'.lookup) (nodes : ∀ id, m.get? id = m'.get? id) : m = m' := by
  obtain ⟨identity₁, references₁, types₁, roots₁, lookup₁⟩ := m
  obtain ⟨identity₂, references₂, types₂, roots₂, lookup₂⟩ := m'
  obtain rfl : types₁ = types₂ := List.ext_getElem? nodes
  cases identity
  cases references
  cases roots
  cases lookup
  rfl

/-- The node that the component's full name leads to is flagged as serializable. -/
def Flagged (m : Image) (component : TypeRef) : Prop :=
  ∀ id d, component.fullName.bind m.find? = some id → m.get? id = some d →
    d.flags.contains .serializable

/-- The image refers to an assembly of that simple name, or is one. -/
def Refers (m : Image) (name : String) : Prop :=
  name = m.identity.name ∨ ∃ i ∈ m.references, i.name = name

theorem markSerializable_eq_self {m : Image} {component : TypeRef} (h : m.Flagged component) :
    m.markSerializable component = m := by
  unfold markSerializable
  split
  · rfl
  · next id found =>
      refine update_eq_self fun d hd => ?_
      rw [TypeFlags.union_of_contains (h id d found hd)]

theorem addReference_eq_self {m : Image} {i : Identity} (h : m.Refers i.name) :
    m.addReference i = m := by
  rw [addReference, if_pos]
  rcases h with own | ⟨j, mem, same⟩
  · exact .inl own
  · exact .inr (List.any_eq_true.mpr ⟨j, mem, by simpa using same⟩)

theorem addReference_of_not {m : Image} {i : Identity} (h : ¬ m.Refers i.name) :
    m.addReference i = { m with references := m.references ++ [i] } := by
  refine if_neg fun known => h ?_
  rcases known with own | other
  · exact .inl own
  · obtain ⟨j, mem, same⟩ := List.any_eq_true.mp other
    exact .inr ⟨j, mem, by simpa using same⟩

theorem markSerializable_some {m : Image} {component : TypeRef} {id : TypeId}
    (h : component.fullName.bind m.find? = some id) : m.markSerializable component =
      m.update id fun d => { d with flags := d.flags.union .serializable } := by
  rw [markSerializable, h]

theorem markSerializable_none {m : Image} {component : TypeRef}
    (h : component.fullName.bind m.find? = none) : m.markSerializable component = m := by
  rw [markSerializable, h]

@[simp] theorem lookup_markSerializable (m : Image) (component : TypeRef) :
    (m.markSerializable component).lookup = m.lookup := by
  unfold markSerializable
  split <;> rfl

@[simp] theorem find?_markSerializable (m : Image) (component : TypeRef) :
    (m.markSerializable component).find? = m.find? := by
  funext name
  rw [find?, find?, lookup_markSerializable]

theorem flagged_markSerializable (m : Image) (component : TypeRef) :
    (m.markSerializable component).Flagged component := by
  intro id d found node
  rw [find?_markSerializable] at found
  rw [markSerializable_some found, get?_update, if_pos rfl] at node
  obtain ⟨d, -, rfl⟩ := Option.map_eq_some_iff.mp node
  exact TypeFlags.contains_union ..

theorem refers_addReference (m : Image) (i : Identity) : (m.addReference i).Refers i.name := by
  by_cases known : m.Refers i.name
  · rw [addReference_eq_self known]
    exact known
  · rw [addReference_of_not known]
    exact .inr ⟨i, List.mem_append_right _ List.mem_cons_self, rfl⟩

/-! ## Touching -/

/-- A flag or a reference more. -/
inductive Touch : Image → Image → Prop where
  | mark (m : Image) (component : TypeRef) : Touch m (m.markSerializable component)
  | refer (m : Image) (i : Identity) : Touch m (m.addReference i)

def Touches : Image → Image → Prop := Relation.ReflTransGen Touch

theorem Touch.shape {m m' : Image} (h : Touch m m') : m'.shape = m.shape := by
  cases h with
  | mark component =>
      unfold markSerializable
      split
      · rfl
      · exact shape_update _ _ fun _ => rfl
  | refer i => exact shape_addReference m i

theorem Touch.flagged {m m' : Image} (h : Touch m m') {t : TypeRef} (ht : m.Flagged t) :
    m'.Flagged t := by
  cases h with
  | mark component =>
      intro id d found node
      rw [find?_markSerializable] at found
      cases leads : component.fullName.bind m.find? with
      | none =>
          rw [markSerializable_none leads] at node
          exact ht id d found node
      | some id' =>
          rw [markSerializable_some leads, get?_update] at node
          split at node
          · obtain ⟨d, -, rfl⟩ := Option.map_eq_some_iff.mp node
            exact TypeFlags.contains_union ..
          · exact ht id d found node
  | refer i =>
      intro id d found node
      rw [addReference] at found node
      split at found
      · rw [if_pos ‹_›] at node
        exact ht id d found node
      · rw [if_neg ‹_›] at node
        exact ht id d found node

theorem Touch.refers {m m' : Image} (h : Touch m m') {name : String} (hm : m.Refers name) :
    m'.Refers name := by
  cases h with
  | mark component =>
      unfold markSerializable
      split
      · exact hm
      · exact hm
  | refer i =>
      unfold addReference
      split
      · exact hm
      · rcases hm with own | ⟨j, mem, same⟩
        · exact .inl own
        · exact .inr ⟨j, List.mem_append_left _ mem, same⟩

theorem Touches.shape {m m' : Image} (h : Touches m m') : m'.shape = m.shape := by
  induction h with
  | refl => rfl
  | tail _ step ih => exact step.shape.trans ih

theorem Touches.flagged {m m' : Image} (h : Touches m m') {t : TypeRef} (ht : m.Flagged t) :
    m'.Flagged t := by
  induction h with
  | refl => exact ht
  | tail _ step ih => exact step.flagged ih

theorem Touches.refers {m m' : Image} (h : Touches m m') {name : String} (hm : m.Refers name) :
    m'.Refers name := by
  induction h with
  | refl => exact hm
  | tail _ step ih => exact step.refers ih

end Image
end Companions
