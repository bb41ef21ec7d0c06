import Companions.Proofs.Image.Growth
/-!
Frames: what stays of an image that is added to. Identity and top level stay as they are, references
are put behind the old ones, and an old node gains no more than fields, nested nodes and the
serializable flag.
-/
namespace Companions

namespace TypeFlags

theorem union_self_right (a b : TypeFlags) : (a.union b).union b = a.union b :=
  union_of_contains (contains_union a b)

end TypeFlags

namespace AuthoringField

/-- The field as its owner declares it. -/
def declaration (f : AuthoringField) : Field := .ofPublic f.name f.type

theorem isPublic_declaration (f : AuthoringField) : f.declaration.isPublic := by
  have same : FieldFlags.isPublic.contains .isPublic := by decide
  exact same

/-- What a node declares of the fields, in order. -/
def declarations (id : TypeId) (fs : List AuthoringField) : List Field :=
  (fs.filter (·.owner = id)).map declaration

theorem declarations_append (id : TypeId) (fs gs : List AuthoringField) :
    declarations id (fs ++ gs) = declarations id fs ++ declarations id gs := by
  rw [declarations, List.filter_append, List.map_append]
  rfl

theorem mem_declarations {id : TypeId} {fs : List AuthoringField} {d : Field} :
    d ∈ declarations id fs ↔ ∃ f ∈ fs, f.owner = id ∧ f.declaration = d := by
  simp [declarations, and_assoc]

end AuthoringField

/-! ## Nodes -/

namespace TypeDef

/-- The node with the added fields behind its own, and perhaps with nested nodes behind its own
and the serializable flag. -/
structure Extends (d : TypeDef) (added : List Field) (d' : TypeDef) : Prop where
  flags : d'.flags = d.flags ∨ d'.flags = d.flags.union .serializable
  nested : d.nested <+: d'.nested
  same : d' = { d with flags := d'.flags, nested := d'.nested, fields := d.fields ++ added }

theorem Extends.refl (d : TypeDef) : d.Extends [] d where
  flags := .inl rfl
  nested := List.prefix_refl _
  same := by rw [List.append_nil]

theorem Extends.trans {d d' d'' : TypeDef} {fs gs : List Field} (h : d.Extends fs d')
    (h' : d'.Extends gs d'') : d.Extends (fs ++ gs) d'' where
  flags := by
    rcases h.flags with first | first <;> rcases h'.flags with second | second
    · exact .inl (second.trans first)
    · exact .inr (by rw [second, first])
    · exact .inr (by rw [second, first])
    · exact .inr (by rw [second, first, TypeFlags.union_self_right])
  nested := h.nested.trans h'.nested
  same := by
    rw [← List.append_assoc, h'.same, h.same]

end TypeDef

/-! ## Images -/

namespace Image
open AuthoringField (declarations declarations_append)
variable {n : Nat} {m m' m'' : Image} {fs gs : List AuthoringField}

/-- What stays of an image of which the nodes below `n` are old, and the fields they gain. -/
structure Extends (n : Nat) (m : Image) (added : List AuthoringField) (m' : Image) : Prop where
  identity : m'.identity = m.identity
  roots : m'.roots = m.roots
  references : m.references <+: m'.references
  size : m.size ≤ m'.size
  nodes : ∀ id < n, ∀ d, m.get? id = some d →
    ∃ d', m'.get? id = some d' ∧ d.Extends (declarations id added) d'

theorem Extends.refl (n : Nat) (m : Image) : m.Extends n [] m :=
  ⟨rfl, rfl, List.prefix_refl _, Nat.le_refl _, fun _ _ d node => ⟨d, node, .refl d⟩⟩

theorem Extends.trans (h : m.Extends n fs m') (h' : m'.Extends n gs m'') :
    m.Extends n (fs ++ gs) m'' where
  identity := h'.identity.trans h.identity
  roots := h'.roots.trans h.roots
  references := h.references.trans h'.references
  size := Nat.le_trans h.size h'.size
  nodes id old d node := by
    obtain ⟨d', node', first⟩ := h.nodes id old d node
    obtain ⟨d'', node'', second⟩ := h'.nodes id old d' node'
    rw [declarations_append]
    exact ⟨d'', node'', first.trans second⟩

/-- A step that adds no field comes in front of or behind one that does. -/
theorem Extends.after (h' : m'.Extends n fs m'') (h : m.Extends n [] m') : m.Extends n fs m'' :=
  h.trans h'

theorem Extends.before (h : m.Extends n fs m') (h' : m'.Extends n [] m'') : m.Extends n fs m'' := by
  have both := h.trans h'
  rwa [List.append_nil] at both

theorem Extends.old (h : m.Extends m.size fs m') {id : TypeId} (hid : id < m.size) :
    ∃ d d', m.get? id = some d ∧ m'.get? id = some d' ∧ d.Extends (declarations id fs) d' := by
  obtain ⟨d, node⟩ := exists_get? hid
  obtain ⟨d', node', extended⟩ := h.nodes id hid d node
  exact ⟨d, d', node, node', extended⟩

/-- A change of one node is in the frame if, where the node is old, it is an extension. -/
theorem extends_update {id : TypeId} {f : TypeDef → TypeDef}
    (changed : id < n → ∀ d, m.get? id = some d → d.Extends (declarations id fs) (f d))
    (others : ∀ i < n, i ≠ id → declarations i fs = []) : m.Extends n fs (m.update id f) where
  identity := rfl
  roots := rfl
  references := List.prefix_refl _
  size := Nat.le_of_eq (List.length_modify ..).symm
  nodes i old d node := by
    rw [get?_update]
    by_cases same : id = i
    · subst same
      rw [if_pos rfl, node]
      exact ⟨f d, rfl, changed old d node⟩
    · rw [if_neg same, others i old (Ne.symm same)]
      exact ⟨d, node, .refl d⟩

theorem extends_markSerializable (n : Nat) (m : Image) (component : TypeRef) :
    m.Extends n [] (m.markSerializable component) := by
  unfold markSerializable
  split
  · exact .refl n m
  · refine extends_update (fun _ d _ => ⟨.inr rfl, List.prefix_refl _, ?_⟩) fun _ _ _ => rfl
    rw [declarations]
    simp

theorem extends_addAuthoringField {f : AuthoringField} {owner : TypeDef}
    (h : m.addAuthoringField? f = some (m', owner)) : m.Extends n [f] m' := by
  obtain ⟨-, rfl⟩ := addAuthoringField?_some h
  refine extends_update (fun _ d _ => ⟨.inl rfl, List.prefix_refl _, ?_⟩) fun i _ other => ?_
  · simp [declarations, AuthoringField.declaration]
  · simp [declarations, Ne.symm other]

end Image
end Companions
