import Mathlib.Logic.Relation
import Companions.Proofs.Image.Frame
/-!
Grafts: what companion passes do to an image of which some nodes are old. They refer to assemblies,
nest bare nodes under free names, and put attributes on nodes that are not old. Old nodes gain
nested nodes by it and nothing else.
-/
namespace Companions

namespace TypeDef

/-- A node as it is before anything is added to it. -/
structure Bare (d : TypeDef) : Prop where
  nested : d.nested = []
  fields : d.fields = []
  returns : ∀ c ∈ d.constructors, c.returns

/-- The node, with further nodes nested in it. -/
structure Hosts (d d' : TypeDef) : Prop where
  nested : d.nested <+: d'.nested
  same : d' = { d with nested := d'.nested }

theorem Hosts.refl (d : TypeDef) : d.Hosts d := ⟨List.prefix_refl _, rfl⟩

theorem Hosts.trans {d d' d'' : TypeDef} (h : d.Hosts d') (h' : d'.Hosts d'') : d.Hosts d'' where
  nested := h.nested.trans h'.nested
  same := by rw [h'.same, h.same]

theorem Hosts.extends {d d' : TypeDef} (h : d.Hosts d') : d.Extends [] d' where
  flags := .inl (by rw [h.same])
  nested := h.nested
  same := by rw [List.append_nil, h.same]

end TypeDef

namespace Image
variable {n : Nat} {m m' m'' : Image}

theorem size_addReference (m : Image) (i : Identity) : (m.addReference i).size = m.size := by
  unfold addReference
  split <;> rfl

/-! ## A nested node -/

theorem size_addNestedType (m : Image) (parent : TypeId) (d : TypeDef) :
    (m.addNestedType parent d).size = m.size + 1 := length_addNestedType ..

/-- A node that was there hosts the new one if that is nested in it. -/
theorem get?_addNestedType_old {parent id : TypeId} (d : TypeDef) (old : id < m.size) :
    (m.addNestedType parent d).get? id = (m.get? id).map fun e =>
      if parent = id then { e with nested := e.nested ++ [m.size] } else e := by
  rw [addNestedType, get?_update]
  change (if parent = id then ({ m with types := m.types ++ [_] }.get? id).map _
    else { m with types := m.types ++ [_] }.get? id) = _
  rw [get?_append _ old]
  split
  · rfl
  · exact Option.map_id'.symm

theorem get?_addNestedType_new {parent : TypeId} (d : TypeDef) (inside : parent < m.size) :
    (m.addNestedType parent d).get? m.size = some { d with declaring := some parent } := by
  rw [addNestedType, get?_update, if_neg (Nat.ne_of_lt inside)]
  exact List.getElem?_concat_length

/-! ## Steps -/

/-- A step of a companion pass over an image whose nodes below `n` are old. -/
inductive Graft (n : Nat) : Image → Image → Prop where
  | refer (m : Image) (i : Identity) : Graft n m (m.addReference i)
  | nest {m : Image} {parent : TypeId} {d : TypeDef} (bare : d.Bare) (inside : parent < m.size)
      (free : m.find? (Name.nest (m.fullName parent) d.name) = none) :
      Graft n m (m.addNestedType parent d)
  | attach (m : Image) {owner : TypeId} (a : CustomAttribute) (new : n ≤ owner) :
      Graft n m (m.update owner fun d => { d with attributes := d.attributes ++ [a] })

def Grafts (n : Nat) : Image → Image → Prop := Relation.ReflTransGen (Graft n)

theorem Grafts.mono {n' : Nat} (le : n' ≤ n) (h : m.Grafts n m') : m.Grafts n' m' := by
  refine Relation.ReflTransGen.mono (fun _ _ step => ?_) _ _ h
  cases step with
  | refer i => exact .refer _ i
  | nest bare inside free => exact .nest bare inside free
  | attach a new => exact .attach _ a (Nat.le_trans le new)

/-! ## What grafts leave -/

/-- What stays of an image whose nodes below `n` are old when nodes are nested. -/
structure Hosts (n : Nat) (m m' : Image) : Prop where
  identity : m'.identity = m.identity
  roots : m'.roots = m.roots
  references : m.references <+: m'.references
  size : m.size ≤ m'.size
  nodes : ∀ id < n, ∀ d, m.get? id = some d → ∃ d', m'.get? id = some d' ∧ d.Hosts d'

theorem Hosts.refl (n : Nat) (m : Image) : m.Hosts n m :=
  ⟨rfl, rfl, List.prefix_refl _, Nat.le_refl _, fun _ _ d node => ⟨d, node, .refl d⟩⟩

theorem Hosts.trans (h : m.Hosts n m') (h' : m'.Hosts n m'') : m.Hosts n m'' where
  identity := h'.identity.trans h.identity
  roots := h'.roots.trans h.roots
  references := h.references.trans h'.references
  size := Nat.le_trans h.size h'.size
  nodes id old d node := by
    obtain ⟨d', node', first⟩ := h.nodes id old d node
    obtain ⟨d'', node'', second⟩ := h'.nodes id old d' node'
    exact ⟨d'', node'', first.trans second⟩

theorem Hosts.extends (h : m.Hosts n m') : m.Extends n [] m' where
  identity := h.identity
  roots := h.roots
  references := h.references
  size := h.size
  nodes id old d node := by
    obtain ⟨d', node', hosts⟩ := h.nodes id old d node
    exact ⟨d', node', hosts.extends⟩

theorem hosts_addReference (n : Nat) (m : Image) (i : Identity) : m.Hosts n (m.addReference i) := by
  unfold addReference
  split
  · exact .refl n m
  · exact ⟨rfl, rfl, List.prefix_append .., Nat.le_refl _, fun _ _ d node => ⟨d, node, .refl d⟩⟩

theorem hosts_addNestedType (n : Nat) (m : Image) (parent : TypeId) (d : TypeDef) :
    m.Hosts n (m.addNestedType parent d) where
  identity := rfl
  roots := rfl
  references := List.prefix_refl _
  size := by
    rw [size_addNestedType]
    exact Nat.le_succ _
  nodes id _ e node := by
    rw [get?_addNestedType_old d (lt_of_get? node), node]
    refine ⟨_, rfl, ?_⟩
    split
    · exact ⟨List.prefix_append .., rfl⟩
    · exact .refl e

/-- A change of a node that is not old. -/
theorem hosts_update (m : Image) {id : TypeId} (f : TypeDef → TypeDef) (new : n ≤ id) :
    m.Hosts n (m.update id f) where
  identity := rfl
  roots := rfl
  references := List.prefix_refl _
  size := Nat.le_of_eq (List.length_modify ..).symm
  nodes i old d node := by
    rw [get?_update, if_neg (Nat.ne_of_gt (Nat.lt_of_lt_of_le old new))]
    exact ⟨d, node, .refl d⟩

theorem Graft.hosts (h : Graft n m m') : m.Hosts n m' := by
  cases h with
  | refer i => exact hosts_addReference n m i
  | nest _ _ _ => exact hosts_addNestedType n m _ _
  | attach a new => exact hosts_update m _ new

theorem Grafts.hosts (h : m.Grafts n m') : m.Hosts n m' := by
  induction h with
  | refl => exact .refl n m
  | tail _ step ih => exact ih.trans step.hosts

/-! ## New nodes -/

/-- The nodes of `m'` behind those of `m`. -/
def newIds (m m' : Image) : List TypeId := List.range' m.size (m'.size - m.size)

theorem length_newIds (m m' : Image) : (m.newIds m').length = m'.size - m.size := List.length_range'

theorem nodup_newIds (m m' : Image) : (m.newIds m').Nodup := List.nodup_range'

theorem Hosts.mem_newIds (h : m.Hosts n m') {id : TypeId} :
    id ∈ m.newIds m' ↔ m.size ≤ id ∧ id < m'.size := by
  rw [newIds, List.mem_range'_1, Nat.add_sub_cancel' h.size]

theorem Hosts.newIds_append {n' : Nat} (h : m.Hosts n m') (h' : m'.Hosts n' m'') :
    m.newIds m' ++ m'.newIds m'' = m.newIds m'' := by
  have first := h.size
  have second := h'.size
  have count : m''.size - m.size = m'.size - m.size + (m''.size - m'.size) := by omega
  rw [newIds, newIds, newIds, count, ← List.range'_append_1, Nat.add_sub_cancel' first]

end Image
end Companions
