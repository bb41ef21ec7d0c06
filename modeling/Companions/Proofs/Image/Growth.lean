import Companions.Marker
import Companions.Proofs.Table
import Companions.Proofs.Image.Edit
import Companions.Proofs.Image.Validate
/-!
Images only grow. Ids stay valid, fields and entered names stay, and declaring links stay within
the arena once they are, as they are in a validated image. There a nested node is entered under
the full name of its parent followed by its own.
-/
namespace Companions.Image

/-- Declaring links lead to nodes. -/
def Linked (m : Image) : Prop :=
  ∀ d ∈ m.types, ∀ parent, d.declaring = some parent → parent < m.types.length

/-- The node has a field of that name. -/
def Bears (m : Image) (id : TypeId) (name : String) : Prop :=
  ∃ d, m.get? id = some d ∧ (d.field? name).isSome

structure Grows (m m' : Image) : Prop where
  size : m.types.length ≤ m'.types.length
  linked : m.Linked → m'.Linked
  fields : ∀ id name, m.Bears id name → m'.Bears id name
  names : ∀ name, (m.find? name).isSome → (m'.find? name).isSome

theorem Grows.refl (m : Image) : m.Grows m :=
  ⟨Nat.le_refl _, fun h => h, fun _ _ h => h, fun _ h => h⟩

theorem Grows.trans {m m' m'' : Image} (h : m.Grows m') (h' : m'.Grows m'') : m.Grows m'' where
  size := Nat.le_trans h.size h'.size
  linked linked := h'.linked (h.linked linked)
  fields id name bears := h'.fields id name (h.fields id name bears)
  names name known := h'.names name (h.names name known)

/-! ## One node -/

/-- A change of a node that keeps its declaring link and its fields. -/
theorem grows_update (m : Image) (id : TypeId) {f : TypeDef → TypeDef}
    (link : ∀ d, (f d).declaring = d.declaring)
    (keep : ∀ d name, (d.field? name).isSome → ((f d).field? name).isSome) :
    m.Grows (m.update id f) := by
  have size : (m.update id f).types.length = m.types.length := List.length_modify ..
  refine ⟨Nat.le_of_eq size.symm, ?_, ?_, fun _ h => h⟩
  · intro linked d hd parent hp
    rw [size]
    obtain ⟨i, node⟩ := mem_types_iff.mp hd
    rw [get?_update] at node
    split at node
    · obtain ⟨d', found', rfl⟩ := Option.map_eq_some_iff.mp node
      rw [link] at hp
      exact linked d' (List.mem_of_getElem? found') parent hp
    · exact linked d (List.mem_of_getElem? node) parent hp
  · rintro i name ⟨d, node, has⟩
    by_cases same : id = i
    · refine ⟨f d, ?_, keep d name has⟩
      rw [get?_update, if_pos same, node]
      rfl
    · refine ⟨d, ?_, has⟩
      rw [get?_update, if_neg same, node]

theorem field?_append {d : TypeDef} {name : String} (h : (d.field? name).isSome) (more : List Field) :
    ({ d with fields := d.fields ++ more }.field? name).isSome := by
  rw [TypeDef.field?, List.find?_append]
  rw [TypeDef.field?] at h
  simp [h]

theorem grows_addReference (m : Image) (i : Identity) : m.Grows (m.addReference i) := by
  unfold addReference
  split
  · exact .refl m
  · exact ⟨Nat.le_refl _, fun h => h, fun _ _ h => h, fun _ h => h⟩

theorem grows_markSerializable (m : Image) (component : TypeRef) :
    m.Grows (m.markSerializable component) := by
  unfold markSerializable
  split
  · exact .refl m
  · exact grows_update _ _ (fun _ => rfl) fun _ _ h => h

/-- Adding a field, where it can be added. -/
theorem addAuthoringField?_some {m m' : Image} {f : AuthoringField} {owner : TypeDef}
    (h : m.addAuthoringField? f = some (m', owner)) : m.get? f.owner = some owner ∧
      m' = m.update f.owner fun d => { d with fields := d.fields ++ [.ofPublic f.name f.type] } := by
  simp only [addAuthoringField?, Option.bind_eq_bind, Option.bind_eq_some_iff] at h
  obtain ⟨d, found, h⟩ := h
  split at h
  · cases h
  · cases h
    exact ⟨found, rfl⟩

theorem shape_addAuthoringField {m m' : Image} {f : AuthoringField} {owner : TypeDef}
    (h : m.addAuthoringField? f = some (m', owner)) : m'.shape = m.shape := by
  obtain ⟨-, rfl⟩ := addAuthoringField?_some h
  exact shape_update m f.owner fun _ => rfl

theorem grows_addAuthoringField {m m' : Image} {f : AuthoringField} {owner : TypeDef}
    (h : m.addAuthoringField? f = some (m', owner)) : m.Grows m' ∧ m'.Bears f.owner f.name := by
  obtain ⟨found, rfl⟩ := addAuthoringField?_some h
  refine ⟨grows_update _ _ (fun _ => rfl) fun d name h => field?_append h _, ?_⟩
  refine ⟨_, by rw [get?_update, if_pos rfl, found]; rfl, ?_⟩
  rw [TypeDef.field?, List.find?_append]
  simp [Field.ofPublic]

/-! ## Nested nodes -/

theorem get?_append {m : Image} (d : TypeDef) {id : TypeId} (h : id < m.types.length) :
    { m with types := m.types ++ [d] }.get? id = m.get? id := by
  rw [get?, get?, List.getElem?_append_left h]

/-- Behind the links of a linked image a longer arena names a node as before. -/
theorem fullNameFrom_append {m : Image} (linked : m.Linked) (d : TypeDef) (n : Nat) {id : TypeId}
    (h : id < m.types.length) (inner : List String) (name : String) :
    { m with types := m.types ++ [d] }.fullNameFrom n id (inner ++ [name]) =
      Name.nest (m.fullNameFrom n id inner) name := by
  induction n generalizing id inner with
  | zero =>
      rw [fullNameFrom, fullNameFrom, get?_append d h, get?, List.getElem?_eq_getElem h]
      exact List.foldl_append ..
  | succ n ih =>
      rw [fullNameFrom, fullNameFrom, get?_append d h, get?, List.getElem?_eq_getElem h]
      cases link : m.types[id].declaring with
      | none =>
          simp only [link]
          exact List.foldl_append ..
      | some parent =>
          simp only [link]
          have inside := linked _ (List.getElem_mem h) parent link
          exact ih inside (m.types[id].name :: inner)

/-- The full name of a new node in a linked image. -/
theorem fullName_nested {m : Image} (linked : m.Linked) {d : TypeDef} {parent : TypeId}
    (hd : d.declaring = some parent) (h : parent < m.types.length) :
    { m with types := m.types ++ [d] }.fullName m.types.length = Name.nest (m.fullName parent) d.name := by
  have node : { m with types := m.types ++ [d] }.get? m.types.length = some d := by
    rw [get?, List.getElem?_append_right (Nat.le_refl _), Nat.sub_self]
    rfl
  rw [fullName, List.length_append, List.length_singleton, fullNameFrom, node]
  simp only [hd]
  exact fullNameFrom_append linked d _ h [] d.name

theorem names_allocate (m : Image) (d : TypeDef) {name : String} (h : (m.find? name).isSome) :
    ((m.allocate d).find? name).isSome := by
  rw [allocate, find?, Table.get?_insertNew]
  split
  · rfl
  · exact h

theorem grows_allocate (m : Image) {d : TypeDef}
    (hd : ∀ parent, d.declaring = some parent → parent < m.types.length) :
    m.Grows (m.allocate d) := by
  have size : (m.allocate d).types.length = m.types.length + 1 := List.length_append ..
  refine ⟨by omega, ?_, ?_, fun _ h => names_allocate m d h⟩
  · intro linked e he parent hp
    rcases List.mem_append.mp he with old | new
    · exact Nat.lt_of_lt_of_le (linked e old parent hp) (by omega)
    · obtain rfl := List.mem_singleton.mp new
      exact Nat.lt_of_lt_of_le (hd parent hp) (by omega)
  · rintro id name ⟨e, node, has⟩
    refine ⟨e, ?_, has⟩
    exact (get?_append d (lt_of_get? node)).trans node

theorem length_addNestedType (m : Image) (parent : TypeId) (d : TypeDef) :
    (m.addNestedType parent d).types.length = m.types.length + 1 := by
  rw [addNestedType, update, List.length_modify]
  exact List.length_append ..

/-- A nested node is found under its full name, unless that one is taken, and then too. -/
theorem grows_addNestedType {m : Image} {parent : TypeId} (d : TypeDef) (h : parent < m.types.length) :
    m.Grows (m.addNestedType parent d) ∧ (m.Linked →
      ((m.addNestedType parent d).find? (Name.nest (m.fullName parent) d.name)).isSome) := by
  have link : ∀ p, { d with declaring := some parent }.declaring = some p → p < m.types.length := by
    rintro p ⟨⟩
    exact h
  constructor
  · unfold addNestedType
    refine (grows_allocate m link).trans (grows_update _ _ (fun _ => rfl) fun _ _ h => h)
  · intro linked
    have entered := fullName_nested linked (d := { d with declaring := some parent }) rfl h
    change ((m.allocate { d with declaring := some parent }).find? _).isSome
    rw [allocate, find?, Table.get?_insertNew, if_pos entered.symm]
    rfl

/-! ## Validated images -/

theorem linked_of_validate {m : Image} (h : m.validate = .ok ()) : m.Linked :=
  fun _ hd _ hp => (validate_ok_iff.mp h).linked hd hp

end Companions.Image
