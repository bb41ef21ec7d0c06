import Companions.Proofs.Image.Chain
import Companions.Proofs.Image.Graft
import Companions.Proofs.Image.Listing
import Companions.Proofs.Idle
/-!
Sound images: well nested, obeying the structural rules, and with a table that leads from every full
name to its node. The table is what tells whether a name is free, so a node that is nested under a
free name leaves names unique only where the table is current; and it is entered under the name by
which its declaring chain calls it, which takes chains that end.
-/
namespace Companions.Image
variable {m m' : Image}

/-- Every place where a node is listed: the roots, and the nested lists in the order of their nodes. -/
def listed (m : Image) : List TypeId := m.roots ++ m.types.flatMap (·.nested)

/-- Roots and nested lists list every node exactly once, at the place that its declaring link says,
and every declaring chain ends at a root. -/
structure WellNested (m : Image) : Prop where
  once : m.listed.Perm (List.range m.size)
  tops : ∀ id ∈ m.roots, ∃ d, m.get? id = some d ∧ d.declaring = none
  links : ∀ p c, m.Lists p c → m.Declares p c
  rooted : ∀ id < m.size, m.Rooted id

/-- An image of which every node is a top-level one. -/
theorem wellNested_of_flat (roots : m.roots = List.range m.size)
    (flat : ∀ d ∈ m.types, d.nested = [] ∧ d.declaring = none) : m.WellNested where
  once := by
    have none : m.types.flatMap (·.nested) = [] :=
      List.flatMap_eq_nil_iff.mpr fun d hd => (flat d hd).1
    rw [listed, none, List.append_nil, roots]
  tops id listed := by
    rw [roots, List.mem_range] at listed
    obtain ⟨d, node⟩ := exists_get? listed
    exact ⟨d, node, (flat d (List.mem_of_getElem? node)).2⟩
  links p c listed := by
    obtain ⟨d, node, mem⟩ := listed
    rw [(flat d (List.mem_of_getElem? node)).1] at mem
    cases mem
  rooted id inside := by
    rw [← List.mem_range, ← roots] at inside
    exact .root inside

/-- The table leads from the full name of each node to the node. -/
def Current (m : Image) : Prop := ∀ id < m.size, m.find? (m.fullName id) = some id

/-- No node has two fields of one name. -/
def Tidy (m : Image) : Prop := ∀ d ∈ m.types, (d.fields.map (·.name)).Nodup

structure Sound (m : Image) : Prop where
  nested : m.WellNested
  valid : m.Valid
  current : m.Current

theorem Valid.lt_of_rooted (valid : m.Valid) {id : TypeId} (h : m.Rooted id) : id < m.size := by
  cases h with
  | root listed => exact valid.root_lt listed
  | inner _ link => exact valid.lt_of_lists (valid.lists_of_declares link)

theorem WellNested.grounded (h : m.WellNested) (valid : m.Valid) : m.Grounded := by
  intro id inside
  induction h.rooted id inside with
  | root listed =>
      obtain ⟨d, node, free⟩ := h.tops _ listed
      exact ⟨_, _, .top node free⟩
  | inner outer link ih =>
      obtain ⟨d, node, link⟩ := link
      obtain ⟨l, name, chain⟩ := ih (valid.lt_of_rooted outer)
      exact ⟨_, _, .inner node link chain⟩

theorem Sound.grounded (h : m.Sound) : m.Grounded := h.nested.grounded h.valid

/-! Names stay what they are while more is nested. -/

namespace Grounded
variable (h : m.Grounded) (hosts : m.Hosts m.size m') {id : TypeId} (inside : id < m.size)
include h hosts inside

theorem fullName_hosts : m'.fullName id = m.fullName id :=
  h.fullName_kept hosts.extends.keeps inside

theorem referenceTo_hosts : m'.referenceTo id = m.referenceTo id := by
  rw [referenceTo, referenceTo, hosts.identity, h.fullName_hosts hosts inside]

theorem uniqueName_hosts : m'.uniqueName id = m.uniqueName id := by
  rw [uniqueName, uniqueName, h.referenceTo_hosts hosts inside]

end Grounded

theorem Valid.tidy (h : m.Valid) : m.Tidy := by
  intro d hd
  obtain ⟨id, node⟩ := mem_types_iff.mp hd
  exact (h.nodes id d node).fields

theorem Sound.tidy (h : m.Sound) : m.Tidy := h.valid.tidy

theorem Tidy.update (h : m.Tidy) (id : TypeId) {f : TypeDef → TypeDef}
    (tidy : ∀ d, m.get? id = some d → ((f d).fields.map (·.name)).Nodup) : (m.update id f).Tidy := by
  intro d hd
  obtain ⟨i, node⟩ := mem_types_iff.mp hd
  rw [get?_update] at node
  split at node
  · next same =>
      obtain ⟨e, old, rfl⟩ := Option.map_eq_some_iff.mp node
      exact tidy e (same ▸ old)
  · exact h d (List.mem_of_getElem? node)

/-! ## Changes within nodes

Shapes tell everything but the names of fields. -/

section shape

variable (same : m'.shape = m.shape)
include same

theorem node_of_shape {id : TypeId} {d : TypeDef} (node : m.get? id = some d) :
    ∃ d', m'.get? id = some d' ∧ d'.nested = d.nested ∧ d'.declaring = d.declaring ∧
      d'.constructors = d.constructors := by
  have both := congrArg (·.get? id) same
  simp only [get?_shape, node] at both
  obtain ⟨d', node', alike⟩ := Option.map_eq_some_iff.mp both
  refine ⟨d', node', ?_, ?_, ?_⟩
  · simpa using congrArg (·.nested) alike
  · simpa using congrArg (·.declaring) alike
  · simpa using congrArg (·.constructors) alike

theorem size_of_shape : m'.size = m.size := by
  have both := congrArg (·.size) same
  simpa only [size, length_shape] using both

theorem listed_of_shape : m'.listed = m.listed := by
  have forget (m : Image) : m.shape.listed = m.listed := by
    simp [listed, shape, List.flatMap_map]
  rw [← forget, same, forget]

theorem Lists.of_shape {p c : TypeId} (h : m.Lists p c) : m'.Lists p c := by
  obtain ⟨d, node, mem⟩ := h
  obtain ⟨d', node', nested, -⟩ := node_of_shape same node
  exact ⟨d', node', nested ▸ mem⟩

theorem Declares.of_shape {p c : TypeId} (h : m.Declares p c) : m'.Declares p c := by
  obtain ⟨d, node, link⟩ := h
  obtain ⟨d', node', -, declaring, -⟩ := node_of_shape same node
  exact ⟨d', node', declaring.trans link⟩

theorem roots_of_shape : m'.roots = m.roots := by
  simpa using congrArg (·.roots) same

theorem Rooted.of_shape {id : TypeId} (h : m.Rooted id) : m'.Rooted id := by
  induction h with
  | root listed =>
      rw [← roots_of_shape same] at listed
      exact .root listed
  | inner _ link ih => exact .inner ih (link.of_shape same)

theorem WellNested.of_shape (h : m.WellNested) : m'.WellNested where
  once := by
    rw [listed_of_shape same, size_of_shape same]
    exact h.once
  tops id listed := by
    rw [roots_of_shape same] at listed
    obtain ⟨d, node, free⟩ := h.tops id listed
    obtain ⟨d', node', -, declaring, -⟩ := node_of_shape same node
    exact ⟨d', node', declaring.trans free⟩
  links p c h' := (h.links p c (h'.of_shape same.symm)).of_shape same
  rooted id inside := (h.rooted id (size_of_shape same ▸ inside)).of_shape same

theorem fullName_of_shape (id : TypeId) : m'.fullName id = m.fullName id := by
  rw [← fullName_shape, same, fullName_shape]

theorem Current.of_shape (h : m.Current) : m'.Current := by
  intro id inside
  rw [size_of_shape same] at inside
  rw [← find?_shape, same, find?_shape, fullName_of_shape same]
  exact h id inside

theorem Valid.of_shape (h : m.Valid) (tidy : m'.Tidy) : m'.Valid where
  roots id listed := by
    rw [roots_of_shape same] at listed
    obtain ⟨d, node, free⟩ := h.roots id listed
    obtain ⟨d', node', -, declaring, -⟩ := node_of_shape same node
    exact ⟨d', node', declaring.trans free⟩
  nodes id d' node' := by
    obtain ⟨d, node, nested, declaring, constructors⟩ := node_of_shape same.symm node'
    have obeys := h.nodes id d node
    refine ⟨?_, ?_, tidy d' (List.mem_of_getElem? node'), constructors ▸ obeys.returns⟩
    · intro parent link
      obtain ⟨p, found, mem⟩ := obeys.listed parent (declaring ▸ link)
      exact Lists.of_shape same ⟨p, found, mem⟩
    · intro c hc
      have inside := obeys.inside c (nested ▸ hc)
      rwa [← show m'.types.length = m.types.length from size_of_shape same] at inside
  names := by
    have names : (List.range m'.types.length).map m'.fullName =
        (List.range m.types.length).map m.fullName := by
      rw [show m'.types.length = m.types.length from size_of_shape same]
      exact List.map_congr_left fun id _ => fullName_of_shape same id
    rw [names]
    exact h.names

theorem Sound.of_shape (h : m.Sound) (tidy : m'.Tidy) : m'.Sound :=
  ⟨h.nested.of_shape same, h.valid.of_shape same tidy, h.current.of_shape same⟩

end shape

/-! ## A nested node -/

theorem keeps_addNestedType (m : Image) (parent : TypeId) (d : TypeDef) :
    m.Keeps (m.addNestedType parent d) :=
  (hosts_addNestedType m.size m parent d).extends.keeps

/-- The chain of the new node goes on with its parent's. -/
theorem Grounded.chain_addNestedType (h : m.Grounded) {parent : TypeId} (inside : parent < m.size)
    (d : TypeDef) : ∃ l,
    (m.addNestedType parent d).Chain m.size l (Name.nest (m.fullName parent) d.name) := by
  obtain ⟨l, name, chain⟩ := h parent inside
  have new := Chain.inner (get?_addNestedType_new d inside) rfl
    (chain.kept (keeps_addNestedType m parent d))
  rw [chain.fullName_eq]
  exact ⟨_, new⟩

/-- The name under which a nested node is entered, unless it is taken. -/
theorem find?_addNestedType (linked : m.Linked) {parent : TypeId} (inside : parent < m.size)
    (d : TypeDef) (name : String) : (m.addNestedType parent d).find? name =
      if name = Name.nest (m.fullName parent) d.name
      then some ((m.find? (Name.nest (m.fullName parent) d.name)).getD m.size)
      else m.find? name := by
  have entered := fullName_nested linked (d := { d with declaring := some parent }) rfl inside
  change (m.allocate { d with declaring := some parent }).find? name = _
  rw [allocate, find?, Table.get?_insertNew, entered]
  rfl

theorem listed_addNestedType {parent : TypeId} {d : TypeDef} (inside : parent < m.size)
    (bare : d.nested = []) : (m.addNestedType parent d).listed.Perm (m.listed ++ [m.size]) := by
  have each {l : List TypeDef} {i : Nat} (hi : i < l.length) :
      ((l.modify i fun p => { p with nested := p.nested ++ [m.size] }).flatMap (·.nested)).Perm
        (l.flatMap (·.nested) ++ [m.size]) := by
    induction l generalizing i with
    | nil => cases hi
    | cons p l ih =>
        cases i with
        | zero =>
            rw [List.modify_zero_cons, List.flatMap_cons, List.flatMap_cons, List.append_assoc,
              List.append_assoc]
            exact List.perm_append_comm.append_left p.nested
        | succ i =>
            rw [List.modify_succ_cons, List.flatMap_cons, List.flatMap_cons, List.append_assoc]
            exact (ih (Nat.lt_of_succ_lt_succ hi)).append_left p.nested
  have long : parent < (m.types ++ [{ d with declaring := some parent }]).length :=
    Nat.lt_of_lt_of_le inside (by simp [size])
  have flat : (m.types ++ [{ d with declaring := some parent }]).flatMap TypeDef.nested =
      m.types.flatMap TypeDef.nested := by
    simp [bare]
  have perm := (each long).append_left m.roots
  rw [flat, ← List.append_assoc] at perm
  exact perm

theorem hosts_old {id : TypeId} {e : TypeDef} (parent : TypeId) (d : TypeDef)
    (node : m.get? id = some e) : ∃ e', (m.addNestedType parent d).get? id = some e' ∧ e.Hosts e' :=
  (hosts_addNestedType m.size m parent d).nodes id (lt_of_get? node) e node

/-- A node afterwards is an old one, perhaps with the new one nested in it, or the new one. -/
theorem get?_addNestedType_cases {parent id : TypeId} {d e' : TypeDef} (inside : parent < m.size)
    (h : (m.addNestedType parent d).get? id = some e') :
    (∃ e, m.get? id = some e ∧
      e' = if parent = id then { e with nested := e.nested ++ [m.size] } else e) ∨
    (id = m.size ∧ e' = { d with declaring := some parent }) := by
  have there : id < m.size + 1 := by
    rw [← size_addNestedType m parent d]
    exact lt_of_get? h
  rcases Nat.lt_succ_iff_lt_or_eq.mp there with old | rfl
  · rw [get?_addNestedType_old d old] at h
    obtain ⟨e, node, same⟩ := Option.map_eq_some_iff.mp h
    exact .inl ⟨e, node, same.symm⟩
  · rw [get?_addNestedType_new d inside] at h
    exact .inr ⟨rfl, (Option.some.inj h).symm⟩

theorem lists_addNestedType {parent : TypeId} {d : TypeDef} (inside : parent < m.size)
    (bare : d.nested = []) {p c : TypeId} :
    (m.addNestedType parent d).Lists p c ↔ m.Lists p c ∨ p = parent ∧ c = m.size := by
  constructor
  · rintro ⟨e', node, mem⟩
    obtain ⟨e, old, rfl⟩ | ⟨rfl, rfl⟩ := get?_addNestedType_cases inside node
    · split at mem
      · next same =>
          rcases List.mem_append.mp mem with mem | new
          · exact .inl ⟨e, old, mem⟩
          · exact .inr ⟨same.symm, List.mem_singleton.mp new⟩
      · exact .inl ⟨e, old, mem⟩
    · rw [bare] at mem
      cases mem
  · rintro (⟨e, node, mem⟩ | ⟨rfl, rfl⟩)
    · obtain ⟨e', node', hosts⟩ := hosts_old parent d node
      exact ⟨e', node', hosts.nested.subset mem⟩
    · obtain ⟨e, node⟩ := exists_get? inside
      refine ⟨{ e with nested := e.nested ++ [m.size] }, ?_, List.mem_append_right _ List.mem_cons_self⟩
      rw [get?_addNestedType_old d inside, node, Option.map_some, if_pos rfl]

theorem declares_addNestedType {parent : TypeId} {d : TypeDef} (inside : parent < m.size)
    {p c : TypeId} :
    (m.addNestedType parent d).Declares p c ↔ m.Declares p c ∨ p = parent ∧ c = m.size := by
  constructor
  · rintro ⟨e', node, link⟩
    obtain ⟨e, old, rfl⟩ | ⟨rfl, rfl⟩ := get?_addNestedType_cases inside node
    · refine .inl ⟨e, old, ?_⟩
      split at link <;> exact link
    · exact .inr ⟨(Option.some.inj link).symm, rfl⟩
  · rintro (⟨e, node, link⟩ | ⟨rfl, rfl⟩)
    · obtain ⟨e', node', hosts⟩ := hosts_old parent d node
      exact ⟨e', node', by rw [hosts.same]; exact link⟩
    · exact ⟨_, get?_addNestedType_new d inside, rfl⟩

theorem rooted_addNestedType {parent id : TypeId} (d : TypeDef) (inside : parent < m.size)
    (h : m.Rooted id) : (m.addNestedType parent d).Rooted id := by
  induction h with
  | root listed => exact .root listed
  | inner _ link ih => exact .inner ih ((declares_addNestedType inside).mpr (.inl link))

theorem WellNested.addNestedType (h : m.WellNested) {parent : TypeId} {d : TypeDef}
    (inside : parent < m.size) (bare : d.nested = []) : (m.addNestedType parent d).WellNested where
  once := by
    rw [size_addNestedType, List.range_succ]
    exact (listed_addNestedType inside bare).trans (h.once.append_right _)
  tops id listed := by
    obtain ⟨e, node, free⟩ := h.tops id listed
    obtain ⟨e', node', hosts⟩ := hosts_old parent d node
    exact ⟨e', node', by rw [hosts.same]; exact free⟩
  links p c listed := by
    rw [declares_addNestedType inside]
    exact ((lists_addNestedType inside bare).mp listed).imp_left (h.links p c)
  rooted id there := by
    rw [size_addNestedType] at there
    rcases Nat.lt_succ_iff_lt_or_eq.mp there with old | rfl
    · exact rooted_addNestedType d inside (h.rooted id old)
    · exact .inner (rooted_addNestedType d inside (h.rooted parent inside))
        ((declares_addNestedType inside).mpr (.inr ⟨rfl, rfl⟩))

namespace Sound

variable {parent : TypeId} {d : TypeDef} (sound : m.Sound) (inside : parent < m.size)
include sound inside

/-- The new node is called after its parent, and the old ones as before. -/
theorem fullName_addNestedType (d : TypeDef) :
    (m.addNestedType parent d).fullName m.size = Name.nest (m.fullName parent) d.name ∧
      ∀ id < m.size, (m.addNestedType parent d).fullName id = m.fullName id := by
  obtain ⟨l, new⟩ := sound.grounded.chain_addNestedType inside d
  exact ⟨new.fullName_eq,
    fun id old => sound.grounded.fullName_kept (keeps_addNestedType m parent d) old⟩

theorem wellNested_addNestedType (bare : d.nested = []) : (m.addNestedType parent d).WellNested :=
  sound.nested.addNestedType inside bare

variable (free : m.find? (Name.nest (m.fullName parent) d.name) = none)
include free

theorem names_addNestedType :
    ((List.range (m.size + 1)).map (m.addNestedType parent d).fullName).Nodup := by
  obtain ⟨new, old⟩ := sound.fullName_addNestedType inside d
  have names : (List.range m.size).map (m.addNestedType parent d).fullName =
      (List.range m.size).map m.fullName :=
    List.map_congr_left fun id hid => old id (List.mem_range.mp hid)
  rw [List.range_succ, List.map_append, names, List.map_singleton, new]
  refine List.nodup_append.mpr ⟨sound.valid.names, List.nodup_singleton _, ?_⟩
  intro name known other met same
  obtain ⟨id, hid, rfl⟩ := List.mem_map.mp known
  -- the table would lead from the free name to the old node
  rw [List.mem_singleton.mp met] at same
  rw [← same, sound.current id (List.mem_range.mp hid)] at free
  cases free

theorem valid_addNestedType (bare : d.Bare) : (m.addNestedType parent d).Valid where
  roots := (sound.wellNested_addNestedType inside bare.nested).tops
  nodes id e' node := by
    have listed (p : TypeId) (link : e'.declaring = some p) : (m.addNestedType parent d).Lists p id := by
      have declares := (declares_addNestedType inside).mp ⟨e', node, link⟩
      exact (lists_addNestedType inside bare.nested).mpr
        (declares.imp_left sound.valid.lists_of_declares)
    have within (c : TypeId) (mem : c ∈ e'.nested) :
        c < (m.addNestedType parent d).types.length := by
      rw [length_addNestedType]
      rcases (lists_addNestedType inside bare.nested).mp ⟨e', node, mem⟩ with old | ⟨-, rfl⟩
      · exact Nat.lt_succ_of_lt (sound.valid.lt_of_lists old)
      · exact Nat.lt_succ_self _
    obtain ⟨e, old, rfl⟩ | ⟨rfl, rfl⟩ := get?_addNestedType_cases inside node
    · have obeys := sound.valid.nodes id e old
      refine ⟨listed, within, ?_, ?_⟩
      · split <;> exact obeys.fields
      · split <;> exact obeys.returns
    · refine ⟨listed, within, ?_, bare.returns⟩
      rw [bare.fields]
      exact List.nodup_nil
  names := by
    rw [length_addNestedType]
    exact sound.names_addNestedType inside free

theorem current_addNestedType : (m.addNestedType parent d).Current := by
  obtain ⟨new, old⟩ := sound.fullName_addNestedType inside d
  intro id there
  rw [find?_addNestedType sound.grounded.linked inside]
  rw [size_addNestedType] at there
  rcases Nat.lt_succ_iff_lt_or_eq.mp there with there | rfl
  · rw [old id there, if_neg, sound.current id there]
    intro same
    rw [← same, sound.current id there] at free
    cases free
  · rw [new, if_pos rfl, free]
    rfl

end Sound

/-! ## Passes -/

theorem Tidy.markSerializable (h : m.Tidy) (component : TypeRef) :
    (m.markSerializable component).Tidy := by
  unfold Image.markSerializable
  split
  · exact h
  · exact h.update _ fun d node => h d (List.mem_of_getElem? node)

theorem Tidy.addAuthoringField (h : m.Tidy) {f : AuthoringField} {owner : TypeDef}
    (added : m.addAuthoringField? f = some (m', owner)) : m'.Tidy := by
  obtain ⟨found, rfl⟩ := addAuthoringField?_some added
  have new : owner.field? f.name = none := by
    by_contra old
    have has : m.HasField f := by
      intro d node
      cases found.symm.trans node
      exact Option.isSome_iff_ne_none.mpr old
    rw [addAuthoringField?_eq_none.mpr has] at added
    cases added
  refine h.update _ fun d node => ?_
  cases found.symm.trans node
  have distinct := h owner (List.mem_of_getElem? node)
  rw [List.map_append]
  refine List.nodup_append.mpr ⟨distinct, List.nodup_singleton _, fun name old other met same => ?_⟩
  obtain ⟨g, hg, rfl⟩ := List.mem_map.mp old
  have differs := List.find?_eq_none.mp new g hg
  simp [same, List.mem_singleton.mp met, Field.ofPublic] at differs

theorem Sound.markSerializable (h : m.Sound) (component : TypeRef) :
    (m.markSerializable component).Sound :=
  h.of_shape (Touch.mark m component).shape (h.tidy.markSerializable component)

theorem Sound.addAuthoringField (h : m.Sound) {f : AuthoringField} {owner : TypeDef}
    (added : m.addAuthoringField? f = some (m', owner)) : m'.Sound :=
  h.of_shape (shape_addAuthoringField added) (h.tidy.addAuthoringField added)

theorem Graft.sound {n : Nat} (h : Graft n m m') (sound : m.Sound) : m'.Sound := by
  cases h with
  | refer i =>
      refine sound.of_shape (shape_addReference m i) ?_
      unfold addReference
      split <;> exact sound.tidy
  | nest bare inside free =>
      exact ⟨sound.wellNested_addNestedType inside bare.nested,
        sound.valid_addNestedType inside free bare, sound.current_addNestedType inside free⟩
  | attach a new =>
      refine sound.of_shape (shape_update m _ fun _ => rfl) (sound.tidy.update _ fun d node => ?_)
      exact sound.tidy d (List.mem_of_getElem? node)

theorem Grafts.sound {n : Nat} (h : m.Grafts n m') (sound : m.Sound) : m'.Sound := by
  induction h with
  | refl => exact sound
  | tail _ step ih => exact step.sound ih

end Companions.Image
