import Companions.Proofs.Image.Lookup
/-!
Images put together from nothing. Adding references and nodes one at a time keeps links, lists and
names in step as long as an added node lists none itself. What is left for validation to refuse is a
name that comes twice, of a node or of a field, and a constructor that does not return.
-/
namespace Companions.Image
variable {m m' : Image}

/-- Made of nothing by adding references, nodes at the top level, and nodes nested in one that is
there. -/
inductive Assembled : Image → Prop
  | new (i : Identity) : Assembled { identity := i }
  | refer {m : Image} (h : Assembled m) (i : Identity) : Assembled (m.addReference i)
  | top {m : Image} {d : TypeDef} (h : Assembled m) (bare : d.nested = []) : Assembled (m.addType d)
  | nest {m : Image} {parent : TypeId} {d : TypeDef} (h : Assembled m) (inside : parent < m.size)
      (bare : d.nested = []) : Assembled (m.addNestedType parent d)

theorem Assembled.built (h : m.Assembled) : m.Built := by
  induction h with
  | new i => exact .new i
  | refer _ i ih => exact ih.refer i
  | top _ _ ih => exact ih.top _
  | nest _ inside _ ih => exact ih.nest _ inside

/-! ## A top-level node -/

theorem get?_addType_cases {id : TypeId} {d e : TypeDef} (h : (m.addType d).get? id = some e) :
    m.get? id = some e ∨ id = m.size ∧ e = { d with declaring := none } := by
  have there : id < m.size + 1 := by
    rw [← size_addType m d]
    exact lt_of_get? h
  rcases Nat.lt_succ_iff_lt_or_eq.mp there with old | rfl
  · rw [get?_addType_old d old] at h
    exact .inl h
  · rw [get?_addType_new] at h
    exact .inr ⟨rfl, (Option.some.inj h).symm⟩

theorem get?_addType_kept {id : TypeId} {e : TypeDef} (d : TypeDef) (node : m.get? id = some e) :
    (m.addType d).get? id = some e :=
  (get?_addType_old d (lt_of_get? node)).trans node

theorem lists_addType {d : TypeDef} (bare : d.nested = []) {p c : TypeId} :
    (m.addType d).Lists p c ↔ m.Lists p c := by
  constructor
  · rintro ⟨e, node, mem⟩
    rcases get?_addType_cases node with old | ⟨-, rfl⟩
    · exact ⟨e, old, mem⟩
    · rw [bare] at mem
      cases mem
  · rintro ⟨e, node, mem⟩
    exact ⟨e, get?_addType_kept d node, mem⟩

theorem declares_addType {d : TypeDef} {p c : TypeId} :
    (m.addType d).Declares p c ↔ m.Declares p c := by
  constructor
  · rintro ⟨e, node, link⟩
    rcases get?_addType_cases node with old | ⟨-, rfl⟩
    · exact ⟨e, old, link⟩
    · cases link
  · rintro ⟨e, node, link⟩
    exact ⟨e, get?_addType_kept d node, link⟩

theorem listed_addType {d : TypeDef} (bare : d.nested = []) :
    (m.addType d).listed.Perm (m.listed ++ [m.size]) := by
  change ((m.roots ++ [m.size]) ++ (m.types ++ [{ d with declaring := none }]).flatMap _).Perm _
  rw [List.flatMap_append, List.flatMap_singleton, bare, List.append_nil, listed]
  rw [List.append_assoc, List.append_assoc]
  exact List.perm_append_comm.append_left m.roots

theorem rooted_addType {id : TypeId} (d : TypeDef) (h : m.Rooted id) : (m.addType d).Rooted id := by
  induction h with
  | root listed => exact .root (List.mem_append_left _ listed)
  | inner _ link ih => exact .inner ih (declares_addType.mpr link)

theorem WellNested.addType (h : m.WellNested) {d : TypeDef} (bare : d.nested = []) :
    (m.addType d).WellNested where
  once := by
    rw [size_addType, List.range_succ]
    exact (listed_addType bare).trans (h.once.append_right _)
  tops id listed := by
    rcases List.mem_append.mp listed with old | new
    · obtain ⟨e, node, free⟩ := h.tops id old
      exact ⟨e, get?_addType_kept d node, free⟩
    · rw [List.mem_singleton.mp new]
      exact ⟨_, get?_addType_new m d, rfl⟩
  links p c listed := declares_addType.mpr (h.links p c ((lists_addType bare).mp listed))
  rooted id there := by
    rw [size_addType] at there
    rcases Nat.lt_succ_iff_lt_or_eq.mp there with old | rfl
    · exact rooted_addType d (h.rooted id old)
    · exact .root (List.mem_append_right _ List.mem_cons_self)

/-! ## The invariant -/

/-- Nodes are well nested, a declaring type is older than what it declares, and references bear
distinct names, none of them the image's own. -/
structure Orderly (m : Image) : Prop where
  nested : m.WellNested
  older : ∀ p c, m.Declares p c → p < c
  distinct : (m.references.map (·.name)).Nodup
  foreign : m.name ∉ m.references.map (·.name)

theorem Orderly.addReference (h : m.Orderly) (i : Identity) : (m.addReference i).Orderly := by
  have same := shape_addReference m i
  refine ⟨h.nested.of_shape same, fun p c link => h.older p c (link.of_shape same.symm), ?_, ?_⟩
  · unfold Image.addReference
    split
    · exact h.distinct
    · next new =>
        rw [List.map_append]
        refine List.nodup_append.mpr ⟨h.distinct, List.nodup_singleton _, ?_⟩
        rintro name old other met rfl
        obtain ⟨r, hr, named⟩ := List.mem_map.mp old
        have alike : r.name = i.name := named.trans (List.mem_singleton.mp met)
        exact new (.inr (List.any_eq_true.mpr ⟨r, hr, decide_eq_true alike⟩))
  · unfold Image.addReference
    split
    · exact h.foreign
    · next new =>
        rw [List.map_append, List.mem_append, not_or]
        exact ⟨h.foreign, fun own => new (.inl (List.mem_singleton.mp own).symm)⟩

theorem Orderly.addType (h : m.Orderly) {d : TypeDef} (bare : d.nested = []) :
    (m.addType d).Orderly where
  nested := h.nested.addType bare
  older p c link := h.older p c (declares_addType.mp link)
  distinct := h.distinct
  foreign := h.foreign

theorem Orderly.addNestedType (h : m.Orderly) {parent : TypeId} {d : TypeDef}
    (inside : parent < m.size) (bare : d.nested = []) : (m.addNestedType parent d).Orderly where
  nested := h.nested.addNestedType inside bare
  older p c link := by
    rcases (declares_addNestedType inside).mp link with old | ⟨rfl, rfl⟩
    · exact h.older p c old
    · exact inside
  distinct := h.distinct
  foreign := h.foreign

theorem Assembled.orderly (h : m.Assembled) : m.Orderly := by
  induction h with
  | new i =>
      have bare (id : TypeId) (d : TypeDef) : ({ identity := i } : Image).get? id ≠ some d := nofun
      refine ⟨⟨.refl _, nofun, ?_, nofun⟩, ?_, List.nodup_nil, List.not_mem_nil⟩
      · rintro p c ⟨d, node, -⟩
        exact absurd node (bare p d)
      · rintro p c ⟨d, node, -⟩
        exact absurd node (bare c d)
  | refer _ i ih => exact ih.addReference i
  | top _ bare ih => exact ih.addType bare
  | nest _ inside bare ih => exact ih.addNestedType inside bare

/-! ## Links and lists -/

namespace WellNested
variable (h : m.WellNested)
include h

theorem lt_of_root {id : TypeId} (root : id ∈ m.roots) : id < m.size :=
  List.mem_range.mp (h.once.subset (List.mem_append_left _ root))

theorem lt_of_lists {p c : TypeId} (lists : m.Lists p c) : c < m.size := by
  obtain ⟨d, node, mem⟩ := lists
  have listed : c ∈ m.listed :=
    List.mem_append_right _ (List.mem_flatMap.mpr ⟨d, mem_types_iff.mpr ⟨p, node⟩, mem⟩)
  exact List.mem_range.mp (h.once.subset listed)

/-- Every node is listed somewhere, and a node that has a declaring type only there. -/
theorem lists_of_declares {p c : TypeId} (link : m.Declares p c) : m.Lists p c := by
  obtain ⟨d, node, outer⟩ := link
  have listed : c ∈ m.listed := h.once.symm.subset (List.mem_range.mpr (lt_of_get? node))
  rcases List.mem_append.mp listed with root | inner
  · obtain ⟨e, node', free⟩ := h.tops c root
    cases node.symm.trans node'
    cases free.symm.trans outer
  · obtain ⟨e, he, mem⟩ := List.mem_flatMap.mp inner
    obtain ⟨q, parent⟩ := mem_types_iff.mp he
    obtain ⟨d', node', outer'⟩ := h.links q c ⟨e, parent, mem⟩
    cases node.symm.trans node'
    obtain rfl := Option.some.inj (outer.symm.trans outer')
    exact ⟨e, parent, mem⟩

theorem agrees : m.Agrees := fun p c => ⟨h.links p c, h.lists_of_declares⟩

theorem reached {id : TypeId} (rooted : m.Rooted id) : m.Reached m.roots id := by
  induction rooted with
  | root listed => exact .start listed (h.lt_of_root listed)
  | inner _ link ih =>
      have lists := h.lists_of_declares link
      obtain ⟨d, node, listed⟩ := lists
      exact .nested ih node listed (h.lt_of_lists ⟨d, node, listed⟩)

theorem perm_typeIds : m.typeIds.Perm (List.range m.size) := by
  refine (List.perm_ext_iff_of_nodup m.nodup_typeIds List.nodup_range).mpr fun id => ?_
  rw [mem_typeIds_iff, List.mem_range]
  exact ⟨Reached.lt, fun inside => h.reached (h.rooted id inside)⟩

end WellNested

/-! ## The order of nodes -/

/-- What the walk lists was on its stack, or is nested in a node that was listed before. -/
theorem preorder_split {n : Nat} {stack seen before after : List TypeId} {c : TypeId}
    (h : m.preorder n stack seen = before ++ c :: after) :
    c ∈ stack ∨ ∃ p ∈ before, m.Lists p c := by
  fun_induction m.preorder n stack seen generalizing before with
  | case1 | case2 => simp at h
  | case3 n i stack seen met ih => exact (ih h).imp_left (List.mem_cons_of_mem i)
  | case4 n i stack seen unmet missing ih => exact (ih h).imp_left (List.mem_cons_of_mem i)
  | case5 n i stack seen unmet d found ih =>
      cases before with
      | nil =>
          obtain ⟨rfl, -⟩ := List.cons.inj h
          exact .inl List.mem_cons_self
      | cons j before =>
          obtain ⟨rfl, rest⟩ := List.cons.inj h
          rcases ih rest with onto | ⟨p, hp, lists⟩
          · rcases List.mem_append.mp onto with inner | outer
            · exact .inr ⟨i, List.mem_cons_self, d, found, inner⟩
            · exact .inl (List.mem_cons_of_mem i outer)
          · exact .inr ⟨p, List.mem_cons_of_mem i hp, lists⟩

theorem WellNested.idxOf_lt_of_declares (h : m.WellNested) {p c : TypeId} (link : m.Declares p c) :
    m.typeIds.idxOf p < m.typeIds.idxOf c := by
  obtain ⟨d, node, outer⟩ := link
  have mem : c ∈ m.typeIds := h.perm_typeIds.symm.subset (List.mem_range.mpr (lt_of_get? node))
  obtain ⟨before, after, split⟩ := List.append_of_mem mem
  have distinct := m.nodup_typeIds
  rw [split] at distinct ⊢
  have fresh : c ∉ before := fun met =>
    List.disjoint_of_nodup_append distinct met List.mem_cons_self
  have earlier : p ∈ before := by
    rcases preorder_split split with root | ⟨q, hq, lists⟩
    · obtain ⟨e, node', free⟩ := h.tops c root
      cases node.symm.trans node'
      cases free.symm.trans outer
    · obtain ⟨e, node', outer'⟩ := h.links q c lists
      cases node.symm.trans node'
      obtain rfl := Option.some.inj (outer.symm.trans outer')
      exact hq
  rw [List.idxOf_append_of_mem earlier, List.idxOf_append_of_notMem fresh, List.idxOf_cons_self]
  exact Nat.lt_add_right 0 (List.idxOf_lt_length_iff.mpr earlier)

/-! ## Names -/

theorem Grounded.fullName_of_declares (h : m.Grounded) {p c : TypeId} (link : m.Declares p c) :
    ∃ d, m.get? c = some d ∧ m.fullName c = Name.nest (m.fullName p) d.name := by
  obtain ⟨d, node, outer⟩ := link
  refine ⟨d, node, ?_⟩
  obtain ⟨l, name, chain⟩ := h c (lt_of_get? node)
  rw [chain.fullName_eq]
  cases chain with
  | top node' free =>
      cases node.symm.trans node'
      cases free.symm.trans outer
  | inner node' outer' rest =>
      cases node.symm.trans node'
      cases outer.symm.trans outer'
      rw [rest.fullName_eq]

/-- The table leads from a name to the first node that bears it. -/
def Earliest (m : Image) : Prop := ∀ i < m.size, ∀ id, m.find? (m.fullName i) = some id → id ≤ i

/-- A node more is entered only where its name is new. -/
theorem Earliest.more (h : m.Earliest) (entered : m.Entered) (keeps : m.Keeps m')
    (size : m'.size = m.size + 1) {full : String} (new : m'.fullName m.size = full)
    (find : ∀ name, m'.find? name =
      if name = full then some ((m.find? full).getD m.size) else m.find? name) : m'.Earliest := by
  intro i inside id found
  rw [size] at inside
  rw [find] at found
  rcases Nat.lt_succ_iff_lt_or_eq.mp inside with old | rfl
  · rw [entered.grounded.fullName_kept keeps old] at found
    split at found
    · next same =>
        obtain ⟨j, known⟩ := Option.isSome_iff_exists.mp (entered.all i old)
        rw [← same, known] at found
        exact h i old id (known.trans found)
    · exact h i old id found
  · rw [new, if_pos rfl] at found
    obtain rfl := Option.some.inj found
    cases known : m.find? full with
    | none => exact Nat.le_refl _
    | some j => exact Nat.le_of_lt (entered.true full j known).1

theorem Assembled.earliest (h : m.Assembled) : m.Earliest := by
  induction h with
  | new i => exact nofun
  | @refer m _ i ih =>
      have same := shape_addReference m i
      intro j inside id found
      rw [size_addReference] at inside
      rw [fullName_of_shape same, ← find?_shape, same, find?_shape] at found
      exact ih j inside id found
  | @top m d h _ ih =>
      exact ih.more h.built.entered (keeps_addType m d) (size_addType m d)
        (chain_addType m d).fullName_eq (find?_addType m d)
  | @nest m parent d h inside _ ih =>
      have entered := h.built.entered
      obtain ⟨l, new⟩ := entered.grounded.chain_addNestedType inside d
      exact ih.more entered (keeps_addNestedType m parent d) (size_addNestedType m parent d)
        new.fullName_eq (find?_addNestedType entered.grounded.linked inside d)

theorem Entered.find?_eq_some_iff (h : m.Entered) (earliest : m.Earliest) {name : String}
    {id : TypeId} : m.find? name = some id ↔
      id < m.size ∧ m.fullName id = name ∧ ∀ i < id, m.fullName i ≠ name := by
  constructor
  · intro found
    obtain ⟨inside, named⟩ := h.true name id found
    refine ⟨inside, named, ?_⟩
    rintro i less rfl
    exact Nat.not_lt.mpr (earliest i (Nat.lt_trans less inside) id found) less
  · rintro ⟨inside, rfl, first⟩
    obtain ⟨i, found⟩ := Option.isSome_iff_exists.mp (h.all id inside)
    have least := earliest id inside i found
    have same : ¬ i < id := fun less => first i less (h.true _ i found).2
    rw [found, Nat.le_antisymm least (Nat.not_lt.mp same)]

/-! ## Validation -/

theorem WellNested.valid_iff (h : m.WellNested) : m.Valid ↔
    ((List.range m.size).map m.fullName).Nodup ∧
      ∀ d ∈ m.types, (d.fields.map (·.name)).Nodup ∧ ∀ k ∈ d.constructors, k.returns := by
  constructor
  · intro valid
    refine ⟨valid.names, fun d hd => ?_⟩
    obtain ⟨id, node⟩ := mem_types_iff.mp hd
    exact ⟨(valid.nodes id d node).fields, (valid.nodes id d node).returns⟩
  · rintro ⟨names, nodes⟩
    refine ⟨h.tops, fun id d node => ?_, names⟩
    obtain ⟨fields, returns⟩ := nodes d (mem_types_iff.mpr ⟨id, node⟩)
    exact ⟨fun p link => h.lists_of_declares ⟨d, node, link⟩,
      fun c mem => h.lt_of_lists ⟨d, node, mem⟩, fields, returns⟩

theorem returns_iff {k : Method} : k.returns ↔ (k.body ≠ [] → k.body.getLast? = some .ret) := by
  rw [Method.returns, Bool.or_eq_true, List.isEmpty_iff, decide_eq_true_iff]
  exact or_iff_not_imp_left

/-- Links and lists of an assembled image say the same, every node is listed once, older than what it
declares, and shown before it; nested names continue their parent's; a name leads to the first node
that bears it; references are distinct and foreign; and validation asks for no more than distinct
names and constructors that return. -/
theorem assembled_consistent (h : m.Assembled) :
    m.Agrees ∧ m.listed.Perm (List.range m.size) ∧ (∀ p c, m.Declares p c → p < c) ∧
    m.typeIds.Perm (List.range m.size) ∧
    (∀ p c, Relation.TransGen m.Declares p c → m.typeIds.idxOf p < m.typeIds.idxOf c) ∧
    (∀ p c, m.Declares p c →
      ∃ d, m.get? c = some d ∧ m.fullName c = Name.nest (m.fullName p) d.name) ∧
    (∀ name id, m.find? name = some id ↔
      id < m.size ∧ m.fullName id = name ∧ ∀ i < id, m.fullName i ≠ name) ∧
    (m.references.map (·.name)).Nodup ∧ m.name ∉ m.references.map (·.name) ∧
    (m.validate = .ok () ↔ ((List.range m.size).map m.fullName).Nodup ∧
      ∀ d ∈ m.types, (d.fields.map (·.name)).Nodup ∧
        ∀ k ∈ d.constructors, k.body ≠ [] → k.body.getLast? = some .ret) := by
  have orderly := h.orderly
  have nested := orderly.nested
  have entered := h.built.entered
  refine ⟨nested.agrees, nested.once, orderly.older, nested.perm_typeIds, fun p c below => ?_,
    fun p c link => entered.grounded.fullName_of_declares link,
    fun name id => entered.find?_eq_some_iff h.earliest, orderly.distinct, orderly.foreign, ?_⟩
  · induction below with
    | single link => exact nested.idxOf_lt_of_declares link
    | tail _ link ih => exact Nat.lt_trans ih (nested.idxOf_lt_of_declares link)
  · rw [validate_ok_iff, nested.valid_iff]
    simp only [returns_iff]

/-- A type and one nested in it, in an assembly that refers to another. -/
def outerInner : Image :=
  ((Image.addReference { identity := { name := "Game" } } { name := "Core" }).addType
    { name := "Outer", kind := .classType, flags := .isPublic }).addNestedType 0
    { name := "Inner", kind := .classType, flags := .isPublic }

theorem outerInner_consistent : outerInner.Assembled ∧ outerInner.find? "Outer/Inner" = some 1 ∧
    outerInner.typeIds.idxOf 0 < outerInner.typeIds.idxOf 1 ∧ outerInner.validate = .ok () := by
  have assembled : outerInner.Assembled :=
    (((Assembled.new { name := "Game" }).refer { name := "Core" }).top rfl).nest (by decide) rfl
  obtain ⟨-, -, -, -, order, -, found, -, -, accepted⟩ := assembled_consistent assembled
  have names : (List.range outerInner.size).map outerInner.fullName = ["Outer", "Outer/Inner"] := by
    decide +kernel
  refine ⟨assembled, (found _ 1).mpr (by decide +kernel), order 0 1 (.single ⟨_, rfl, rfl⟩), ?_⟩
  refine accepted.mpr ⟨?_, ?_⟩
  · rw [names]
    decide
  · decide +kernel

end Companions.Image
