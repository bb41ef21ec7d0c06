import Companions.Proofs.Image.Nesting
/-!
Where tables are current, and have no other entries: in images that were read, and in accepted images
that were built node by node. Building enters each node under its full name, and the first of several
nodes with one name stays entered; validation leaves no second one.
-/
namespace Companions.Image
variable {m m' : Image}

/-! ## Tables -/

/-- The table has an entry for the full name of each node, and no other. -/
def Tabulated (m : Image) : Prop :=
  ∀ name id, m.find? name = some id ↔ id < m.size ∧ m.fullName id = name

theorem Tabulated.current (h : m.Tabulated) : m.Current :=
  fun id inside => (h _ id).mpr ⟨inside, rfl⟩

theorem Tabulated.find?_eq_none (h : m.Tabulated) {name : String} :
    m.find? name = none ↔ name ∉ (List.range m.size).map m.fullName := by
  constructor
  · intro free taken
    obtain ⟨id, inside, named⟩ := List.mem_map.mp taken
    rw [(h name id).mpr ⟨List.mem_range.mp inside, named⟩] at free
    cases free
  · intro free
    by_contra taken
    obtain ⟨id, found⟩ := Option.ne_none_iff_exists'.mp taken
    obtain ⟨inside, named⟩ := (h name id).mp found
    exact free (List.mem_map.mpr ⟨id, List.mem_range.mpr inside, named⟩)

theorem Tabulated.of_shape (h : m.Tabulated) (same : m'.shape = m.shape) :
    m'.Tabulated := by
  intro name id
  rw [← find?_shape, same, find?_shape, size_of_shape same, fullName_of_shape same]
  exact h name id

/-! ## Reading -/

theorem shape_applySymbols (m : Image) (s : Symbols) : (m.applySymbols s).shape = m.shape := by
  obtain ⟨a, es⟩ := s
  induction es generalizing m with
  | nil => rfl
  | cons e es ih =>
      cases found : m.find? e.typeName with
      | none => rw [applySymbols_cons_none found, ih]
      | some id =>
          rw [applySymbols_cons found, ih]
          exact shape_update m id fun _ => rfl

theorem Valid.current_rebuildLookup (valid : m.rebuildLookup.Valid) : m.rebuildLookup.Current := by
  have same : m.rebuildLookup.fullName = m.fullName := by
    funext id
    exact fullName_lookup m _ id
  have names := valid.names
  rw [same] at names
  intro id inside
  rw [same]
  exact find?_rebuildLookup names inside

theorem Valid.tabulated_rebuildLookup (valid : m.rebuildLookup.Valid) :
    m.rebuildLookup.Tabulated := by
  refine fun name id => ⟨fun found => ?_, ?_⟩
  · rw [rebuildLookup, find?, Table.get?_foldl_insertNew] at found
    refine ⟨List.mem_range.mp (List.mem_of_find?_eq_some found), ?_⟩
    have same : m.rebuildLookup.fullName id = m.fullName id := fullName_lookup m _ id
    rw [same]
    simpa using List.find?_some found
  · rintro ⟨inside, rfl⟩
    exact valid.current_rebuildLookup id inside

/-- The table of an image that was read. -/
theorem tabulated_of_read {image : Bytes} {symbols : Option Bytes}
    (h : read image symbols = .ok m) : m.Tabulated := by
  obtain ⟨_, _, _, decoded, -, valid, rfl | ⟨s, rfl⟩⟩ := read_eq_ok h
  · exact valid.tabulated_rebuildLookup
  · exact valid.tabulated_rebuildLookup.of_shape (shape_applySymbols _ s)

/-! ## Building -/

/-- An image made from nothing. Nodes may be edited in between as long as they keep their names and
their place. -/
inductive Built : Image → Prop
  | new (i : Identity) : Built { identity := i }
  | refer {m : Image} (h : Built m) (i : Identity) : Built (m.addReference i)
  | top {m : Image} (h : Built m) (d : TypeDef) : Built (m.addType d)
  | nest {m : Image} {parent : TypeId} (h : Built m) (d : TypeDef) (inside : parent < m.size) :
      Built (m.addNestedType parent d)
  | edit {m : Image} (h : Built m) (id : TypeId) {f : TypeDef → TypeDef}
      (space : ∀ d, (f d).space = d.space) (name : ∀ d, (f d).name = d.name)
      (declaring : ∀ d, (f d).declaring = d.declaring) : Built (m.update id f)

/-- Full names are entered, and what is entered is the full name of its node. -/
structure Entered (m : Image) : Prop where
  grounded : m.Grounded
  all : ∀ id < m.size, (m.find? (m.fullName id)).isSome
  true : ∀ name id, m.find? name = some id → id < m.size ∧ m.fullName id = name

/-- Where nodes keep their names and their places, so does the table. -/
theorem Entered.kept (h : m.Entered) (keeps : m.Keeps m') (size : m'.size = m.size)
    (lookup : m'.find? = m.find?) : m'.Entered where
  grounded := h.grounded.kept keeps size
  all id inside := by
    rw [size] at inside
    rw [lookup, h.grounded.fullName_kept keeps inside]
    exact h.all id inside
  true name id found := by
    rw [lookup] at found
    obtain ⟨inside, same⟩ := h.true name id found
    exact ⟨size ▸ inside, (h.grounded.fullName_kept keeps inside).trans same⟩

/-- A node more, entered under its full name. -/
theorem Entered.more (h : m.Entered) (keeps : m.Keeps m') (size : m'.size = m.size + 1)
    {l : List TypeId} {full : String} (new : m'.Chain m.size l full)
    (entered : ∀ name, m'.find? name =
      if name = full then some ((m.find? full).getD m.size) else m.find? name) : m'.Entered where
  grounded := h.grounded.more keeps size new
  all id inside := by
    rw [size] at inside
    rw [entered]
    rcases Nat.lt_succ_iff_lt_or_eq.mp inside with old | rfl
    · rw [h.grounded.fullName_kept keeps old]
      split
      · rfl
      · exact h.all id old
    · rw [new.fullName_eq, if_pos rfl]
      rfl
  true name id found := by
    have earlier (known : m.find? name = some id) : id < m'.size ∧ m'.fullName id = name := by
      obtain ⟨inside, same⟩ := h.true name id known
      exact ⟨size ▸ Nat.lt_succ_of_lt inside, (h.grounded.fullName_kept keeps inside).trans same⟩
    rw [entered] at found
    split at found
    · next same =>
        subst same
        cases known : m.find? name with
        | some i =>
            rw [known] at found
            exact earlier (known.trans found)
        | none =>
            rw [known] at found
            obtain rfl := Option.some.inj found
            exact ⟨size ▸ Nat.lt_succ_self _, new.fullName_eq⟩
    · exact earlier found

theorem size_addType (m : Image) (d : TypeDef) : (m.addType d).size = m.size + 1 :=
  List.length_append

theorem get?_addType_old {id : TypeId} (d : TypeDef) (old : id < m.size) :
    (m.addType d).get? id = m.get? id := get?_append _ old

theorem get?_addType_new (m : Image) (d : TypeDef) :
    (m.addType d).get? m.size = some { d with declaring := none } := List.getElem?_concat_length

theorem keeps_addType (m : Image) (d : TypeDef) : m.Keeps (m.addType d) :=
  fun _ e node => ⟨e, (get?_addType_old d (lt_of_get? node)).trans node, rfl, rfl, rfl⟩

theorem chain_addType (m : Image) (d : TypeDef) :
    (m.addType d).Chain m.size [m.size] (Name.qualify d.space d.name) :=
  .top (d := { d with declaring := none }) (get?_addType_new m d) rfl

/-- The name under which a top-level node is entered, unless it is taken. -/
theorem find?_addType (m : Image) (d : TypeDef) (name : String) : (m.addType d).find? name =
    if name = Name.qualify d.space d.name
    then some ((m.find? (Name.qualify d.space d.name)).getD m.size)
    else m.find? name := by
  have top : { m with types := m.types ++ [{ d with declaring := none }] }.Chain m.types.length
      [m.types.length] (Name.qualify d.space d.name) :=
    .top (d := { d with declaring := none }) List.getElem?_concat_length rfl
  change (m.allocate { d with declaring := none }).find? name = _
  rw [allocate, find?, Table.get?_insertNew, top.fullName_eq]
  rfl

theorem Built.entered (h : m.Built) : m.Entered := by
  induction h with
  | new i => exact ⟨nofun, nofun, nofun⟩
  | @refer m h i ih =>
      have keeps := (hosts_addReference m.size m i).extends.keeps
      refine ih.kept keeps (size_addReference m i) ?_
      unfold addReference
      split <;> rfl
  | @top m h d ih =>
      exact ih.more (keeps_addType m d) (size_addType m d) (chain_addType m d) (find?_addType m d)
  | @nest m parent h d inside ih =>
      obtain ⟨l, new⟩ := ih.grounded.chain_addNestedType inside d
      exact ih.more (keeps_addNestedType m parent d) (size_addNestedType ..) new
        (find?_addNestedType ih.grounded.linked inside d)
  | edit h id space name declaring ih =>
      refine ih.kept (fun i e node => ?_) (List.length_modify ..) rfl
      rw [get?_update]
      split
      · exact ⟨_, by rw [node]; rfl, space e, name e, declaring e⟩
      · exact ⟨e, node, rfl, rfl, rfl⟩

theorem Entered.current (h : m.Entered) (valid : m.Valid) : m.Current := by
  intro id inside
  obtain ⟨i, found⟩ := Option.isSome_iff_exists.mp (h.all id inside)
  obtain ⟨there, same⟩ := h.true _ i found
  rw [found, valid.fullName_inj there inside same]

theorem Built.current (h : m.Built) (accepted : m.validate = .ok ()) : m.Current :=
  h.entered.current (validate_ok_iff.mp accepted)

theorem Entered.tabulated (h : m.Entered) (valid : m.Valid) : m.Tabulated := by
  refine fun name id => ⟨h.true name id, ?_⟩
  rintro ⟨inside, rfl⟩
  exact h.current valid id inside

theorem Tabulated.entered (h : m.Tabulated) (grounded : m.Grounded) : m.Entered where
  grounded := grounded
  all id inside := by
    rw [h.current id inside]
    rfl
  true name id found := (h name id).mp found

/-- The table of an accepted image that was built node by node. -/
theorem Built.tabulated (h : m.Built) (accepted : m.validate = .ok ()) : m.Tabulated :=
  h.entered.tabulated (validate_ok_iff.mp accepted)

end Companions.Image
