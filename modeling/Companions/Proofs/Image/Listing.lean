import Companions.Proofs.Image.RoundTrip
import Companions.Proofs.Image.Links
import Companions.Index
/-!
Which nodes of an image that was read are seen: the walk, the index and the symbols all list the
nodes that the top level leads to. A node is hidden if nothing leads to it, as with a node that
stands at the top level without being listed there, or below a declaring chain that never ends.
-/
namespace Companions.Image
variable {m : Image}

/-- The declaring chain of the node ends at a root. -/
inductive Rooted (m : Image) : TypeId → Prop where
  | root {id : TypeId} (listed : id ∈ m.roots) : Rooted m id
  | inner {p id : TypeId} (outer : Rooted m p) (link : m.Declares p id) : Rooted m id

theorem Valid.reached_of_rooted (valid : m.Valid) {id : TypeId} (h : m.Rooted id) :
    m.Reached m.roots id := by
  induction h with
  | root listed => exact .start listed (valid.root_lt listed)
  | inner _ link ih =>
      have lists := valid.lists_of_declares link
      have node := valid.lt_of_lists lists
      obtain ⟨d, found, listed⟩ := lists
      exact .nested ih found listed node

theorem rooted_of_reached (agrees : m.Agrees) {id : TypeId} (h : m.Reached m.roots id) :
    m.Rooted id := by
  induction h with
  | start listed _ => exact .root listed
  | nested _ found listed _ ih => exact .inner ih ((agrees _ _).mp ⟨_, found, listed⟩)

/-! ## The index -/

theorem uniqueName_eq (m : Image) (id : TypeId) :
    m.uniqueName id = m.fullName id ++ "/" ++ m.name := rfl

theorem Valid.uniqueName_inj (valid : m.Valid) {i j : TypeId} (hi : i < m.size) (hj : j < m.size)
    (same : m.uniqueName i = m.uniqueName j) : i = j := by
  rw [uniqueName_eq, uniqueName_eq] at same
  apply valid.fullName_inj hi hj
  simpa using same

theorem Valid.nodup_uniqueNames (valid : m.Valid) : (m.typeIds.map m.uniqueName).Nodup := by
  apply List.Nodup.map_on _ m.nodup_typeIds
  intro i hi j hj same
  exact valid.uniqueName_inj (lt_of_mem_typeIds hi) (lt_of_mem_typeIds hj) same

theorem types_build (m : Image) : (Index.build m).types =
    m.typeIds.foldl (fun t id => t.insertNew (m.uniqueName id) id) {} := by
  have each (ids : List TypeId) (x : Index) : (ids.foldl (fun x id => x.add m id) x).types =
      ids.foldl (fun t id => t.insertNew (m.uniqueName id) id) x.types := by
    induction ids generalizing x with
    | nil => rfl
    | cons id ids ih => exact ih (x.add m id)
  exact each m.typeIds {}

theorem Valid.entries_build (valid : m.Valid) :
    (Index.build m).types.entries = m.typeIds.map fun id => (m.uniqueName id, id) := by
  rw [types_build, Table.entries_foldl_insertNew valid.nodup_uniqueNames fun _ _ => rfl]
  rfl

theorem Valid.names_build (valid : m.Valid) : (Index.build m).names = m.typeIds.map m.uniqueName := by
  rw [Index.names, Table.keys, valid.entries_build, List.map_map]
  rfl

theorem Valid.nodup_names_build (valid : m.Valid) : (Index.build m).names.Nodup := by
  rw [valid.names_build]
  exact valid.nodup_uniqueNames

/-- The index finds a listed node by its unique name, and nothing else. -/
theorem Valid.lookup?_build (valid : m.Valid) {name : String} {id : TypeId} :
    (Index.build m).lookup? name = some id ↔ id ∈ m.typeIds ∧ m.uniqueName id = name := by
  rw [Index.lookup?, Table.get?_eq_some_iff valid.nodup_names_build, valid.entries_build,
    List.mem_map]
  constructor
  · rintro ⟨i, listed, entry⟩
    cases entry
    exact ⟨listed, rfl⟩
  · rintro ⟨listed, rfl⟩
    exact ⟨id, listed, rfl⟩

theorem Valid.ids_build (valid : m.Valid) : (Index.build m).ids = m.typeIds := by
  rw [Index.ids, Table.values, valid.entries_build, List.map_map]
  exact List.map_id _

/-! ## Everything listed -/

theorem length_typeIds_eq_iff :
    m.typeIds.length = m.size ↔ ∀ id < m.size, m.Reached m.roots id := by
  have inside : m.typeIds.toFinset ⊆ Finset.range m.size := by
    intro id hid
    exact Finset.mem_range.mpr (lt_of_mem_typeIds (List.mem_toFinset.mp hid))
  have count : m.typeIds.toFinset.card = m.typeIds.length :=
    List.toFinset_card_of_nodup m.nodup_typeIds
  rw [← count]
  constructor
  · intro full id hid
    have all := Finset.eq_of_subset_of_card_le inside (by rw [Finset.card_range, full])
    rw [← mem_typeIds_iff, ← List.mem_toFinset, all]
    exact Finset.mem_range.mpr hid
  · intro reached
    have all : Finset.range m.size ⊆ m.typeIds.toFinset := by
      intro id hid
      exact List.mem_toFinset.mpr (mem_typeIds_iff.mpr (reached id (Finset.mem_range.mp hid)))
    rw [Finset.Subset.antisymm inside all, Finset.card_range]

/-- In an image that was read, the walk lists each node that the top level leads to once, and the
index and the symbols have as many rows. They are all nodes exactly if each is led to; it is enough
that every declaring chain ends at a root, and where the links agree nothing less will do. -/
theorem listing_of_read {image : Bytes} {symbols : Option Bytes} (h : read image symbols = .ok m) :
    m.typeIds.Nodup ∧ (∀ id, id ∈ m.typeIds ↔ m.Reached m.roots id) ∧
    (Index.build m).types.entries = m.typeIds.map (fun id => (m.uniqueName id, id)) ∧
    m.symbols.entries = m.typeIds.map (fun id => ⟨m.fullName id, m.source? id⟩) ∧
    (m.typeIds.length = m.size ↔ ∀ id < m.size, m.Reached m.roots id) ∧
    (∀ id, m.Rooted id → m.Reached m.roots id) ∧
    (m.Agrees → ∀ id, m.Reached m.roots id → m.Rooted id) := by
  have valid := valid_of_read h
  exact ⟨m.nodup_typeIds, fun _ => mem_typeIds_iff, valid.entries_build, m.entries_symbols,
    length_typeIds_eq_iff, fun _ => valid.reached_of_rooted,
    fun agrees _ => rooted_of_reached agrees⟩

/-- Two types without declaring type, of which the roots may name one. -/
def twoTypes (roots : List TypeId) : Image where
  identity := { name := "Game" }
  types := [
    { name := "Seen", kind := .classType, flags := .isPublic },
    { name := "Unlisted", kind := .classType, flags := .isPublic }]
  roots := roots

theorem twoTypes_read (roots : List TypeId) (accepted : (twoTypes roots).validate = .ok ()) :
    ∃ m, read (twoTypes roots).encode.image (some (twoTypes roots).encode.symbols) = .ok m ∧
      m.roots = roots ∧ m.size = 2 ∧ m.typeIds = (twoTypes roots).typeIds := by
  have valid := validate_ok_iff.mp accepted
  have addressed : (twoTypes roots).Addressed := by
    constructor
    · intro d hd
      rcases List.mem_cons.mp hd with rfl | hd
      · exact ⟨nofun, nofun⟩
      · obtain rfl := List.mem_singleton.mp hd
        exact ⟨nofun, nofun⟩
    · intro id hid
      exact Nat.lt_trans (valid.root_lt hid) (by decide : 2 < UInt32.size)
  have nodes : ∀ d ∈ (twoTypes []).types, d.toJson.depth ≤ 124 := by decide +kernel
  have shallow : (twoTypes roots).envelope.depth ≤ Json.maxNesting :=
    (depth_envelope_le_iff (n := 122)).mpr nodes
  have found := read_encode valid addressed (twoTypes roots).symbols
  rw [if_pos shallow] at found
  have same := (twoTypes roots).content_reread (twoTypes roots).symbols
  exact ⟨_, found, roots_of_content same, length_of_content same, typeIds_of_content same⟩

/-- With both types among the roots, both are listed. -/
theorem twoTypes_listed :
    ∃ m, read (twoTypes [0, 1]).encode.image (some (twoTypes [0, 1]).encode.symbols) = .ok m ∧
      m.size = 2 ∧ m.typeIds.length = m.size := by
  obtain ⟨m, found, roots, size, -⟩ := twoTypes_read [0, 1] (by rfl)
  refine ⟨m, found, size, (listing_of_read found).2.2.2.2.1.mpr fun id hid => .start ?_ hid⟩
  have both : ∀ id < 2, id ∈ [0, 1] := by decide
  rw [size] at hid
  rw [roots]
  exact both id hid

/-- A type that the roots do not name is accepted, and then neither indexed nor given symbols. -/
theorem twoTypes_hidden :
    ∃ m, read (twoTypes [0]).encode.image (some (twoTypes [0]).encode.symbols) = .ok m ∧
      m.size = 2 ∧ m.typeIds = [0] ∧ (Index.build m).size = 1 ∧ m.symbols.entries.length = 1 := by
  obtain ⟨m, found, -, size, listed⟩ := twoTypes_read [0] (by rfl)
  have only : m.typeIds = [0] := listed.trans (by rfl)
  have index := (valid_of_read found).entries_build
  refine ⟨m, found, size, only, ?_, ?_⟩
  · rw [Index.size, Table.size, index, only]
    rfl
  · rw [entries_symbols, only]
    rfl

end Companions.Image
