import Companions.Proofs.Table
import Companions.Proofs.Image.Edit
import Companions.Proofs.Image.Encoding
import Companions.Proofs.Image.Traversal
/-!
Reading a written image. The symbols come back to the nodes whose full names they bear, and what is
read is written the same again.
-/
namespace Companions

/-- The node, declared at that place. -/
def TypeDef.placed (place : Option SourceLocation) (d : TypeDef) : TypeDef :=
  { d with source := place }

namespace Image
variable {m : Image}

/-! ## Names -/

theorem find?_rebuildLookup (names : ((List.range m.types.length).map m.fullName).Nodup)
    {id : TypeId} (h : id < m.types.length) :
    m.rebuildLookup.find? (m.fullName id) = some id := by
  have inside := List.mem_range.mpr h
  rw [rebuildLookup, find?, Table.get?_foldl_insertNew]
  change (List.range m.types.length).find? (fun i => m.fullName i = m.fullName id) = some id
  cases found : (List.range m.types.length).find? (fun i => m.fullName i = m.fullName id) with
  | none =>
      have other := List.find?_eq_none.mp found id inside
      simp at other
  | some i =>
      have same : m.fullName i = m.fullName id := by simpa using List.find?_some found
      rw [List.inj_on_of_nodup_map names (List.mem_of_find?_eq_some found) inside same]

/-! ## Symbols -/

/-- Where the node was declared, if that is known. -/
def source? (m : Image) (id : TypeId) : Option SourceLocation := (m.get? id).bind (·.source)

theorem entries_symbols (m : Image) :
    m.symbols.entries = m.typeIds.map fun id => ⟨m.fullName id, m.source? id⟩ := by
  have each : ∀ id ∈ m.typeIds,
      ((m.get? id).map fun d => (⟨m.fullName id, d.source⟩ : SymbolEntry)) =
        some ⟨m.fullName id, m.source? id⟩ := by
    intro id hid
    obtain ⟨d, node⟩ := exists_get? (lt_of_mem_typeIds hid)
    rw [source?, node]
    rfl
  exact (List.filterMap_congr each).trans (congrFun List.filterMap_eq_map _)

theorem applySymbols_cons {a : String} {e : SymbolEntry} {es : List SymbolEntry} {id : TypeId}
    (found : m.find? e.typeName = some id) : m.applySymbols ⟨a, e :: es⟩ =
      (m.update id (.placed e.location)).applySymbols ⟨a, es⟩ := by
  rw [applySymbols, applySymbols, List.foldl_cons, found]
  rfl

theorem applySymbols_cons_none {a : String} {e : SymbolEntry} {es : List SymbolEntry}
    (missing : m.find? e.typeName = none) :
    m.applySymbols ⟨a, e :: es⟩ = m.applySymbols ⟨a, es⟩ := by
  rw [applySymbols, applySymbols, List.foldl_cons, missing]

theorem get?_applySymbols (a : String) {name : TypeId → String}
    (place : TypeId → Option SourceLocation) {ids : List TypeId}
    (known : ∀ id ∈ ids, m.find? (name id) = some id) (i : TypeId) :
    (m.applySymbols ⟨a, ids.map fun id => ⟨name id, place id⟩⟩).get? i =
      if i ∈ ids then (m.get? i).map (.placed (place i)) else m.get? i := by
  induction ids generalizing m with
  | nil => rfl
  | cons id ids ih =>
      obtain ⟨here, known⟩ := List.forall_mem_cons.mp known
      rw [List.map_cons, applySymbols_cons here, ih (m := m.update id _) known, get?_update]
      by_cases same : id = i
      · subst same
        rw [if_pos rfl, if_pos List.mem_cons_self]
        split
        · rw [Option.map_map]
          rfl
        · rfl
      · have other : i ∈ id :: ids ↔ i ∈ ids :=
          List.mem_cons.trans (or_iff_right (Ne.symm same))
        simp only [if_neg same, other]

@[simp] theorem content_applySymbols (m : Image) (s : Symbols) :
    (m.applySymbols s).content = m.content := by
  obtain ⟨a, es⟩ := s
  induction es generalizing m with
  | nil => rfl
  | cons e es ih =>
      cases found : m.find? e.typeName with
      | none => rw [applySymbols_cons_none found, ih]
      | some id =>
          rw [applySymbols_cons found, ih]
          simp only [content, update, Image.mk.injEq, true_and, and_true]
          refine List.ext_getElem? fun i => ?_
          rw [List.getElem?_map, List.getElem?_map, List.getElem?_modify]
          split
          · cases m.types[i]? <;> rfl
          · simp

/-! ## Reading and writing -/

theorem write_ok_iff {b : ImageBytes} : m.write = .ok b ↔ m.Valid ∧ m.encode = b := by
  rw [write, bind_ok_iff, validate_ok_iff]
  exact and_congr_right fun _ => Iff.of_eq (Except.ok.injEq ..)

/-- What is read was decoded and accepted with a new table of names, and perhaps given symbols. -/
theorem read_eq_ok {image : Bytes} {symbols : Option Bytes} (h : read image symbols = .ok m) :
    ∃ j format version decoded, envelope? Json.maxNesting j = some (format, version, decoded) ∧
      decoded.rebuildLookup.Valid ∧
      (m = decoded.rebuildLookup ∨ ∃ s, m = decoded.rebuildLookup.applySymbols s) := by
  rw [read] at h
  split at h
  · cases h
  · next format version decoded found =>
      obtain ⟨j, -, hj⟩ := Option.bind_eq_some_iff.mp found
      split at h
      · cases h
      · obtain ⟨accepted, h⟩ := bind_ok_iff.mp h
        refine ⟨j, format, version, decoded, hj, validate_ok_iff.mp accepted, ?_⟩
        split at h
        · cases h
          exact .inl rfl
        · split at h
          · cases h
          · next s _ =>
              cases h
              exact .inr ⟨s, rfl⟩

/-- What is read is valid, and up to places it is what the bytes decode to. -/
theorem content_of_read {image : Bytes} {symbols : Option Bytes} (h : read image symbols = .ok m) :
    m.Valid ∧ ∃ j format version decoded,
      envelope? Json.maxNesting j = some (format, version, decoded) ∧
      m.content = decoded.content := by
  obtain ⟨j, format, version, decoded, found, valid, rfl | ⟨s, rfl⟩⟩ := read_eq_ok h
  · exact ⟨valid, j, format, version, decoded, found, rfl⟩
  · exact ⟨valid_of_content (content_applySymbols _ s) valid, j, format, version, decoded, found,
      content_applySymbols _ s⟩

theorem valid_of_read {image : Bytes} {symbols : Option Bytes} (h : read image symbols = .ok m) :
    m.Valid :=
  (content_of_read h).1

/-! ## Reading what was written -/

/-- What is read from the encoding of an image with symbols `s`. -/
def reread (m : Image) (s : Symbols) : Image := m.content.rebuildLookup.applySymbols s

@[simp] theorem content_reread (m : Image) (s : Symbols) : (m.reread s).content = m.content := by
  simp [reread]

/-- An accepted image is read from its encoding exactly if that nests no deeper than allowed. -/
theorem read_encode (valid : m.Valid) (addressed : m.Addressed) (s : Symbols) :
    read m.encode.image (some (Json.write s.toJson)) =
      if m.envelope.depth ≤ Json.maxNesting then .ok (m.reread s) else .error .decode := by
  rw [read, addressed.read?_encode, Option.bind_some]
  by_cases shallow : m.envelope.depth ≤ Json.maxNesting
  · have found : envelope? Json.maxNesting m.envelope = some (format, formatVersion, m.content) :=
      addressed.envelope?_envelope (n := 122) shallow
    have rebuilt : m.content.rebuildLookup.content = m.content := by simp
    have accepted := validate_ok_iff.mpr (valid_of_content rebuilt valid)
    rw [if_pos shallow, found]
    simp only [ne_eq, not_true_eq_false, gt_iff_lt, Nat.lt_irrefl, or_self, if_false, accepted]
    simp only [read?_symbols]
    rfl
  · have missing : envelope? Json.maxNesting m.envelope = none :=
      Option.eq_none_iff_forall_ne_some.mpr fun f found =>
        shallow (depth_of_envelope? (n := 122) found)
    rw [if_neg shallow, missing]

/-- Without symbols it is read with every node at no place. -/
theorem read_encode_bare (valid : m.Valid) (addressed : m.Addressed)
    (shallow : m.envelope.depth ≤ Json.maxNesting) :
    read m.encode.image none = .ok m.content.rebuildLookup := by
  have found : envelope? Json.maxNesting m.envelope = some (format, formatVersion, m.content) :=
    addressed.envelope?_envelope (n := 122) shallow
  have rebuilt : m.content.rebuildLookup.content = m.content := by simp
  have accepted := validate_ok_iff.mpr (valid_of_content rebuilt valid)
  rw [read, addressed.read?_encode, Option.bind_some, found]
  simp only [ne_eq, not_true_eq_false, gt_iff_lt, Nat.lt_irrefl, or_self, if_false, accepted]
  rfl

/-- Symbols are no image. -/
theorem read_symbols (s : Symbols) (symbols : Option Bytes) :
    read (Json.write s.toJson) symbols = .error .decode := by
  have missing : envelope? Json.maxNesting s.toJson = none := by
    simp [envelope?, Json.maxNesting, Symbols.toJson, Json.record?, Json.object, Json.collect,
      Json.required, List.lookup_cons]
  rw [read, Json.read?_write s.toJson_encoded, Option.bind_some, missing]

theorem read_encode_iff (valid : m.Valid) (addressed : m.Addressed) :
    (∃ m', read m.encode.image (some m.encode.symbols) = .ok m') ↔
      ∀ d ∈ m.types, d.toJson.depth ≤ Json.maxNesting - 3 := by
  have nodes : m.envelope.depth ≤ Json.maxNesting ↔
      ∀ d ∈ m.types, d.toJson.depth ≤ Json.maxNesting - 3 := depth_envelope_le_iff (n := 122)
  have outcome := read_encode valid addressed m.symbols
  change read m.encode.image (some m.encode.symbols) = _ at outcome
  rw [← nodes, outcome]
  split
  · next shallow => exact iff_of_true ⟨_, rfl⟩ shallow
  · next deep => exact iff_of_false nofun deep

/-- A node that was read nests no deeper than one that is read again. -/
theorem nests_of_read {image : Bytes} {symbols : Option Bytes} (h : read image symbols = .ok m) :
    ∀ d ∈ m.types, d.toJson.depth ≤ Json.maxNesting - 3 := by
  obtain ⟨-, j, format, version, decoded, found, same⟩ := content_of_read h
  intro d hd
  have known : d.unplaced ∈ decoded.content.types := by
    rw [← same]
    exact List.mem_map_of_mem hd
  obtain ⟨e, he, eq⟩ := List.mem_map.mp known
  rw [← TypeDef.toJson_unplaced, ← eq, TypeDef.toJson_unplaced]
  exact nests_of_envelope? (n := 122) found e he

/-! ## Writing what was read -/

theorem get?_reread (valid : m.Valid) {id : TypeId} (listed : id ∈ m.typeIds) :
    (m.reread m.symbols).get? id = m.get? id := by
  have names : ((List.range m.content.types.length).map m.content.fullName).Nodup := by
    rw [length_content, fullName_content]
    exact valid.names
  have known : ∀ i ∈ m.typeIds, m.content.rebuildLookup.find? (m.fullName i) = some i := by
    intro i hi
    have inside : i < m.content.types.length := by
      rw [length_content]
      exact lt_of_mem_typeIds hi
    have found := find?_rebuildLookup names inside
    rwa [fullName_content] at found
  obtain ⟨d, node⟩ := exists_get? (lt_of_mem_typeIds listed)
  have placed := get?_applySymbols m.symbols.assembly m.source? known id
  rw [← entries_symbols, if_pos listed] at placed
  have bare : m.content.rebuildLookup.get? id = some d.unplaced := by
    change m.content.get? id = _
    rw [get?_content, node]
    rfl
  have place : m.source? id = d.source := by
    rw [source?, node]
    rfl
  rw [reread, placed, bare, place, node]
  rfl

theorem types_reread (valid : m.Valid) (listed : ∀ id < m.size, id ∈ m.typeIds) :
    (m.reread m.symbols).types = m.types := by
  refine List.ext_getElem? fun id => ?_
  by_cases inside : id < m.size
  · exact get?_reread valid (listed id inside)
  · have same := get?_of_content (m.content_reread m.symbols) id
    have missing : m.get? id = none := List.getElem?_eq_none (Nat.le_of_not_lt inside)
    rw [missing] at same
    exact (Option.map_eq_none_iff.mp same).trans missing.symm

theorem symbols_reread (valid : m.Valid) : (m.reread m.symbols).symbols = m.symbols := by
  have same := m.content_reread m.symbols
  have assembly : (m.reread m.symbols).symbols.assembly = m.symbols.assembly :=
    congrArg Identity.display (identity_of_content same)
  have entries : (m.reread m.symbols).symbols.entries = m.symbols.entries := by
    rw [entries_symbols, entries_symbols, typeIds_of_content same, fullName_of_content same]
    refine List.map_congr_left fun id hid => ?_
    rw [source?, source?, get?_reread valid hid]
  exact congrArg₂ Symbols.mk assembly entries

theorem encode_reread (valid : m.Valid) : (m.reread m.symbols).encode = m.encode := by
  have image : (m.reread m.symbols).envelope = m.envelope := by
    rw [envelope, envelope, toJson_of_content (m.content_reread m.symbols)]
  rw [encode, encode, symbols_reread valid]
  exact congrArg (fun j => ImageBytes.mk (Json.write j) _) image

/-- Reading undoes writing. An accepted image that nests no deeper than a reader follows is written;
what is read from the bytes has the same nodes in the same order, every listed node at the place
where it was declared, and is written to the same bytes. Ids are numbers of 32 bits. -/
theorem read_write_stable (addressed : m.Addressed) (accepted : m.validate = .ok ())
    (shallow : m.envelope.depth ≤ Json.maxNesting) :
    ∃ b m', m.write = .ok b ∧ b.image = Json.write m.envelope ∧
      read b.image (some b.symbols) = .ok m' ∧
      m'.identity = m.identity ∧ m'.references = m.references ∧ m'.roots = m.roots ∧
      (∀ id, (m'.get? id).map TypeDef.unplaced = (m.get? id).map TypeDef.unplaced) ∧
      (∀ id ∈ m.typeIds, m'.get? id = m.get? id) ∧ m'.write = .ok b := by
  have valid := validate_ok_iff.mp accepted
  have same := m.content_reread m.symbols
  refine ⟨m.encode, m.reread m.symbols, ?_, rfl, ?_, identity_of_content same,
    references_of_content same, roots_of_content same, get?_of_content same,
    fun id hid => get?_reread valid hid, ?_⟩
  · exact write_ok_iff.mpr ⟨valid, rfl⟩
  · have found := read_encode valid addressed m.symbols
    rwa [if_pos shallow] at found
  · exact write_ok_iff.mpr ⟨valid_of_content same valid, encode_reread valid⟩

/-- A node with a companion, a flag that has no name, and a path that has to be escaped. -/
def placedGame : Image := rebuildLookup {
  identity := { name := "Game", version := ⟨1, 2, 3, 4⟩ }
  references := [{ name := "Ecs.Authoring" }]
  types := [
    { space := "Game", name := "Health", kind := .structType, flags := ⟨0x102001⟩, nested := [1],
      fields := [.ofPublic "Points" (.array (.named "System" "System.Int32"))],
      source := some ⟨"Assets\\Ärzte \"1\".cs", 12⟩ },
    { name := "HealthBaker", kind := .classType, flags := .nestedPublic, declaring := some 0,
      base := some (.generic (.named "Ecs.Authoring" "Ecs.Authoring.GenericBaker`1")
        [.named "Game" "Game.Health"]),
      methods := [.callingBase ⟨.named "Ecs.Authoring" "Ecs.Authoring.GenericBaker`1", ".ctor", [],
        .named "System" "System.Void"⟩ (.named "System" "System.Void")] }]
  roots := [0] }

theorem placedGame_addressed : placedGame.Addressed := by
  refine ⟨fun d hd => ?_, by decide⟩
  rcases List.mem_cons.mp hd with rfl | hd
  · exact ⟨nofun, by decide⟩
  · obtain rfl := List.mem_singleton.mp hd
    exact ⟨by decide, nofun⟩

theorem placedGame_stable :
    ∃ b m', placedGame.write = .ok b ∧ read b.image (some b.symbols) = .ok m' ∧
      m'.get? 0 = placedGame.get? 0 ∧ m'.get? 1 = placedGame.get? 1 ∧ m'.write = .ok b := by
  obtain ⟨b, m', written, -, found, -, -, -, -, listed, again⟩ :=
    read_write_stable placedGame_addressed (by rfl) (by decide +kernel)
  exact ⟨b, m', written, found, listed 0 (by decide +kernel), listed 1 (by decide +kernel), again⟩

end Image
end Companions
