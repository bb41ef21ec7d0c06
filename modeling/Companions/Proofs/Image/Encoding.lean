import Companions.Proofs.Codec.TypeDef
import Companions.Proofs.Image.Content
/-!
Encoded images are read again exactly if they nest no deeper than a reader follows. What is read
is the content of the image.
-/
namespace Companions.Image
open Json (Encoded Faithful)
variable {m : Image}

/-- Every id that the image lists is one that can be written. -/
structure Addressed (m : Image) : Prop where
  types : ∀ d ∈ m.types, d.Addressed
  roots : ∀ id ∈ m.roots, id < UInt32.size

/-- In an accepted image every id leads to a node, and ids are numbers of 32 bits. -/
theorem Valid.addressed (valid : m.Valid) (room : m.size ≤ UInt32.size) : m.Addressed where
  types d hd := by
    obtain ⟨id, node⟩ := mem_types_iff.mp hd
    refine ⟨fun p hp => Nat.lt_of_lt_of_le (valid.linked hd hp) room, fun c hc => ?_⟩
    exact Nat.lt_of_lt_of_le ((valid.nodes id d node).inside c hc) room
  roots id hid := Nat.lt_of_lt_of_le (valid.root_lt hid) room

/-- The value that is written for an image. -/
def envelope (m : Image) : Json :=
  Json.object [("format", .text format), ("version", .nat formatVersion), ("assembly", m.toJson)]

theorem Addressed.toJson_encoded (h : m.Addressed) : Encoded m.toJson := by
  have references : Encoded (.list Identity.toJson m.references) :=
    Encoded.ofList fun i _ => i.toJson_encoded
  have types := Encoded.ofList fun d hd => TypeDef.toJson_encoded (h.types d hd)
  have roots := Encoded.ofList fun id hid => TypeDef.encoded_id (h.roots id hid)
  exact Encoded.ofObject (by simp [m.identity.toJson_encoded, references, types, roots])

theorem Addressed.envelope_encoded (h : m.Addressed) : Encoded m.envelope := by
  have version : Encoded (.nat formatVersion) := Encoded.ofNat (by decide)
  exact Encoded.ofObject (by simp [Encoded.ofText, version, h.toJson_encoded])

/-! ## Nesting -/

theorem depth_toJson_le_iff {n : Nat} :
    m.toJson.depth ≤ n + 4 ↔ ∀ d ∈ m.types, d.toJson.depth ≤ n + 2 := by
  have identity : m.identity.toJson.depth ≤ n + 3 :=
    Nat.le_trans m.identity.depth_toJson_le (by omega)
  have references : (Json.list Identity.toJson m.references).depth ≤ n + 3 :=
    Json.depth_list_le_iff.mpr ⟨by omega, fun i _ => by
      have := i.depth_toJson_le
      omega⟩
  have roots : (Json.list .nat m.roots).depth ≤ n + 3 :=
    Json.depth_list_le_iff.mpr ⟨by omega, by simp⟩
  rw [toJson, Json.depth_object_succ_le_iff]
  simp [identity, references, roots, Json.depth_list_succ_le_iff]

theorem depth_envelope_le_iff {n : Nat} :
    m.envelope.depth ≤ n + 5 ↔ ∀ d ∈ m.types, d.toJson.depth ≤ n + 2 := by
  rw [envelope, Json.depth_object_succ_le_iff, ← depth_toJson_le_iff]
  simp

/-! ## Reading what was written -/

theorem Addressed.ofJson?_toJson (h : m.Addressed) {n : Nat}
    (hn : ∀ d ∈ m.types, d.toJson.depth ≤ n + 2) :
    ofJson? (n + 4) m.toJson = some m.content := by
  have identity := m.identity.ofJson?_toJson (n := n + 3)
    (Nat.le_trans m.identity.depth_toJson_le (by omega))
  have references : Json.asList? Identity.ofJson? (n + 3) (.list Identity.toJson m.references) =
      some m.references :=
    Json.asList?_list fun i _ => i.ofJson?_toJson (Nat.le_trans i.depth_toJson_le (by omega))
  have types : Json.asList? TypeDef.ofJson? (n + 3) (.list TypeDef.toJson m.types) =
      some (m.types.map TypeDef.unplaced) := by
    have same : Json.list TypeDef.toJson m.types =
        Json.list TypeDef.toJson (m.types.map TypeDef.unplaced) := by
      simp [Json.list, Function.comp_def]
    rw [same]
    refine Json.asList?_list fun d hd => ?_
    obtain ⟨e, he, rfl⟩ := List.mem_map.mp hd
    exact TypeDef.ofJson?_toJson (h.types e he) (hn e he)
  have roots : Json.asList? (fun _ => TypeDef.idOfJson?) (n + 3) (.list .nat m.roots) =
      some m.roots :=
    Json.asList?_list fun id hid => Json.asNat?_nat (h.roots id hid)
  rw [ofJson?]
  simp [toJson, Json.record?_object, identity, references, types, roots, content]

theorem Addressed.envelope?_envelope (h : m.Addressed) {n : Nat}
    (hn : m.envelope.depth ≤ n + 5) :
    envelope? (n + 5) m.envelope = some (format, formatVersion, m.content) := by
  have version : Json.asNat? UInt32.size (.nat formatVersion) = some formatVersion :=
    Json.asNat?_nat (by decide)
  have assembly := h.ofJson?_toJson (depth_envelope_le_iff.mp hn)
  rw [envelope?]
  simp -implicitDefEqProofs [envelope, Json.record?_object, version, assembly]

theorem depth_of_envelope? {n : Nat} {found : String × Nat × Image}
    (h : envelope? (n + 5) m.envelope = some found) : m.envelope.depth ≤ n + 5 := by
  simp [envelope?, envelope, ofJson?, toJson, Json.record?_object, Option.bind_eq_some_iff] at h
  obtain ⟨version, -, identity, references, types, roots, ⟨-, -, htypes, -⟩, -⟩ := h
  refine depth_envelope_le_iff.mpr fun d hd => ?_
  obtain ⟨e, he⟩ := Json.mapM_map_mem htypes hd
  exact TypeDef.fits_of_ofJson? he

/-- The nodes of an image that is decoded nest no deeper when they are written. -/
theorem nests_of_envelope? {j : Json} {format : String} {version n : Nat}
    (h : envelope? (n + 5) j = some (format, version, m)) :
    ∀ d ∈ m.types, d.toJson.depth ≤ n + 2 := by
  obtain ⟨fields, -, h⟩ := Option.bind_eq_some_iff.mp h
  split at h
  · obtain ⟨format', -, h⟩ := Option.bind_eq_some_iff.mp h
    obtain ⟨version', -, h⟩ := Option.bind_eq_some_iff.mp h
    obtain ⟨decoded, assembly, h⟩ := Option.bind_eq_some_iff.mp h
    cases h
    obtain ⟨j, -, decodes⟩ := Option.bind_eq_some_iff.mp assembly
    obtain ⟨fields, -, h⟩ := Option.bind_eq_some_iff.mp decodes
    split at h
    · obtain ⟨identity, -, h⟩ := Option.bind_eq_some_iff.mp h
      obtain ⟨references, -, h⟩ := Option.bind_eq_some_iff.mp h
      obtain ⟨types, found, h⟩ := Option.bind_eq_some_iff.mp h
      obtain ⟨roots, -, h⟩ := Option.bind_eq_some_iff.mp h
      cases h
      intro d hd
      obtain ⟨k, j', levels, node⟩ := Json.optional_list_mem found hd
      obtain rfl : n + 2 = k := Nat.succ.inj levels
      exact TypeDef.nests_of_ofJson? (Nat.succ_pos n) node
    · cases h
  · cases h

/-! ## Bytes -/

theorem Addressed.read?_encode (h : m.Addressed) :
    Json.read? m.encode.image = some m.envelope :=
  Json.read?_write h.envelope_encoded

theorem read?_symbols (s : Symbols) :
    (Json.read? (Json.write s.toJson)).bind (Symbols.ofJson? Json.maxNesting) = some s := by
  rw [Json.read?_write s.toJson_encoded, Option.bind_some]
  exact s.ofJson?_toJson (Nat.le_trans s.depth_toJson_le (by decide))

end Companions.Image
