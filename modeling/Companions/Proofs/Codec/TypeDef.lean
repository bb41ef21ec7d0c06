import Companions.Codec.TypeDef
import Companions.Proofs.Codec.Member
/-!
Identities, symbols and type nodes as JSON. A node is read as it was written but for its source
location, which the symbols carry.
-/
namespace Companions
open Json (Encoded Faithful)

namespace Identity

theorem toJson_encoded (i : Identity) : Encoded i.toJson := by
  have parts : Encoded (.list (fun p : UInt16 => .nat p.toNat) i.version.parts) :=
    Encoded.ofList fun p _ => Encoded.ofNat (Nat.lt_trans p.toNat_lt_size (by decide))
  exact Encoded.ofObject (by simp [Encoded.ofText, parts])

theorem depth_toJson_le (i : Identity) : i.toJson.depth ≤ 2 := by
  simp [toJson, Json.depth_object_succ_le_iff, Json.depth_list_succ_le_iff]

theorem versionOfJson?_list (v : Version) (n : Nat) :
    versionOfJson? (n + 1) (.list (fun p => .nat p.toNat) v.parts) = some v := by
  have read : Json.asList? (fun _ => Json.asNat? UInt16.size) (n + 1)
      (.list Json.nat (v.parts.map UInt16.toNat)) = some (v.parts.map UInt16.toNat) := by
    refine Json.asList?_list fun p hp => ?_
    obtain ⟨q, -, rfl⟩ := List.mem_map.mp hp
    exact Json.asNat?_nat q.toNat_lt_size
  have parts : Json.list (fun p => .nat p.toNat) v.parts =
      Json.list Json.nat (v.parts.map UInt16.toNat) := by
    simp [Json.list]
  rw [versionOfJson?, parts, read]
  simp -implicitDefEqProofs [Version.parts]

theorem ofJson?_toJson (i : Identity) {n : Nat} (h : i.toJson.depth ≤ n) :
    ofJson? n i.toJson = some i := by
  obtain ⟨n, rfl, parts⟩ := Json.levels_of_object h
  have list := parts ("version", .list (fun p => .nat p.toNat) i.version.parts) (by simp)
  obtain ⟨n, rfl⟩ : ∃ k, n = k + 1 := ⟨n - 1, by have := Json.depth_list_le_iff.mp list; omega⟩
  rw [ofJson?]
  simp -implicitDefEqProofs [toJson, Json.record?_object, versionOfJson?_list]

end Identity

theorem SourceLocation.faithful : Faithful SourceLocation.toJson SourceLocation.ofJson? where
  encoded l := Encoded.ofObject (by
    simp [Encoded.ofText, Encoded.ofNat (Nat.lt_trans l.line.toNat_lt_size (by decide))])
  back {l n} h := by
    obtain ⟨n, rfl, -⟩ := Json.levels_of_object h
    have line : Json.asNat? UInt32.size (.nat l.line.toNat) = some l.line.toNat :=
      Json.asNat?_nat l.line.toNat_lt_size
    rw [ofJson?]
    simp -implicitDefEqProofs [toJson, Json.record?_object, line]
  fits {l k n} h := by
    cases n with
    | zero => cases h
    | succ n => simp [toJson, Json.depth_object_succ_le_iff]
  nests {j l n} h := by
    cases n with
    | zero => cases h
    | succ n => simp [toJson, Json.depth_object_succ_le_iff]

def SymbolEntry.record : Json.Record toJson ofJson? where
  members := [.required "typeName" typeName .ofText,
    .optional "location" location none (SourceLocation.faithful.nullable nofun)]
  succ _ _ := rfl
  reads n fields e := by
    rcases fields with _ | ⟨typeName, _ | ⟨location, _ | _⟩⟩
    all_goals cases e; simp [Option.bind_eq_some_iff]
  room _ := ⟨_, .head _, rfl, by simp [Json.nullable, Json.depth]⟩

theorem SymbolEntry.faithful : Faithful SymbolEntry.toJson SymbolEntry.ofJson? := record.faithful

namespace Symbols

theorem toJson_encoded (s : Symbols) : Encoded s.toJson :=
  Encoded.ofObject (by simp [Encoded.ofText, SymbolEntry.faithful.list.encoded])

theorem depth_toJson_le (s : Symbols) : s.toJson.depth ≤ 4 := by
  simp [toJson, SymbolEntry.toJson, SourceLocation.toJson, Json.depth_object_succ_le_iff,
    Json.depth_list_succ_le_iff, Json.depth_nullable_le_iff]

theorem ofJson?_toJson (s : Symbols) {n : Nat} (h : s.toJson.depth ≤ n) :
    ofJson? n s.toJson = some s := by
  obtain ⟨n, rfl, parts⟩ := Json.levels_of_object h
  have entries := SymbolEntry.faithful.list.back
    (parts ("entries", .list SymbolEntry.toJson s.entries) (by simp))
  rw [ofJson?]
  simp [toJson, Json.record?_object, entries]

end Symbols

theorem TypeKind.faithful : Faithful TypeKind.toJson TypeKind.ofJson? where
  encoded k := Encoded.ofText k.name
  back {k n} _ := by
    have name : (Json.text k.name).asVariant? n = some k.name := Json.decode?_encode k.name
    rw [ofJson?, toJson, name]
    cases k <;> rfl
  fits _ := Nat.zero_le _
  nests _ := Nat.zero_le _

namespace TypeDef

/-- Every id in the node is one that can be written. -/
structure Addressed (d : TypeDef) : Prop where
  declaring : ∀ p ∈ d.declaring, p < UInt32.size
  nested : ∀ c ∈ d.nested, c < UInt32.size

theorem encoded_id {id : TypeId} (h : id < UInt32.size) : Encoded (.nat id) :=
  Encoded.ofNat (Nat.lt_trans h (by decide))

theorem toJson_encoded {d : TypeDef} (h : d.Addressed) : Encoded d.toJson := by
  have base := Encoded.ofNullable (a := d.base) fun t _ => t.toJson_encoded
  have interfaces := (TypeRef.faithful false).list.encoded d.interfaces
  have params := Faithful.ofText.list.encoded d.genericParams
  have declaring := Encoded.ofNullable fun p hp => encoded_id (h.declaring p hp)
  have nested := Encoded.ofList fun c hc => encoded_id (h.nested c hc)
  have fields := Field.faithful.list.encoded d.fields
  have methods := Method.faithful.list.encoded d.methods
  have attributes := CustomAttribute.faithful.list.encoded d.attributes
  exact Encoded.ofObject (by
    simp [Encoded.ofText, TypeKind.faithful.encoded, base, interfaces, params, declaring, nested,
      fields, methods, attributes])

theorem ofJson?_toJson {d : TypeDef} (h : d.Addressed) {n : Nat} (hn : d.toJson.depth ≤ n) :
    ofJson? n d.toJson = some { d with source := none } := by
  obtain ⟨n, rfl, parts⟩ := Json.levels_of_object hn
  have kind := TypeKind.faithful.back (parts ("kind", d.kind.toJson) (by simp))
  have base := ((TypeRef.faithful false).nullable TypeRef.toJson_ne_null).back
    (parts ("base", .nullable TypeRef.toJson d.base) (by simp))
  have interfaces := (TypeRef.faithful false).list.back
    (parts ("interfaces", .list TypeRef.toJson d.interfaces) (by simp))
  have params := Faithful.ofText.list.back
    (parts ("genericParams", .list .text d.genericParams) (by simp))
  have declaring : Json.asNullable? idOfJson? (.nullable .nat d.declaring) = some d.declaring :=
    Json.asNullable?_nullable nofun fun p hp => Json.asNat?_nat (h.declaring p hp)
  have list := parts ("nested", .list .nat d.nested) (by simp)
  obtain ⟨k, rfl⟩ : ∃ k, n = k + 1 := ⟨n - 1, by have := Json.depth_list_le_iff.mp list; omega⟩
  have nested : Json.asList? (fun _ => idOfJson?) (k + 1) (.list .nat d.nested) = some d.nested :=
    Json.asList?_list fun c hc => Json.asNat?_nat (h.nested c hc)
  have fields := Field.faithful.list.back (parts ("fields", .list Field.toJson d.fields) (by simp))
  have methods := Method.faithful.list.back
    (parts ("methods", .list Method.toJson d.methods) (by simp))
  have attributes := CustomAttribute.faithful.list.back
    (parts ("customAttributes", .list CustomAttribute.toJson d.attributes) (by simp))
  rw [ofJson?]
  simp [toJson, Json.record?_object, kind, base, interfaces, params, declaring, nested, fields,
    methods, attributes]

/-- A node that is read has its parts read from the values of its fields. -/
theorem parts_of_ofJson? {j : Json} {d : TypeDef} {n : Nat} (h : ofJson? (n + 1) j = some d) :
    ∃ space name kind flags base interfaces genericParams declaring nested fields methods
        attributes,
      j.record? ["namespace", "name", "kind", "attributes", "base", "interfaces", "genericParams",
        "declaring", "nested", "fields", "methods", "customAttributes"] =
        some [space, name, kind, flags, base, interfaces, genericParams, declaring, nested, fields,
          methods, attributes] ∧
      Json.optional none (Json.asNullable? (TypeRef.ofJson? false n)) base = some d.base ∧
      Json.optional [] (Json.asList? (TypeRef.ofJson? false) n) interfaces = some d.interfaces ∧
      Json.optional [] (Json.asList? (fun _ => Json.asText?) n) genericParams =
        some d.genericParams ∧
      Json.optional [] (Json.asList? Field.ofJson? n) fields = some d.fields ∧
      Json.optional [] (Json.asList? Method.ofJson? n) methods = some d.methods ∧
      Json.optional [] (Json.asList? CustomAttribute.ofJson? n) attributes = some d.attributes := by
  obtain ⟨values, record, h⟩ := Option.bind_eq_some_iff.mp h
  split at h
  · obtain ⟨space, -, h⟩ := Option.bind_eq_some_iff.mp h
    obtain ⟨name, -, h⟩ := Option.bind_eq_some_iff.mp h
    obtain ⟨kind, -, h⟩ := Option.bind_eq_some_iff.mp h
    obtain ⟨flags, -, h⟩ := Option.bind_eq_some_iff.mp h
    obtain ⟨base, hbase, h⟩ := Option.bind_eq_some_iff.mp h
    obtain ⟨interfaces, hinterfaces, h⟩ := Option.bind_eq_some_iff.mp h
    obtain ⟨params, hparams, h⟩ := Option.bind_eq_some_iff.mp h
    obtain ⟨declaring, -, h⟩ := Option.bind_eq_some_iff.mp h
    obtain ⟨nested, -, h⟩ := Option.bind_eq_some_iff.mp h
    obtain ⟨fields, hfields, h⟩ := Option.bind_eq_some_iff.mp h
    obtain ⟨methods, hmethods, h⟩ := Option.bind_eq_some_iff.mp h
    obtain ⟨attributes, hattributes, h⟩ := Option.bind_eq_some_iff.mp h
    cases h
    exact ⟨_, _, _, _, _, _, _, _, _, _, _, _, record, hbase, hinterfaces, hparams, hfields,
      hmethods, hattributes⟩
  · cases h

theorem depth_toJson_le {d : TypeDef} {n : Nat} (room : 0 < n)
    (base : (Json.nullable TypeRef.toJson d.base).depth ≤ n)
    (interfaces : (Json.list TypeRef.toJson d.interfaces).depth ≤ n)
    (fields : (Json.list Field.toJson d.fields).depth ≤ n)
    (methods : (Json.list Method.toJson d.methods).depth ≤ n)
    (attributes : (Json.list CustomAttribute.toJson d.attributes).depth ≤ n) :
    d.toJson.depth ≤ n + 1 := by
  have params : (Json.list .text d.genericParams).depth ≤ n :=
    Json.depth_list_le_iff.mpr ⟨room, fun p _ => room⟩
  have declaring : (Json.nullable .nat d.declaring).depth ≤ n :=
    Json.depth_nullable_le_iff.mpr fun p _ => Nat.zero_le n
  have nested : (Json.list .nat d.nested).depth ≤ n :=
    Json.depth_list_le_iff.mpr ⟨room, fun c _ => room⟩
  rw [toJson, Json.depth_object_succ_le_iff]
  simp [TypeKind.toJson, base, interfaces, params, declaring, nested, fields, methods, attributes]

theorem fits_of_ofJson? {d e : TypeDef} {n : Nat} (h : ofJson? n d.toJson = some e) :
    d.toJson.depth ≤ n := by
  cases n with
  | zero => cases h
  | succ n =>
      obtain ⟨_, _, _, _, _, _, _, _, _, _, _, _, record, base, interfaces, params, fields, methods,
        attributes⟩ := parts_of_ofJson? h
      rw [toJson, Json.record?_object] at record
      · simp only [List.map_cons, Option.some.injEq, List.cons.injEq] at record
        obtain ⟨-, -, -, -, rfl, rfl, rfl, -, -, rfl, rfl, rfl, -⟩ := record
        have room := (Json.depth_list_le_iff.mp (Faithful.ofText.list.fits params)).1
        exact depth_toJson_le room
          (((TypeRef.faithful false).nullable TypeRef.toJson_ne_null).fits base)
          ((TypeRef.faithful false).list.fits interfaces) (Field.faithful.list.fits fields)
          (Method.faithful.list.fits methods) (CustomAttribute.faithful.list.fits attributes)
      · rfl
      · decide

/-- A node that is read nests no deeper when it is written, if there is room for the lists that it
may leave out. -/
theorem nests_of_ofJson? {j : Json} {d : TypeDef} {n : Nat} (room : 0 < n)
    (h : ofJson? (n + 1) j = some d) : d.toJson.depth ≤ n + 1 := by
  obtain ⟨_, _, _, _, _, _, _, _, _, _, _, _, -, base, interfaces, -, fields, methods,
    attributes⟩ := parts_of_ofJson? h
  have bare : (Json.nullable TypeRef.toJson none).depth ≤ n := Nat.zero_le n
  exact depth_toJson_le room
    (((TypeRef.faithful false).nullable TypeRef.toJson_ne_null).nests_optional bare base)
    ((TypeRef.faithful false).nests_optional_list room interfaces)
    (Field.faithful.nests_optional_list room fields)
    (Method.faithful.nests_optional_list room methods)
    (CustomAttribute.faithful.nests_optional_list room attributes)

end TypeDef
end Companions
