import Companions.Codec.Member
import Companions.Proofs.Flags
import Companions.Proofs.Json.Member
import Companions.Proofs.Codec.TypeRef
/-!
Members of types as JSON: each kind of member is read as it was written.
-/
namespace Companions
open Json (Encoded Faithful)

def Field.record : Json.Record toJson ofJson? where
  members := [.required "name" name .ofText,
    .required "attributes" flags (.ofSpelling FieldFlags.read_write),
    .required "fieldType" type (TypeRef.faithful false)]
  succ _ _ := rfl
  reads n fields f := by
    rcases fields with _ | ⟨name, _ | ⟨flags, _ | ⟨type, _ | _⟩⟩⟩
    all_goals cases f; simp [Option.bind_eq_some_iff]
  room _ := ⟨_, .head _, rfl, by simp⟩

theorem Field.faithful : Faithful Field.toJson Field.ofJson? := record.faithful

def Parameter.record : Json.Record toJson ofJson? where
  members := [.required "name" name .ofText, .required "paramType" type (TypeRef.faithful false)]
  succ _ _ := rfl
  reads n fields p := by
    rcases fields with _ | ⟨name, _ | ⟨type, _ | _⟩⟩
    all_goals cases p; simp [Option.bind_eq_some_iff]
  room _ := ⟨_, .head _, rfl, by simp⟩

theorem Parameter.faithful : Faithful Parameter.toJson Parameter.ofJson? := record.faithful

def MethodRef.record (inside : Bool) : Json.Record toJson (ofJson? inside) where
  members := [.required "declaringType" declaringType (TypeRef.faithful inside),
    .required "name" name .ofText, .required "parameters" parameters (TypeRef.faithful inside).list,
    .required "returnType" returnType (TypeRef.faithful inside)]
  succ _ _ := rfl
  reads n fields m := by
    rcases fields with _ | ⟨declaring, _ | ⟨name, _ | ⟨parameters, _ | ⟨returns, _ | _⟩⟩⟩⟩
    all_goals cases m; simp [Option.bind_eq_some_iff]
  room _ := ⟨_, .head _, rfl, by simp⟩

theorem MethodRef.faithful (inside : Bool) :
    Faithful MethodRef.toJson (MethodRef.ofJson? inside) :=
  (record inside).faithful

theorem Json.Tagged.nests_read? {α : Type} {t : Json.Tagged} {write : α → Json}
    {read : Bool → Nat → Json → Option α} {a : α} {n : Nat}
    (fit : ∀ inside, Faithful write (read inside)) (h : t.read? n read = some a) :
    (write a).depth ≤ n := by
  obtain ⟨j, -, h⟩ := Option.bind_eq_some_iff.mp h
  split at h
  · split at h
    · exact (fit true).nests h
    · cases h
  · exact (fit false).nests h

namespace Instruction

theorem bare?_eq {i k : Instruction} {content : Option Json} (h : bare? i content = some k) :
    k = i := by
  cases content with
  | none => exact (Option.some.inj h).symm
  | some j =>
      cases j with
      | null => exact (Option.some.inj h).symm
      | _ => cases h

theorem faithful : Faithful toJson ofJson? where
  encoded i := by
    cases i with
    | loadThis => exact Encoded.ofObject (by simp [Encoded.ofText])
    | call m =>
        have method := (MethodRef.faithful false).encoded m
        exact Encoded.ofObject (by simp [Encoded.ofText, method])
    | ret => exact Encoded.ofObject (by simp [Encoded.ofText])
  back {i n} h := by
    cases i with
    | loadThis =>
        obtain ⟨n, rfl, -⟩ := Json.levels_of_object h
        simp [toJson, ofJson?, Json.tagged?_bare, bare?]
    | call m =>
        obtain ⟨n, rfl, parts⟩ := Json.levels_of_object h
        have method := (MethodRef.faithful false).back (parts ("operand", m.toJson) (by simp))
        simp [toJson, ofJson?, Json.tagged?_content, Json.Tagged.read?, method]
    | ret =>
        obtain ⟨n, rfl, -⟩ := Json.levels_of_object h
        simp [toJson, ofJson?, Json.tagged?_bare, bare?]
  fits {i k n} h := by
    cases n with
    | zero => cases h
    | succ n =>
        cases i with
        | loadThis => simp [toJson, Json.depth_object_succ_le_iff]
        | call m =>
            simp [toJson, ofJson?, Json.tagged?_content, Json.Tagged.read?] at h
            obtain ⟨method, hmethod, -⟩ := h
            have method := (MethodRef.faithful false).fits hmethod
            simp [toJson, Json.depth_object_succ_le_iff, method]
        | ret => simp [toJson, Json.depth_object_succ_le_iff]
  nests {j i n} h := by
    cases n with
    | zero => cases h
    | succ n =>
        obtain ⟨t, -, h⟩ := Option.bind_eq_some_iff.mp h
        split at h
        · rw [bare?_eq h]
          simp [toJson, Json.depth_object_succ_le_iff]
        · obtain ⟨m, hm, rfl⟩ := Option.map_eq_some_iff.mp h
          have method := Json.Tagged.nests_read? MethodRef.faithful hm
          simp [toJson, Json.depth_object_succ_le_iff, method]
        · rw [bare?_eq h]
          simp [toJson, Json.depth_object_succ_le_iff]
        · cases h

end Instruction

def Method.record : Json.Record toJson ofJson? where
  members := [.required "name" name .ofText,
    .required "attributes" flags (.ofSpelling MethodFlags.read_write),
    .optional "parameters" parameters [] Parameter.faithful.list,
    .required "returnType" returnType (TypeRef.faithful false),
    .optional "body" body [] Instruction.faithful.list]
  succ _ _ := rfl
  reads n fields m := by
    rcases fields with
      _ | ⟨name, _ | ⟨flags, _ | ⟨parameters, _ | ⟨returns, _ | ⟨body, _ | _⟩⟩⟩⟩⟩
    all_goals cases m; simp [Option.bind_eq_some_iff]
  -- a reference is an object, so there is room for the lists left out
  room m := ⟨_, .tail _ (.tail _ (.tail _ (.head _))), rfl, by
    simp [Json.depth_list_le_iff, m.returnType.depth_toJson_pos]⟩

theorem Method.faithful : Faithful Method.toJson Method.ofJson? := record.faithful

namespace AttributeValue

theorem asInt64?_int (i : Int64) : asInt64? (.int i.toInt) = some i := by
  have range : Int64.minValue.toInt ≤ i.toInt ∧ i.toInt ≤ Int64.maxValue.toInt :=
    ⟨i.minValue_le_toInt, i.toInt_le⟩
  rw [asInt64?, Json.asInt?_int, Option.bind_eq_bind, Option.bind_some, if_pos range,
    Int64.ofInt_toInt]

theorem faithful : Faithful toJson ofJson? where
  encoded v := by
    cases v with
    | type t => exact Encoded.ofObject (by simp [Encoded.ofText, t.toJson_encoded])
    | string s => exact Encoded.ofObject (by simp [Encoded.ofText])
    | int i =>
        have small : i.toInt.natAbs < UInt64.size := by
          have low : -9223372036854775808 ≤ i.toInt := i.minValue_le_toInt
          have high : i.toInt ≤ 9223372036854775807 := i.toInt_le
          have size : UInt64.size = 18446744073709551616 := rfl
          omega
        exact Encoded.ofObject (by simp [Encoded.ofText, Encoded.ofInt small])
    | bool b => exact Encoded.ofObject (by simp [Encoded.ofText, Encoded.bool])
  back {v n} h := by
    cases v with
    | type t =>
        obtain ⟨n, rfl, parts⟩ := Json.levels_of_object h
        have type := (TypeRef.faithful false).back (parts ("value", t.toJson) (by simp))
        simp [toJson, ofJson?, Json.tagged?_content, Json.Tagged.read?, type]
    | string s =>
        obtain ⟨n, rfl, -⟩ := Json.levels_of_object h
        simp [toJson, ofJson?, Json.tagged?_content, Json.Tagged.read?]
    | int i =>
        obtain ⟨n, rfl, -⟩ := Json.levels_of_object h
        simp [toJson, ofJson?, Json.tagged?_content, Json.Tagged.read?, asInt64?_int]
    | bool b =>
        obtain ⟨n, rfl, -⟩ := Json.levels_of_object h
        simp [toJson, ofJson?, Json.tagged?_content, Json.Tagged.read?]
  fits {v w n} h := by
    cases n with
    | zero => cases h
    | succ n =>
        cases v with
        | type t =>
            simp [toJson, ofJson?, Json.tagged?_content, Json.Tagged.read?] at h
            obtain ⟨type, htype, -⟩ := h
            have type := (TypeRef.faithful false).fits htype
            simp [toJson, Json.depth_object_succ_le_iff, type]
        | _ => simp [toJson, Json.depth_object_succ_le_iff]
  nests {j v n} h := by
    cases n with
    | zero => cases h
    | succ n =>
        obtain ⟨t, -, h⟩ := Option.bind_eq_some_iff.mp h
        split at h
        · obtain ⟨u, hu, rfl⟩ := Option.map_eq_some_iff.mp h
          have type := Json.Tagged.nests_read? TypeRef.faithful hu
          simp [toJson, Json.depth_object_succ_le_iff, type]
        · obtain ⟨s, -, rfl⟩ := Option.map_eq_some_iff.mp h
          simp [toJson, Json.depth_object_succ_le_iff]
        · obtain ⟨i, -, rfl⟩ := Option.map_eq_some_iff.mp h
          simp [toJson, Json.depth_object_succ_le_iff]
        · obtain ⟨b, -, rfl⟩ := Option.map_eq_some_iff.mp h
          simp [toJson, Json.depth_object_succ_le_iff]
        · cases h

end AttributeValue

def AttributeArgument.record : Json.Record toJson ofJson? where
  members := [.required "argType" type (TypeRef.faithful false),
    .required "value" value AttributeValue.faithful]
  succ _ _ := rfl
  reads n fields a := by
    rcases fields with _ | ⟨type, _ | ⟨value, _ | _⟩⟩
    all_goals cases a; simp [Option.bind_eq_some_iff]
  room _ := ⟨_, .head _, rfl, by simp⟩

theorem AttributeArgument.faithful :
    Faithful AttributeArgument.toJson AttributeArgument.ofJson? :=
  record.faithful

def CustomAttribute.record : Json.Record toJson ofJson? where
  members := [.required "constructor" constructor (MethodRef.faithful false),
    .optional "arguments" arguments [] AttributeArgument.faithful.list]
  succ _ _ := rfl
  reads n fields a := by
    rcases fields with _ | ⟨constructor, _ | ⟨arguments, _ | _⟩⟩
    all_goals cases a; simp [Option.bind_eq_some_iff]
  room a := ⟨_, .head _, rfl, by
    have pos : 0 < a.constructor.toJson.depth := Nat.succ_pos _
    simp [Json.depth_list_le_iff, pos]⟩

theorem CustomAttribute.faithful : Faithful CustomAttribute.toJson CustomAttribute.ofJson? :=
  record.faithful

end Companions
