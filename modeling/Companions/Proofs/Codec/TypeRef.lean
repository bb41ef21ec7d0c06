import Companions.Codec.TypeRef
import Companions.Proofs.Json.Decode
import Companions.Proofs.TypeRef
/-!
Type references as JSON: what is written for one is read as the same one, also inside a value that
was taken in as a whole.
-/
namespace Companions.TypeRef
open Json (Encoded Faithful)

theorem toJson_encoded (t : TypeRef) : Encoded t.toJson := by
  induction t with
  | named s f => exact Encoded.ofObject (by simp [Encoded.ofText])
  | generic e as ihe ihas =>
      have arguments : Encoded (.arr (toJsonAll as)) := by
        rw [toJsonAll_eq_map]
        exact Encoded.ofList ihas
      exact Encoded.ofObject (by simp [Encoded.ofText, ihe, arguments])
  | array e ihe => exact Encoded.ofObject (by simp [Encoded.ofText, ihe])
  | param p n =>
      have position : Encoded (.nat p.toNat) :=
        Encoded.ofNat (Nat.lt_trans p.toNat_lt (by decide))
      exact Encoded.ofObject (by simp [Encoded.ofText, position])

theorem shape?_object (inside : Bool) (k : String) (ms : List (String × Json)) :
    shape? inside (Json.object (("kind", .text k) :: ms)) = some k := by
  simp [shape?, Json.object, Json.text]

theorem argumentsOfReadable?_list {as : List TypeRef} {n : Nat}
    (h : ∀ a ∈ as, ofReadable? true n a.toJson = some a) :
    argumentsOfReadable? (n + 1) (.arr (as.map toJson)) = some as := by
  have read : Json.asList? (ofReadable? true) (n + 1) (Json.list toJson as) = some as :=
    Json.asList?_list h
  rw [argumentsOfReadable?]
  exact read

theorem ofReadable?_toJson {t : TypeRef} {inside : Bool} {n : Nat} (h : t.toJson.depth ≤ n) :
    ofReadable? inside n t.toJson = some t := by
  induction t generalizing inside n with
  | named s f =>
      rw [toJson, Json.depth_object_le_iff] at h
      obtain ⟨m, rfl⟩ : ∃ m, n = m + 1 := ⟨n - 1, by omega⟩
      rw [ofReadable?]
      simp [toJson, shape?_object, Json.record?_object]
  | generic e as ihe ihas =>
      simp only [toJson, Json.depth_object_le_iff, List.forall_mem_cons, toJsonAll_eq_map] at h
      obtain ⟨-, -, element, arguments, -⟩ := h
      obtain ⟨m, rfl⟩ : ∃ m, n = m + 1 := ⟨n - 1, by omega⟩
      have read : ofReadable? true m e.toJson = some e := ihe (Nat.le_of_succ_le_succ element)
      obtain ⟨pos, items⟩ := Json.depth_arr_le_iff.mp (Nat.le_of_succ_le_succ arguments)
      obtain ⟨k, rfl⟩ : ∃ k, m = k + 1 := ⟨m - 1, by omega⟩
      have each : ∀ a ∈ as, ofReadable? true k a.toJson = some a := fun a ha =>
        ihas a ha (Nat.le_of_succ_le_succ (items _ (List.mem_map_of_mem ha)))
      have arguments := argumentsOfReadable?_list each
      rw [ofReadable?]
      simp [toJson, toJsonAll_eq_map, shape?_object, Json.record?_object, read, arguments]
  | array e ihe =>
      simp only [toJson, Json.depth_object_le_iff, List.forall_mem_cons] at h
      obtain ⟨-, -, element, -⟩ := h
      obtain ⟨m, rfl⟩ : ∃ m, n = m + 1 := ⟨n - 1, by omega⟩
      have read : ofReadable? true m e.toJson = some e := ihe (Nat.le_of_succ_le_succ element)
      rw [ofReadable?]
      simp [toJson, shape?_object, Json.record?_object, read]
  | param p name =>
      rw [toJson, Json.depth_object_le_iff] at h
      obtain ⟨m, rfl⟩ : ∃ m, n = m + 1 := ⟨n - 1, by omega⟩
      have position : Json.asNat? UInt16.size (.nat p.toNat) = some p.toNat :=
        Json.asNat?_nat p.toNat_lt_size
      rw [ofReadable?]
      simp -implicitDefEqProofs [toJson, shape?_object, Json.record?_object, position]

theorem nests_of_arguments {n : Nat} {j : Json} {as : List TypeRef}
    (ih : ∀ m < n, ∀ j t, ofReadable? true m j = some t → t.toJson.depth ≤ m)
    (h : argumentsOfReadable? n j = some as) : (Json.arr (toJsonAll as)).depth ≤ n := by
  rw [toJsonAll_eq_map]
  cases n with
  | zero => cases h
  | succ n =>
      cases j with
      | arr js =>
          refine Json.depth_list_le_iff.mpr ⟨Nat.succ_pos n, fun a ha => ?_⟩
          obtain ⟨j, -, hj⟩ := Json.mapM_mem h ha
          exact Nat.succ_le_succ (ih n (Nat.lt_succ_self n) j a hj)
      | _ => cases h

theorem nests_of_ofReadable? {inside : Bool} {n : Nat} {j : Json} {t : TypeRef}
    (h : ofReadable? inside n j = some t) : t.toJson.depth ≤ n := by
  induction n using Nat.strongRecOn generalizing inside j t with
  | ind n ih =>
      cases n with
      | zero => cases h
      | succ n =>
          rw [ofReadable?] at h
          obtain ⟨tag, -, h⟩ := Option.bind_eq_some_iff.mp h
          have part {e : Option Json} {u : TypeRef}
              (hu : Json.required (ofReadable? true n) e = some u) : u.toJson.depth ≤ n := by
            obtain ⟨j, -, hj⟩ := Option.bind_eq_some_iff.mp hu
            exact ih n (Nat.lt_succ_self n) hj
          split at h
          case h_1 =>
            obtain ⟨fields, -, h⟩ := Option.bind_eq_some_iff.mp h
            split at h
            · obtain ⟨s, -, h⟩ := Option.bind_eq_some_iff.mp h
              obtain ⟨f, -, h⟩ := Option.bind_eq_some_iff.mp h
              cases h
              simp [toJson, Json.depth_object_le_iff]
            · cases h
          case h_2 =>
            obtain ⟨fields, -, h⟩ := Option.bind_eq_some_iff.mp h
            split at h
            · obtain ⟨as, has, h⟩ := Option.bind_eq_some_iff.mp h
              obtain ⟨e, he, h⟩ := Option.bind_eq_some_iff.mp h
              cases h
              obtain ⟨j, -, hj⟩ := Option.bind_eq_some_iff.mp has
              have arguments := nests_of_arguments (fun m hm j t => ih m (by omega)) hj
              simp [toJson, Json.depth_object_le_iff, part he, arguments]
            · cases h
          case h_3 =>
            obtain ⟨fields, -, h⟩ := Option.bind_eq_some_iff.mp h
            split at h
            · obtain ⟨e, he, h⟩ := Option.bind_eq_some_iff.mp h
              cases h
              simp [toJson, Json.depth_object_le_iff, part he]
            · cases h
          case h_4 =>
            obtain ⟨fields, -, h⟩ := Option.bind_eq_some_iff.mp h
            split at h
            · obtain ⟨p, -, h⟩ := Option.bind_eq_some_iff.mp h
              obtain ⟨name, -, h⟩ := Option.bind_eq_some_iff.mp h
              cases h
              simp [toJson, Json.depth_object_le_iff]
            · cases h
          case h_5 => cases h

/-- References inside a value taken in as a whole, and outside of one, are read alike. -/
theorem faithful (inside : Bool) : Faithful toJson (ofJson? inside) where
  encoded := toJson_encoded
  back {t n} h := by
    rw [ofJson?, if_pos (t.toJson_encoded.readable h)]
    exact ofReadable?_toJson h
  fits {t u n} h := by
    rw [ofJson?] at h
    split at h
    · next readable => exact Json.depth_le_of_readable readable
    · cases h
  nests {j t n} h := by
    rw [ofJson?] at h
    split at h
    · exact nests_of_ofReadable? h
    · cases h

theorem depth_toJson_pos (t : TypeRef) : 0 < t.toJson.depth := by
  cases t <;> exact Nat.succ_pos _

theorem toJson_ne_null (t : TypeRef) : t.toJson ≠ .null := by
  cases t <;> nofun

end Companions.TypeRef
