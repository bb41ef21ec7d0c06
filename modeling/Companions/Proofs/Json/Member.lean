import Mathlib.Data.List.Forall2
import Companions.Proofs.Json.Decode
/-!
Records member by member. A record is written as an object of its members and read from the fields
that stand under their names; where each member is written and read faithfully, so is the record.
-/
namespace Companions.Json

/-- A member of a record: its name, what the record has there, and the value that it has where the
field is left out, if it may be. -/
structure Member (α : Type) where
  name : String
  {β : Type}
  get : α → β
  {write : β → Json}
  {read : (levels : Nat) → Json → Option β}
  faithful : Faithful write read
  default : Option β

namespace Member

/-- A member without default. -/
def required {α β : Type} {write : β → Json} {read : Nat → Json → Option β} (name : String)
    (get : α → β) (faithful : Faithful write read) : Member α where
  name; get; faithful
  default := none

/-- A member that may be left out. -/
def optional {α β : Type} {write : β → Json} {read : Nat → Json → Option β} (name : String)
    (get : α → β) (default : β) (faithful : Faithful write read) : Member α where
  name; get; faithful
  default := some default

variable {α : Type}

/-- What is written for the member. -/
def value (m : Member α) (a : α) : Json := m.write (m.get a)

/-- The field is read as what the record has there. -/
def Reads (m : Member α) (levels : Nat) (field : Option Json) (a : α) : Prop :=
  match m.default with
  | none => Json.required (m.read levels) field = some (m.get a)
  | some b => Json.optional b (m.read levels) field = some (m.get a)

/-- What stands for a field that is left out nests no deeper. -/
def DefaultFits (m : Member α) (levels : Nat) : Prop :=
  ∀ b ∈ m.default, (m.write b).depth ≤ levels

section simps
variable {β : Type} {write : β → Json} {read : Nat → Json → Option β} {name : String} {get : α → β}
  {faithful : Faithful write read} {default : β} {a : α} {n : Nat} {field : Option Json}

@[simp] theorem name_required : (required name get faithful).name = name := rfl
@[simp] theorem name_optional : (optional name get default faithful).name = name := rfl

@[simp] theorem value_required : (required name get faithful).value a = write (get a) := rfl

@[simp] theorem reads_required : (required name get faithful).Reads n field a ↔
    Json.required (read n) field = some (get a) := Iff.rfl

@[simp] theorem reads_optional : (optional name get default faithful).Reads n field a ↔
    Json.optional default (read n) field = some (get a) := Iff.rfl

@[simp] theorem defaultFits_required : (required name get faithful).DefaultFits n := nofun

@[simp] theorem defaultFits_optional : (optional name get default faithful).DefaultFits n ↔
    (write default).depth ≤ n :=
  ⟨fun h => h default rfl, by rintro h _ ⟨⟩; exact h⟩

end simps

theorem encoded_value (m : Member α) (a : α) : Encoded (m.value a) := m.faithful.encoded (m.get a)

/-- A member that is there is read by its reader, default or not. -/
theorem reads_some {m : Member α} {n : Nat} {j : Json} {a : α} :
    m.Reads n (some j) a ↔ m.read n j = some (m.get a) := by
  rw [Reads]
  cases m.default <;> rfl

theorem reads_value {m : Member α} {a : α} {n : Nat} (h : (m.value a).depth ≤ n) :
    m.Reads n (some (m.value a)) a :=
  reads_some.mpr (m.faithful.back h)

theorem fits_of_reads {m : Member α} {a b : α} {n : Nat} (h : m.Reads n (some (m.value a)) b) :
    (m.value a).depth ≤ n :=
  m.faithful.fits (reads_some.mp h)

theorem nests_of_reads {m : Member α} {a : α} {n : Nat} {field : Option Json}
    (room : m.DefaultFits n) (h : m.Reads n field a) : (m.value a).depth ≤ n := by
  rw [Reads] at h
  cases default : m.default with
  | none =>
      rw [default] at h
      exact m.faithful.nests_required h
  | some b =>
      rw [default] at h
      exact m.faithful.nests_optional (room b default) h

end Member

theorem Faithful.ofSpelling {α : Type} {spell : α → String} {parse : String → Option α}
    (h : ∀ a, parse (spell a) = some a) :
    Faithful (fun a => text (spell a)) fun _ j => j.asText?.bind parse where
  encoded a := Encoded.ofText (spell a)
  back {a n} _ := by rw [asText?_text, Option.bind_some, h]
  fits _ := Nat.zero_le _
  nests _ := Nat.zero_le _

/-- Records written and read by members. What stands for a field that is left out nests no deeper than
some member that must be there, so a level that has room for that member has room for all defaults. -/
structure Record {α : Type} (write : α → Json) (read : (levels : Nat) → Json → Option α) where
  members : List (Member α)
  {parse : (levels : Nat) → List (Option Json) → Option α}
  distinct : (members.map (·.name)).Nodup := by simp
  writes : ∀ a, write a = object (members.map fun m => (m.name, m.value a)) := by exact fun _ => rfl
  zero : ∀ j, read 0 j = none := by exact fun _ => rfl
  succ (n : Nat) (j : Json) : read (n + 1) j = (j.record? (members.map (·.name))).bind (parse n)
  reads (n : Nat) (fields : List (Option Json)) (a : α) : parse n fields = some a ↔
    List.Forall₂ (fun m field => m.Reads n field a) members fields
  room (a : α) : ∃ top ∈ members, top.default = none ∧
    ∀ m ∈ members, m.DefaultFits (top.value a).depth

namespace Record
variable {α : Type} {write : α → Json} {read : Nat → Json → Option α} (r : Record write read)
include r

theorem depth_succ_le_iff {a : α} {n : Nat} :
    (write a).depth ≤ n + 1 ↔ ∀ m ∈ r.members, (m.value a).depth ≤ n := by
  rw [r.writes, depth_object_succ_le_iff, List.forall_mem_map]

theorem levels_of_write {a : α} {n : Nat} (h : (write a).depth ≤ n) : ∃ k, n = k + 1 := by
  rw [r.writes] at h
  obtain ⟨k, same, -⟩ := levels_of_object h
  exact ⟨k, same⟩

theorem levels_of_read {j : Json} {a : α} {n : Nat} (h : read n j = some a) : ∃ k, n = k + 1 := by
  cases n with
  | zero => cases (r.zero j).symm.trans h
  | succ k => exact ⟨k, rfl⟩

/-- A written record is read member by member. -/
theorem read_write_iff {a b : α} {n : Nat} : read (n + 1) (write a) = some b ↔
    ∀ m ∈ r.members, m.Reads n (some (m.value a)) b := by
  have named : (r.members.map fun m => (m.name, m.value a)).map (·.1) = r.members.map (·.name) := by
    rw [List.map_map]
    rfl
  rw [r.succ, r.writes, record?_object named r.distinct, List.map_map, Option.bind_some, r.reads,
    List.forall₂_map_right_iff, List.forall₂_same]
  rfl

theorem reads_of_read {j : Json} {a : α} {n : Nat} (h : read (n + 1) j = some a) :
    ∀ m ∈ r.members, ∃ field, m.Reads n field a := by
  rw [r.succ] at h
  obtain ⟨fields, -, h⟩ := Option.bind_eq_some_iff.mp h
  obtain ⟨length, each⟩ := List.forall₂_iff_get.mp ((r.reads n fields a).mp h)
  intro m hm
  obtain ⟨i, hi, rfl⟩ := List.mem_iff_getElem.mp hm
  exact ⟨_, each i hi (length ▸ hi)⟩

/-- Where something is read, there is room for what is left out. -/
theorem defaultFits {a : α} {n : Nat} (h : ∀ m ∈ r.members, ∃ field, m.Reads n field a) :
    ∀ m ∈ r.members, m.DefaultFits n := by
  obtain ⟨top, listed, required, others⟩ := r.room a
  obtain ⟨field, there⟩ := h top listed
  have own : top.DefaultFits n := by
    rw [Member.DefaultFits, required]
    exact nofun
  exact fun m hm b hb => Nat.le_trans (others m hm b hb) (Member.nests_of_reads own there)

theorem faithful : Faithful write read where
  encoded a := by
    rw [r.writes]
    exact Encoded.ofObject (List.forall_mem_map.mpr fun m _ => m.encoded_value a)
  back {a n} h := by
    obtain ⟨n, rfl⟩ := r.levels_of_write h
    exact r.read_write_iff.mpr fun m hm => Member.reads_value (r.depth_succ_le_iff.mp h m hm)
  fits {a b n} h := by
    obtain ⟨n, rfl⟩ := r.levels_of_read h
    exact r.depth_succ_le_iff.mpr fun m hm => Member.fits_of_reads (r.read_write_iff.mp h m hm)
  nests {j a n} h := by
    obtain ⟨n, rfl⟩ := r.levels_of_read h
    have each := r.reads_of_read h
    refine r.depth_succ_le_iff.mpr fun m hm => ?_
    obtain ⟨field, there⟩ := each m hm
    exact Member.nests_of_reads (r.defaultFits each m hm) there

end Record
end Companions.Json
