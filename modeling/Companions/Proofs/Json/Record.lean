import Mathlib.Data.Finset.Basic
import Companions.Proofs.Json.Decode
/-!
Objects whose members tell the fields of a record: some of the known names, each once, in any order
and among members with other names. The texts inside may be escaped in any way, since no reader sees
the difference.
-/
namespace Companions.Json

/-! ## Texts with other escapes -/

/-- The string escaped as writers do, if it decodes. -/
def plainRaw (raw : Bytes) : Bytes := ((decode? raw).map encode).getD raw

mutual

/-- The value with all its texts escaped as writers do. -/
def plain : Json → Json
  | .str raw => .str (plainRaw raw)
  | .arr js => .arr (plainItems js)
  | .obj ms => .obj (plainMembers ms)
  | j => j

def plainItems : List Json → List Json
  | [] => []
  | j :: js => plain j :: plainItems js

def plainMembers : List (Bytes × Json) → List (Bytes × Json)
  | [] => []
  | (k, j) :: ms => (plainRaw k, plain j) :: plainMembers ms

end

theorem plainItems_eq (js : List Json) : plainItems js = js.map plain := by
  induction js with
  | nil => rfl
  | cons j js ih => rw [plainItems, ih, List.map_cons]

@[simp] theorem decode?_plainRaw (raw : Bytes) : decode? (plainRaw raw) = decode? raw := by
  unfold plainRaw
  cases decoded : decode? raw with
  | none => exact decoded
  | some s => exact decode?_encode s

theorem plain_eq_null_iff {j : Json} : j.plain = .null ↔ j = .null := by
  cases j <;> simp [plain]

/-- How texts are escaped makes no difference to the reader. -/
def Blind {α : Type} (read : (levels : Nat) → Json → Option α) : Prop :=
  ∀ n j, read n j.plain = read n j

theorem asText?_plain (j : Json) : j.plain.asText? = j.asText? := by
  cases j with
  | str raw => exact decode?_plainRaw raw
  | _ => rfl

theorem asBool?_plain (j : Json) : j.plain.asBool? = j.asBool? := by
  cases j <;> rfl

theorem asNullable?_plain {α : Type} {read : Json → Option α}
    (blind : ∀ j, read j.plain = read j) (j : Json) :
    asNullable? read j.plain = asNullable? read j := by
  by_cases null : j = .null
  · rw [null]
    rfl
  · rw [asNullable?.eq_2, asNullable?.eq_2, blind j]
    · exact null
    · exact fun same => null (plain_eq_null_iff.mp same)

theorem Blind.ofText : Blind fun _ => asText? := fun _ => asText?_plain

theorem Blind.list {α : Type} {read : Nat → Json → Option α} (blind : Blind read) :
    Blind (asList? read) := by
  intro n j
  cases n with
  | zero => cases j <;> rfl
  | succ n =>
      cases j with
      | arr js =>
          change (plainItems js).mapM (read n) = js.mapM (read n)
          rw [plainItems_eq]
          induction js with
          | nil => rfl
          | cons j js ih => rw [List.map_cons, List.mapM_cons, List.mapM_cons, blind n j, ih]
      | _ => rfl

theorem lookup_map_snd (found : List (String × Json)) (f : Json → Json) (key : String) :
    (found.map fun m => (m.1, f m.2)).lookup key = (found.lookup key).map f := by
  induction found with
  | nil => rfl
  | cons m found ih =>
      rw [List.map_cons, List.lookup_cons, List.lookup_cons, ih]
      split <;> rfl

theorem collect_plain (names : List String) (found : List (String × Json))
    (ms : List (Bytes × Json)) :
    collect names (found.map fun m => (m.1, m.2.plain)) (plainMembers ms) =
      (collect names found ms).map fun found => found.map fun m => (m.1, m.2.plain) := by
  induction ms generalizing found with
  | nil => rfl
  | cons m ms ih =>
      obtain ⟨k, j⟩ := m
      rw [plainMembers, collect, collect, decode?_plainRaw]
      cases decode? k with
      | none => rfl
      | some key =>
          dsimp only
          split
          · exact ih found
          · rw [lookup_map_snd, Option.isSome_map]
            split
            · rfl
            · rw [← ih, List.map_append]
              rfl

theorem record?_plain (names : List String) (j : Json) :
    j.plain.record? names = (j.record? names).map (List.map (Option.map plain)) := by
  cases j with
  | obj ms =>
      have collected := collect_plain names [] ms
      rw [List.map_nil] at collected
      change (collect names [] (plainMembers ms)).map _ = ((collect names [] ms).map _).map _
      rw [collected, Option.map_map, Option.map_map]
      refine congrFun (congrArg _ (funext fun found => ?_)) _
      simp [lookup_map_snd]
  | arr js =>
      change (if (plainItems js).length ≤ names.length then _ else _) = _
      rw [plainItems_eq, List.length_map, record?]
      split
      · simp
      · rfl
  | _ => rfl

theorem required_plain {α : Type} {read : Json → Option α} (blind : ∀ j, read j.plain = read j)
    (j : Option Json) : required read (j.map plain) = required read j := by
  cases j with
  | none => rfl
  | some j => exact blind j

/-! ## Objects that carry fields -/

/-- The value under a name as writers put it. -/
def field? (j : Json) (name : String) : Option Json :=
  match j with
  | .obj ms => ms.lookup (encode name)
  | _ => none

theorem field?_object (ms : List (String × Json)) (name : String) :
    (object ms).field? name = ms.lookup name := by
  change (ms.map fun m => (encode m.1, m.2)).lookup (encode name) = _
  induction ms with
  | nil => rfl
  | cons m ms ih =>
      have same : (encode name == encode m.1) = (name == m.1) := by
        rw [Bool.eq_iff_iff, beq_iff_eq, beq_iff_eq]
        refine ⟨fun eq => ?_, congrArg encode⟩
        have decoded := congrArg decode? eq
        rwa [decode?_encode, decode?_encode, Option.some.injEq] at decoded
      rw [List.map_cons, List.lookup_cons, List.lookup_cons, ih, same]

/-- The object has members with the known names in `S`, each once and each telling what it should.
Order does not matter, and members with other names may be anything. -/
structure Carries (names : List String) (S : Finset String) (tells : String → Json → Prop)
    (ms : List (Bytes × Json)) : Prop where
  keys : ∀ m ∈ ms, (decode? m.1).isSome
  once : ((known names ms).map (·.1)).Nodup
  chosen : ∀ name, name ∈ (known names ms).map (·.1) ↔ name ∈ S
  tells : ∀ m ∈ known names ms, tells m.1 m.2

namespace Carries
variable {names : List String} {S : Finset String} {tells : String → Json → Prop}
  {ms : List (Bytes × Json)}

theorem record? (h : Carries names S tells ms) :
    (obj ms).record? names = some (names.map fun name => (known names ms).lookup name) := by
  have collected : collect names [] ms = some ([] ++ known names ms) := collect_known h.keys h.once
  rw [Json.record?, collected]
  rfl

theorem field {α : Type} (h : Carries names S tells ms) {name : String} {read : Json → Option α}
    {a : α} (default : α) (back : ∀ j, tells name j → read j = some a) :
    optional default read ((known names ms).lookup name) =
      some (if name ∈ S then a else default) := by
  cases found : (known names ms).lookup name with
  | none =>
      have absent : name ∉ S := by
        intro wanted
        obtain ⟨m, hm, rfl⟩ := List.mem_map.mp ((h.chosen name).mpr wanted)
        have other := List.lookup_eq_none_iff.mp found m hm
        simp at other
      rw [if_neg absent]
      rfl
  | some j =>
      have member : (name, j) ∈ known names ms := by
        obtain ⟨before, after, listed, -⟩ := List.lookup_eq_some_iff.mp found
        rw [listed]
        simp
      rw [if_pos ((h.chosen name).mp (List.mem_map_of_mem member))]
      exact back j (h.tells _ member)

end Carries

end Companions.Json
