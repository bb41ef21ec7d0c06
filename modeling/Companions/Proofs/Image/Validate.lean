import Mathlib.Data.List.Nodup
import Companions.Image.Validate
/-!
Which images are accepted: validation finds no fault exactly if every root is a top-level node,
every node obeys the rules about its links, fields and constructors, and no two nodes have the same
full name.
-/
namespace Companions.Image
variable {m : Image}

/-- What is checked about one node. A node lists only nodes, and is listed by its declaring type;
that a listed node has the lister for its declaring type is not asked. -/
structure Obeys (m : Image) (id : TypeId) (d : TypeDef) : Prop where
  listed : ∀ parent ∈ d.declaring, ∃ p, m.get? parent = some p ∧ id ∈ p.nested
  inside : ∀ c ∈ d.nested, c < m.types.length
  fields : (d.fields.map (·.name)).Nodup
  returns : ∀ c ∈ d.constructors, c.returns

structure Valid (m : Image) : Prop where
  roots : ∀ id ∈ m.roots, ∃ d, m.get? id = some d ∧ d.declaring = none
  nodes : ∀ id d, m.get? id = some d → m.Obeys id d
  names : ((List.range m.types.length).map m.fullName).Nodup

/-! ## One check after the other -/

theorem bind_ok_iff {ε β : Type} {x : Except ε Unit} {f : Unit → Except ε β} {b : β} :
    (x >>= f) = .ok b ↔ x = .ok () ∧ f () = .ok b := by
  cases x with
  | error e => simp [bind, Except.bind]
  | ok u => simp [bind, Except.bind]

theorem checkRoots_ok_iff {ids : List TypeId} : m.checkRoots ids = .ok () ↔
    ∀ id ∈ ids, ∃ d, m.get? id = some d ∧ d.declaring = none := by
  induction ids with
  | nil => simp [checkRoots]
  | cons id ids ih =>
      rw [checkRoots, List.forall_mem_cons, ← ih]
      cases m.get? id with
      | none => simp
      | some d => cases found : d.declaring <;> simp [found]

theorem checkDeclaring_ok_iff {id : TypeId} {d : TypeDef} : m.checkDeclaring id d = .ok () ↔
    ∀ parent ∈ d.declaring, ∃ p, m.get? parent = some p ∧ id ∈ p.nested := by
  rw [checkDeclaring]
  cases d.declaring with
  | none => simp
  | some parent =>
      cases found : m.get? parent with
      | none => simp [found]
      | some p => simp [found]

theorem checkNested_ok_iff {d : TypeDef} :
    m.checkNested d = .ok () ↔ ∀ c ∈ d.nested, c < m.types.length := by
  simp [checkNested]

/-- `seen` are the names of the fields before. -/
theorem checkFields_ok_iff {fullName : String} {seen : List String} {fs : List Field} :
    checkFields fullName seen fs = .ok () ↔
      (fs.map (·.name)).Nodup ∧ ∀ f ∈ fs, f.name ∉ seen := by
  induction fs generalizing seen with
  | nil => simp [checkFields]
  | cons f fs ih =>
      rw [checkFields]
      by_cases met : f.name ∈ seen
      · simp [met]
      · rw [if_neg met, ih, List.map_cons, List.nodup_cons, List.forall_mem_cons]
        constructor
        · rintro ⟨distinct, fresh⟩
          refine ⟨⟨?_, distinct⟩, met, fun g hg seen => fresh g hg (List.mem_cons_of_mem _ seen)⟩
          rw [List.mem_map]
          rintro ⟨g, hg, same⟩
          exact fresh g hg (same ▸ List.mem_cons_self)
        · rintro ⟨⟨here, distinct⟩, -, fresh⟩
          refine ⟨distinct, fun g hg seen => ?_⟩
          rcases List.mem_cons.mp seen with same | seen
          · exact here (List.mem_map.mpr ⟨g, hg, same⟩)
          · exact fresh g hg seen

theorem checkConstructors_ok_iff {fullName : String} {d : TypeDef} :
    checkConstructors fullName d = .ok () ↔ ∀ c ∈ d.constructors, c.returns := by
  simp [checkConstructors]

theorem checkTypes_cons_ok_iff {id : TypeId} {seen : List String} {d : TypeDef}
    {ds : List TypeDef} :
    m.checkTypes id seen (d :: ds) = .ok () ↔ m.Obeys id d ∧ m.fullName id ∉ seen ∧
      m.checkTypes (id + 1) (m.fullName id :: seen) ds = .ok () := by
  rw [checkTypes, bind_ok_iff, bind_ok_iff, checkDeclaring_ok_iff, checkNested_ok_iff]
  by_cases met : m.fullName id ∈ seen
  · rw [if_pos met]
    constructor
    · rintro ⟨-, -, stopped⟩
      cases stopped
    · rintro ⟨-, fresh, -⟩
      exact absurd met fresh
  · rw [if_neg met, bind_ok_iff, bind_ok_iff, checkFields_ok_iff, checkConstructors_ok_iff]
    constructor
    · rintro ⟨listed, inside, ⟨fields, -⟩, returns, rest⟩
      exact ⟨⟨listed, inside, fields, returns⟩, met, rest⟩
    · rintro ⟨⟨listed, inside, fields, returns⟩, -, rest⟩
      exact ⟨listed, inside, ⟨fields, by simp⟩, returns, rest⟩

/-- The nodes from `id` on, where `seen` are the full names of those before. -/
theorem checkTypes_ok_iff {id : TypeId} {seen : List String} {ds : List TypeDef} :
    m.checkTypes id seen ds = .ok () ↔ (∀ k d, ds[k]? = some d → m.Obeys (id + k) d) ∧
      ((List.range' id ds.length).map m.fullName).Nodup ∧
      ∀ i ∈ List.range' id ds.length, m.fullName i ∉ seen := by
  induction ds generalizing id seen with
  | nil => simp [checkTypes]
  | cons d ds ih =>
      rw [checkTypes_cons_ok_iff, ih, List.length_cons, List.range'_succ, List.map_cons,
        List.nodup_cons, List.forall_mem_cons]
      constructor
      · rintro ⟨here, fresh, later, distinct, unseen⟩
        refine ⟨?_, ⟨?_, distinct⟩, fresh, fun i hi => ?_⟩
        · intro k e he
          cases k with
          | zero =>
              cases he
              exact here
          | succ k =>
              have node := later k e he
              rwa [Nat.add_assoc, Nat.add_comm 1 k] at node
        · rw [List.mem_map]
          rintro ⟨i, hi, same⟩
          exact unseen i hi (same ▸ List.mem_cons_self)
        · exact fun met => unseen i hi (List.mem_cons_of_mem _ met)
      · rintro ⟨nodes, ⟨here, distinct⟩, fresh, unseen⟩
        refine ⟨nodes 0 d rfl, fresh, ?_, distinct, ?_⟩
        · intro k e he
          have node := nodes (k + 1) e he
          rwa [Nat.add_comm k 1, ← Nat.add_assoc] at node
        · intro i hi met
          rcases List.mem_cons.mp met with same | met
          · exact here (List.mem_map.mpr ⟨i, hi, same⟩)
          · exact unseen i hi met

theorem check_ok_iff : m.check = .ok () ↔ m.Valid := by
  rw [check, bind_ok_iff, checkRoots_ok_iff, checkTypes_ok_iff, ← List.range_eq_range']
  constructor
  · rintro ⟨roots, nodes, names, -⟩
    refine ⟨roots, fun id d hd => ?_, names⟩
    have node := nodes id d hd
    rwa [Nat.zero_add] at node
  · rintro ⟨roots, nodes, names⟩
    refine ⟨roots, fun k d hd => ?_, names, by simp⟩
    rw [Nat.zero_add]
    exact nodes k d hd

theorem validate_ok_iff : m.validate = .ok () ↔ m.Valid := by
  rw [← check_ok_iff, validate]
  cases m.check <;> simp [Except.mapError]

namespace Valid
variable (valid : m.Valid)
include valid

theorem fullName_inj {i j : TypeId} (hi : i < m.types.length) (hj : j < m.types.length)
    (same : m.fullName i = m.fullName j) : i = j := by
  exact List.inj_on_of_nodup_map valid.names (List.mem_range.mpr hi) (List.mem_range.mpr hj) same

theorem linked {d : TypeDef} (hd : d ∈ m.types) {parent : TypeId} (hp : d.declaring = some parent) :
    parent < m.types.length := by
  obtain ⟨id, node⟩ := mem_types_iff.mp hd
  obtain ⟨p, found, -⟩ := (valid.nodes id d node).listed parent hp
  exact lt_of_get? found

theorem root_lt {id : TypeId} (h : id ∈ m.roots) : id < m.types.length := by
  obtain ⟨d, node, -⟩ := valid.roots id h
  exact lt_of_get? node

end Valid
end Companions.Image
