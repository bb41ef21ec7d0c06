import Mathlib.Algebra.BigOperators.Fin
import Companions.Image.Traversal
/-!
The nodes that are listed: exactly those that the top level and the nested lists lead to, each
once. The fuel of the walk never runs out, because what may still come onto the stack is counted
by the nested lists of the nodes not met yet.
-/
namespace Companions.Image
variable {m : Image}

/-- The nodes that some ids lead to through nested lists. -/
inductive Reached (m : Image) (starts : List TypeId) : TypeId → Prop where
  | start {id : TypeId} (listed : id ∈ starts) (node : id < m.types.length) : Reached m starts id
  | nested {p id : TypeId} {d : TypeDef} (outer : Reached m starts p) (found : m.get? p = some d)
      (listed : id ∈ d.nested) (node : id < m.types.length) : Reached m starts id

namespace Reached

theorem lt {starts : List TypeId} {id : TypeId} (h : m.Reached starts id) :
    id < m.types.length := by
  cases h with
  | start _ node => exact node
  | nested _ _ _ node => exact node

theorem through {starts others : List TypeId} {id : TypeId} (h : m.Reached starts id)
    (each : ∀ s ∈ starts, s < m.types.length → m.Reached others s) : m.Reached others id := by
  induction h with
  | start listed node => exact each _ listed node
  | nested _ found listed node ih => exact .nested ih found listed node

theorem tail {i id : TypeId} {stack : List TypeId} (h : m.Reached stack id) :
    m.Reached (i :: stack) id :=
  h.through fun _ listed node => .start (List.mem_cons_of_mem i listed) node

end Reached

/-! ## One walk -/

theorem notMem_seen_of_mem_preorder {n : Nat} {stack seen : List TypeId} {id : TypeId}
    (h : id ∈ m.preorder n stack seen) : id ∉ seen := by
  fun_induction m.preorder n stack seen with
  | case1 | case2 => cases h
  | case3 n i stack seen met ih => exact ih h
  | case4 n i stack seen unmet missing ih =>
      exact fun met => ih h (List.mem_cons_of_mem i met)
  | case5 n i stack seen unmet d found ih =>
      rcases List.mem_cons.mp h with rfl | later
      · exact unmet
      · exact fun met => ih later (List.mem_cons_of_mem i met)

theorem nodup_preorder (n : Nat) (stack seen : List TypeId) : (m.preorder n stack seen).Nodup := by
  fun_induction m.preorder n stack seen with
  | case1 | case2 => exact .nil
  | case3 n i stack seen met ih => exact ih
  | case4 n i stack seen unmet missing ih => exact ih
  | case5 n i stack seen unmet d found ih =>
      exact List.nodup_cons.mpr
        ⟨fun later => notMem_seen_of_mem_preorder later List.mem_cons_self, ih⟩

theorem reached_of_mem_preorder {n : Nat} {stack seen : List TypeId} {id : TypeId}
    (h : id ∈ m.preorder n stack seen) : m.Reached stack id := by
  fun_induction m.preorder n stack seen with
  | case1 | case2 => cases h
  | case3 n i stack seen met ih => exact (ih h).tail
  | case4 n i stack seen unmet missing ih => exact (ih h).tail
  | case5 n i stack seen unmet d found ih =>
      have top : m.Reached (i :: stack) i :=
        .start List.mem_cons_self (lt_of_get? found)
      rcases List.mem_cons.mp h with rfl | later
      · exact top
      · refine (ih later).through fun s hs node => ?_
        rcases List.mem_append.mp hs with inner | outer
        · exact .nested top found inner node
        · exact .start (List.mem_cons_of_mem i outer) node

/-- What a walk lists passes over nothing: each node on its stack and each node that a listed one
lists was met before or is listed too. -/
structure Exhausts (m : Image) (seen stack listed : List TypeId) : Prop where
  top : ∀ id ∈ stack, id < m.types.length → id ∈ seen ∨ id ∈ listed
  inner : ∀ p ∈ listed, ∀ d, m.get? p = some d → ∀ id ∈ d.nested, id < m.types.length →
    id ∈ seen ∨ id ∈ listed

namespace Exhausts
variable {i : TypeId} {seen stack listed : List TypeId}

theorem nil : m.Exhausts seen [] [] := ⟨nofun, nofun⟩

theorem met (h : m.Exhausts seen stack listed) (met : i ∈ seen) :
    m.Exhausts seen (i :: stack) listed where
  top := List.forall_mem_cons.mpr ⟨fun _ => .inl met, h.top⟩
  inner := h.inner

theorem missing (h : m.Exhausts (i :: seen) stack listed) (missing : m.get? i = none) :
    m.Exhausts seen (i :: stack) listed := by
  have outside : m.types.length ≤ i := List.getElem?_eq_none_iff.mp missing
  have known {id : TypeId} (node : id < m.types.length) (h : id ∈ i :: seen ∨ id ∈ listed) :
      id ∈ seen ∨ id ∈ listed :=
    h.imp_left fun met => (List.mem_cons.mp met).resolve_left
      (Nat.ne_of_lt (Nat.lt_of_lt_of_le node outside))
  constructor
  · rw [List.forall_mem_cons]
    exact ⟨fun node => absurd node (Nat.not_lt.mpr outside),
      fun id hid node => known node (h.top id hid node)⟩
  · exact fun p hp d found id hid node => known node (h.inner p hp d found id hid node)

theorem found {d : TypeDef} (h : m.Exhausts (i :: seen) (d.nested ++ stack) listed)
    (found : m.get? i = some d) : m.Exhausts seen (i :: stack) (i :: listed) := by
  have known {id : TypeId} (h : id ∈ i :: seen ∨ id ∈ listed) : id ∈ seen ∨ id ∈ i :: listed := by
    rcases h with met | later
    · rcases List.mem_cons.mp met with rfl | met
      · exact .inr List.mem_cons_self
      · exact .inl met
    · exact .inr (List.mem_cons_of_mem i later)
  constructor
  · rw [List.forall_mem_cons]
    exact ⟨fun _ => .inr List.mem_cons_self,
      fun id hid node => known (h.top id (List.mem_append_right _ hid) node)⟩
  · intro p hp e he id hid node
    rcases List.mem_cons.mp hp with rfl | later
    · cases found.symm.trans he
      exact known (h.top id (List.mem_append_left _ hid) node)
    · exact known (h.inner p later e he id hid node)

end Exhausts

/-! ## Fuel -/

/-- How many ids the node lists. -/
def nestedCount (m : Image) (id : TypeId) : Nat := ((m.get? id).map (·.nested.length)).getD 0

/-- How many ids the nodes not met yet list. -/
def pending (m : Image) (seen : List TypeId) : Nat :=
  ∑ id ∈ Finset.range m.types.length \ seen.toFinset, m.nestedCount id

theorem pending_nil (m : Image) : m.pending [] = (m.types.flatMap (·.nested)).length := by
  rw [pending, List.toFinset_nil, Finset.sdiff_empty, Finset.sum_range, List.length_flatMap]
  have each : ∀ i : Fin m.types.length, m.nestedCount i = m.types[i].nested.length := by
    intro i
    rw [nestedCount, get?, List.getElem?_eq_getElem i.isLt]
    rfl
  rw [Finset.sum_congr rfl fun i _ => each i]
  exact Fin.sum_univ_fun_getElem m.types (·.nested.length)

theorem pending_meet {id : TypeId} {d : TypeDef} {seen : List TypeId} (found : m.get? id = some d)
    (unmet : id ∉ seen) : d.nested.length + m.pending (id :: seen) = m.pending seen := by
  have inside : id ∈ Finset.range m.types.length \ seen.toFinset := by
    rw [Finset.mem_sdiff, Finset.mem_range, List.mem_toFinset]
    exact ⟨lt_of_get? found, unmet⟩
  have count : m.nestedCount id = d.nested.length := by
    rw [nestedCount, found]
    rfl
  rw [pending, pending, List.toFinset_cons, Finset.sdiff_insert,
    ← Finset.add_sum_erase _ m.nestedCount inside, count]

theorem pending_missing {id : TypeId} (missing : m.get? id = none) (seen : List TypeId) :
    m.pending (id :: seen) = m.pending seen := by
  have outside : id ∉ Finset.range m.types.length \ seen.toFinset := by
    rw [Finset.mem_sdiff, Finset.mem_range]
    exact fun inside => absurd inside.1 (Nat.not_lt.mpr (List.getElem?_eq_none_iff.mp missing))
  rw [pending, pending, List.toFinset_cons, Finset.sdiff_insert, Finset.erase_eq_of_notMem outside]

/-- With fuel for the stack and all that may come onto it, the walk passes over nothing. -/
theorem preorder_exhausts {n : Nat} {stack seen : List TypeId}
    (fuel : stack.length + m.pending seen ≤ n) :
    m.Exhausts seen stack (m.preorder n stack seen) := by
  fun_induction m.preorder n stack seen with
  | case1 stack seen =>
      have empty : stack = [] := List.length_eq_zero_iff.mp (by omega)
      subst empty
      exact .nil
  | case2 => exact .nil
  | case3 n i stack seen met ih =>
      rw [List.length_cons] at fuel
      exact (ih (by omega)).met met
  | case4 n i stack seen unmet missing ih =>
      rw [List.length_cons] at fuel
      have enough : stack.length + m.pending (i :: seen) ≤ n := by
        rw [pending_missing missing]
        omega
      exact (ih enough).missing missing
  | case5 n i stack seen unmet d found ih =>
      rw [List.length_cons] at fuel
      have enough : (d.nested ++ stack).length + m.pending (i :: seen) ≤ n := by
        have count := pending_meet found unmet
        rw [List.length_append]
        omega
      exact (ih enough).found found

/-! ## All nodes -/

theorem nodup_typeIds (m : Image) : m.typeIds.Nodup := nodup_preorder ..

/-- Listed are the nodes that the top level leads to, and no others. -/
theorem mem_typeIds_iff {id : TypeId} : id ∈ m.typeIds ↔ m.Reached m.roots id := by
  have fuel : m.roots.length + m.pending [] ≤
      m.roots.length + (m.types.flatMap (·.nested)).length := by
    rw [pending_nil]
  obtain ⟨top, inner⟩ := preorder_exhausts fuel
  constructor
  · exact reached_of_mem_preorder
  · intro h
    induction h with
    | start listed node => exact (top _ listed node).resolve_left List.not_mem_nil
    | nested _ found listed node ih =>
        exact (inner _ ih _ found _ listed node).resolve_left List.not_mem_nil

theorem lt_of_mem_typeIds {id : TypeId} (h : id ∈ m.typeIds) : id < m.types.length :=
  (mem_typeIds_iff.mp h).lt

end Companions.Image
