import Companions.Proofs.Image.Traversal
/-!
The order of nodes as a recursion. The walk works off a stack that grows while it is worked off and
may hold an id many times. What it has listed, followed by what the recursion lists for the stack
that is left, stays the same at every turn; and the turns come to an end, since each takes one from
the ids on the stack and those that may still come onto it.
-/
namespace Companions.Image
variable {m : Image}

/-! ## The recursion -/

/-- How many nodes are not met. -/
def unmetCount (m : Image) (seen : Finset TypeId) : Nat := (Finset.range m.size \ seen).card

theorem unmetCount_anti {seen more : Finset TypeId} (h : seen ⊆ more) :
    m.unmetCount more ≤ m.unmetCount seen :=
  Finset.card_le_card (Finset.sdiff_subset_sdiff (Finset.Subset.refl _) h)

theorem unmetCount_insert_lt {seen : Finset TypeId} {id : TypeId} (unmet : id ∉ seen)
    (inside : id < m.size) : m.unmetCount (insert id seen) < m.unmetCount seen := by
  have counted : id ∈ Finset.range m.size \ seen := by
    rw [Finset.mem_sdiff, Finset.mem_range]
    exact ⟨inside, unmet⟩
  rw [unmetCount, unmetCount, Finset.sdiff_insert]
  exact Finset.card_erase_lt_of_mem counted

/-- Ids in their order, each one followed by what is nested in its node. Passed over is what leads to
no node, and what was met: before, or while an earlier id was gone through. -/
def depthFirst (m : Image) (seen : Finset TypeId) : List TypeId → List TypeId
  | [] => []
  | id :: ids =>
    if _met : id ∈ seen then depthFirst m seen ids
    else match _node : m.get? id with
      | none => depthFirst m seen ids
      | some d =>
        id :: (depthFirst m (insert id seen) d.nested ++
          depthFirst m (insert id seen ∪ (depthFirst m (insert id seen) d.nested).toFinset) ids)
termination_by ids => (m.unmetCount seen, ids.length)
decreasing_by
  · exact Prod.Lex.right _ (Nat.lt_succ_self _)
  · exact Prod.Lex.right _ (Nat.lt_succ_self _)
  · exact Prod.Lex.left _ _ (unmetCount_insert_lt _met (lt_of_get? _node))
  · apply Prod.Lex.left
    have fewer := unmetCount_insert_lt _met (lt_of_get? _node)
    exact Nat.lt_of_le_of_lt (unmetCount_anti Finset.subset_union_left) fewer

section equations

variable {seen : Finset TypeId} {id : TypeId} {ids : List TypeId}

theorem depthFirst_nil : m.depthFirst seen [] = [] := by
  rw [depthFirst]

theorem depthFirst_met (met : id ∈ seen) : m.depthFirst seen (id :: ids) = m.depthFirst seen ids := by
  rw [depthFirst, dif_pos met]

theorem depthFirst_missing (missing : m.get? id = none) :
    m.depthFirst seen (id :: ids) = m.depthFirst seen ids := by
  rw [depthFirst]
  split
  · rfl
  · split
    · rfl
    · next found =>
      rw [missing] at found
      cases found

theorem depthFirst_found {d : TypeDef} (unmet : id ∉ seen) (found : m.get? id = some d) :
    m.depthFirst seen (id :: ids) =
      id :: (m.depthFirst (insert id seen) d.nested ++
        m.depthFirst (insert id seen ∪ (m.depthFirst (insert id seen) d.nested).toFinset) ids) := by
  rw [depthFirst, dif_neg unmet]
  split
  · next missing =>
      rw [missing] at found
      cases found
  · next e node =>
      cases found.symm.trans node
      rfl

end equations

/-- Going through ids and then through others is going through all of them. -/
theorem depthFirst_append (seen : Finset TypeId) (ids others : List TypeId) :
    m.depthFirst seen (ids ++ others) = m.depthFirst seen ids ++
      m.depthFirst (seen ∪ (m.depthFirst seen ids).toFinset) others := by
  fun_induction m.depthFirst seen ids with
  | case1 seen => simp
  | case2 seen id ids met ih => rw [List.cons_append, depthFirst_met met, ih]
  | case3 seen id ids unmet missing ih => rw [List.cons_append, depthFirst_missing missing, ih]
  | case4 seen id ids unmet d found _ ih =>
      -- what was met at the end is the same, however it is put together
      have same (inner later : List TypeId) : insert id seen ∪ inner.toFinset ∪ later.toFinset =
          seen ∪ (id :: (inner ++ later)).toFinset := by
        ext i
        simp
      rw [List.cons_append, depthFirst_found unmet found, ih, same, List.cons_append,
        List.append_assoc]

/-- Only met nodes are passed over, so it is the same whatever else counts as met. -/
theorem depthFirst_congr {seen : Finset TypeId} {ids : List TypeId} :
    ∀ {others : Finset TypeId}, (∀ i < m.size, i ∈ seen ↔ i ∈ others) →
      m.depthFirst seen ids = m.depthFirst others ids := by
  fun_induction m.depthFirst seen ids with
  | case1 seen =>
      intro others agree
      rw [depthFirst_nil]
  | case2 seen id ids met ih =>
      intro others agree
      cases node : m.get? id with
      | none => rw [ih agree, depthFirst_missing node]
      | some d =>
          have met' := (agree id (lt_of_get? node)).mp met
          rw [ih agree, depthFirst_met met']
  | case3 seen id ids unmet missing ih =>
      intro others agree
      rw [ih agree, depthFirst_missing missing]
  | case4 seen id ids unmet d found ih ih' =>
      intro others agree
      have unmet' : id ∉ others := fun met => unmet ((agree id (lt_of_get? found)).mpr met)
      have within : ∀ i < m.size, i ∈ insert id seen ↔ i ∈ insert id others := by
        intro i inside
        rw [Finset.mem_insert, Finset.mem_insert, agree i inside]
      have after (inner : List TypeId) : ∀ i < m.size, i ∈ insert id seen ∪ inner.toFinset ↔
          i ∈ insert id others ∪ inner.toFinset := by
        intro i inside
        rw [Finset.mem_union, Finset.mem_union, within i inside]
      rw [depthFirst_found unmet' found, ← ih within, ← ih' (after _)]

theorem depthFirst_insert_missing {id : TypeId} (missing : m.get? id = none)
    (seen : Finset TypeId) (ids : List TypeId) :
    m.depthFirst (insert id seen) ids = m.depthFirst seen ids := by
  apply depthFirst_congr
  intro i inside
  have other : i ≠ id := by
    rintro rfl
    exact absurd inside (Nat.not_lt.mpr (List.getElem?_eq_none_iff.mp missing))
  rw [Finset.mem_insert, or_iff_right other]

/-! ## The loop -/

/-- Where the loop stands: ids to look at, ids that were met, and what is listed. -/
structure Listing where
  stack : List TypeId
  seen : List TypeId := []
  listed : List TypeId := []

/-- One turn takes the top of the stack. With an empty stack nothing happens any more. -/
def turn (m : Image) : Listing → Listing
  | ⟨[], seen, listed⟩ => ⟨[], seen, listed⟩
  | ⟨id :: stack, seen, listed⟩ =>
    if id ∈ seen then ⟨stack, seen, listed⟩
    else match m.get? id with
      | none => ⟨stack, id :: seen, listed⟩
      | some d => ⟨d.nested ++ stack, id :: seen, listed ++ [id]⟩

section turn

variable {id : TypeId} {stack seen listed : List TypeId}

@[simp] theorem turn_nil : m.turn ⟨[], seen, listed⟩ = ⟨[], seen, listed⟩ := rfl

theorem turn_met (met : id ∈ seen) :
    m.turn ⟨id :: stack, seen, listed⟩ = ⟨stack, seen, listed⟩ := by
  rw [turn, if_pos met]

theorem turn_missing (unmet : id ∉ seen) (missing : m.get? id = none) :
    m.turn ⟨id :: stack, seen, listed⟩ = ⟨stack, id :: seen, listed⟩ := by
  rw [turn, if_neg unmet, missing]

theorem turn_found {d : TypeDef} (unmet : id ∉ seen) (found : m.get? id = some d) :
    m.turn ⟨id :: stack, seen, listed⟩ = ⟨d.nested ++ stack, id :: seen, listed ++ [id]⟩ := by
  rw [turn, if_neg unmet, found]

end turn

/-- The walk with fuel lists what as many turns add. -/
theorem listed_turns (n : Nat) (stack seen listed : List TypeId) :
    (m.turn^[n] ⟨stack, seen, listed⟩).listed = listed ++ m.preorder n stack seen := by
  fun_induction m.preorder n stack seen generalizing listed with
  | case1 stack seen => simp
  | case2 n seen =>
      have still : m.turn ⟨[], seen, listed⟩ = ⟨[], seen, listed⟩ := turn_nil
      rw [Function.iterate_fixed still, List.append_nil]
  | case3 n id stack seen met ih => rw [Function.iterate_succ_apply, turn_met met, ih]
  | case4 n id stack seen unmet missing ih =>
      rw [Function.iterate_succ_apply, turn_missing unmet missing, ih]
  | case5 n id stack seen unmet d found ih =>
      rw [Function.iterate_succ_apply, turn_found unmet found, ih, List.append_assoc,
        List.singleton_append]

/-! ### It comes to an end -/

/-- The ids on the stack and those that may still come onto it. -/
def remaining (m : Image) (l : Listing) : Nat := l.stack.length + m.pending l.seen

theorem remaining_mk (stack seen listed : List TypeId) :
    m.remaining ⟨stack, seen, listed⟩ = stack.length + m.pending seen := rfl

theorem remaining_turn (m : Image) (id : TypeId) (stack seen listed : List TypeId) :
    m.remaining (m.turn ⟨id :: stack, seen, listed⟩) + 1 =
      m.remaining ⟨id :: stack, seen, listed⟩ := by
  rw [remaining_mk (id :: stack), List.length_cons]
  by_cases met : id ∈ seen
  · rw [turn_met met, remaining_mk]
    omega
  · cases node : m.get? id with
    | none =>
        rw [turn_missing met node, remaining_mk, pending_missing node]
        omega
    | some d =>
        have count := pending_meet node met
        rw [turn_found met node, remaining_mk, List.length_append]
        omega

theorem stack_turns {n : Nat} {l : Listing} (enough : m.remaining l ≤ n) :
    (m.turn^[n] l).stack = [] := by
  induction n generalizing l with
  | zero =>
      rw [remaining] at enough
      apply List.length_eq_zero_iff.mp
      change l.stack.length = 0
      omega
  | succ n ih =>
      rw [Function.iterate_succ_apply]
      match l with
      | ⟨[], seen, listed⟩ =>
        have still : m.turn ⟨[], seen, listed⟩ = ⟨[], seen, listed⟩ := turn_nil
        rw [still, Function.iterate_fixed still]
      | ⟨id :: stack, seen, listed⟩ =>
        apply ih
        have less := m.remaining_turn id stack seen listed
        omega

/-! ### It lists what the recursion lists -/

/-- What a listing comes to: what it has, and what the recursion lists for its stack. -/
def outcome (m : Image) (l : Listing) : List TypeId :=
  l.listed ++ m.depthFirst l.seen.toFinset l.stack

theorem outcome_turn (m : Image) (l : Listing) : m.outcome (m.turn l) = m.outcome l := by
  match l with
  | ⟨[], seen, listed⟩ => rw [turn_nil]
  | ⟨id :: stack, seen, listed⟩ =>
    by_cases met : id ∈ seen
    · rw [turn_met met, outcome, outcome, depthFirst_met (List.mem_toFinset.mpr met)]
    · have unmet : id ∉ seen.toFinset := fun h => met (List.mem_toFinset.mp h)
      cases node : m.get? id with
      | none =>
          have same := depthFirst_insert_missing node seen.toFinset stack
          rw [turn_missing met node, outcome, outcome, depthFirst_missing node,
            List.toFinset_cons, same]
      | some d =>
          rw [turn_found met node, outcome, outcome, depthFirst_found unmet node,
            depthFirst_append, List.toFinset_cons, List.append_assoc, List.singleton_append]

theorem outcome_turns (m : Image) (n : Nat) (l : Listing) : m.outcome (m.turn^[n] l) = m.outcome l := by
  induction n generalizing l with
  | zero => rfl
  | succ n ih => rw [Function.iterate_succ_apply, ih, outcome_turn]

/-- With turns for all that remains, the loop is at its end and has listed what the recursion lists. -/
theorem turns_end {n : Nat} {l : Listing} (enough : m.remaining l ≤ n) :
    (m.turn^[n] l).stack = [] ∧ (m.turn^[n] l).listed = m.outcome l := by
  have ended := stack_turns enough
  have kept := m.outcome_turns n l
  rw [outcome, ended, depthFirst_nil, List.append_nil] at kept
  exact ⟨ended, kept⟩

/-- On any image, dangling, repeated, shared and circular lists included, the loop comes to an end,
and what it has listed then is what the recursion lists: each node that the top level leads to, and
each once. -/
theorem typeIds_depthFirst (m : Image) :
    (∀ n ≥ m.roots.length + (m.types.flatMap (·.nested)).length,
      (m.turn^[n] ⟨m.roots, [], []⟩).stack = [] ∧
        (m.turn^[n] ⟨m.roots, [], []⟩).listed = m.typeIds) ∧
    m.typeIds = m.depthFirst ∅ m.roots ∧ m.typeIds.Nodup ∧
    ∀ id, id ∈ m.typeIds ↔ m.Reached m.roots id := by
  have total : m.remaining ⟨m.roots, [], []⟩ =
      m.roots.length + (m.types.flatMap (·.nested)).length := by
    rw [remaining_mk, pending_nil]
  have whole : m.outcome ⟨m.roots, [], []⟩ = m.depthFirst ∅ m.roots := by
    rw [outcome, List.toFinset_nil, List.nil_append]
  have recursion : m.typeIds = m.depthFirst ∅ m.roots := by
    rw [← whole, ← (turns_end (Nat.le_of_eq total)).2, listed_turns, List.nil_append, typeIds]
  refine ⟨?_, recursion, nodup_typeIds m, fun id => mem_typeIds_iff⟩
  intro n enough
  obtain ⟨ended, listed⟩ := turns_end (Nat.le_trans (Nat.le_of_eq total) enough)
  rw [recursion, ← whole]
  exact ⟨ended, listed⟩

/-- Two types that list each other, themselves and an id beyond the image. -/
example : ({
    identity := { name := "Game" }
    types := [
      { name := "Ring", kind := .classType, flags := .isPublic, nested := [5, 1, 0] },
      { name := "Back", kind := .classType, flags := .isPublic, nested := [0, 1, 5] }]
    roots := [9, 1, 0, 1] } : Image).typeIds = [1, 0] := by rfl

end Companions.Image
