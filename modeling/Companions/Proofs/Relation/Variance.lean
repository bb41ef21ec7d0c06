import Companions.Proofs.Relation.Ancestry
import Companions.Proofs.Relation.Transitivity
/-!
Instances of one generic. An instance is assignable to another one exactly if its arguments are
assignable to the other's, in pairs, where nothing else that stands above it is an instance of the
same generic. A check looks at arguments with one level less, but the number of levels makes no
difference as long as it is larger than the nesting of the target: arguments are checked as they
would be on their own.
-/
namespace Companions

/-! ## Arguments -/

section arguments

variable {check check' : TypeRef → TypeRef → Option Verdict}

theorem allPairs_congr {pairs : List (TypeRef × TypeRef)}
    (same : ∀ p ∈ pairs, check p.1 p.2 = check' p.1 p.2) :
    allPairs check pairs = allPairs check' pairs := by
  induction pairs with
  | nil => rfl
  | cons p rest ih =>
      obtain ⟨first, others⟩ := List.forall_mem_cons.mp same
      rw [allPairs, allPairs, first, ih others]

theorem argumentsMatch_congr {s t : TypeRef}
    (same : ∀ a ∈ s.arguments, ∀ b ∈ t.arguments, check a b = check' a b) :
    argumentsMatch check s t = argumentsMatch check' s t := by
  cases s with
  | generic e as =>
      cases t with
      | generic f bs =>
          rw [argumentsMatch, argumentsMatch, allPairs_congr]
          intro p hp
          obtain ⟨left, right⟩ := List.of_mem_zip hp
          exact same p.1 left p.2 right
      | _ => rfl
  | _ => rfl

/-- All pairs pass exactly if each of them passes on its own. -/
theorem allPairs_passes_iff {pairs : List (TypeRef × TypeRef)} :
    (∃ v, allPairs check pairs = some v ∧ v.holds = true) ↔
      ∀ p ∈ pairs, ∃ w, check p.1 p.2 = some w ∧ w.holds = true := by
  induction pairs with
  | nil => exact iff_of_true ⟨_, rfl, rfl⟩ nofun
  | cons p rest ih =>
      rw [List.forall_mem_cons, ← ih]
      constructor
      · rintro ⟨v, found, holds⟩
        obtain ⟨w, first, ⟨passes, u, others, rfl⟩ | ⟨fails, rfl⟩⟩ := Context.allPairs_cons found
        · exact ⟨⟨w, first, passes⟩, u, others, holds⟩
        · rw [fails] at holds
          cases holds
      · rintro ⟨⟨w, first, passes⟩, u, others, holds⟩
        refine ⟨u.after w, ?_, holds⟩
        rw [allPairs, first]
        simp [passes, others]

theorem argumentsMatch_instances {e : TypeRef} {as bs : List TypeRef} (some : as ≠ [])
    (length : as.length = bs.length) :
    argumentsMatch check (.generic e as) (.generic e bs) = allPairs check (as.zip bs) := by
  rw [argumentsMatch, if_pos ⟨some, length, rfl⟩]

end arguments

namespace Context
variable {c : Context}

/-! ## Levels -/

/-- Levels beyond the nesting of the target make no difference. -/
theorem checkAt_levels {budget n m : Nat} {s t : TypeRef} (hn : t.nesting < n) (hm : t.nesting < m) :
    c.checkAt budget n s t = c.checkAt budget m s t := by
  induction n generalizing m s t with
  | zero => cases hn
  | succ n ih =>
      cases m with
      | zero => cases hm
      | succ m =>
          rw [checkAt, checkAt]
          congr 1
          funext r
          apply argumentsMatch_congr
          intro a _ b hb
          have inner := TypeRef.nesting_arguments hb
          exact ih (by omega) (by omega)

/-- Arguments that are checked within an instance are checked as they are on their own. -/
theorem allPairs_levels {budget : Nat} {as bs : List TypeRef}
    (shallow : ∀ b ∈ bs, b.nesting < maxGenericDepth) :
    allPairs (c.checkAt budget maxGenericDepth) (as.zip bs) =
      allPairs (c.assignable? budget) (as.zip bs) := by
  apply allPairs_congr
  intro p hp
  have inner := shallow p.2 (List.of_mem_zip hp).2
  exact checkAt_levels inner (Nat.lt_succ_of_lt inner)

/-! ## Instances -/

/-- Nothing above the type but the type itself is an instance of the same generic. -/
def OnlyInstance (c : Context) (t : TypeRef) : Prop :=
  ∀ u, c.Reaches t u → u.isGeneric → u.definitionName = t.definitionName →
    u.uniqueName = t.uniqueName

/-- It is enough to look at finitely many types that no step leads out of. -/
theorem onlyInstance_of_closed {t : TypeRef} (within : List TypeRef)
    (closed : ∀ r ∈ within, ∀ u ∈ c.supertypes r, u ∈ within) (ht : t ∈ within)
    (alone : ∀ u ∈ within, u.isGeneric → u.definitionName = t.definitionName →
      u.uniqueName = t.uniqueName) : c.OnlyInstance t := by
  intro u run
  apply alone
  induction run with
  | refl => exact ht
  | tail _ step ih => exact closed _ ih _ step.inherits

theorem isGeneric_positional (t : TypeRef) : t.positional.isGeneric = t.isGeneric := by
  cases t <;> rfl

/-- Only an instance of the same generic fits an instance, be it by name or by arguments. -/
theorem instance_of_fits {check : TypeRef → TypeRef → Option Verdict} {r t : TypeRef}
    (hr : r.isPlain) (ht : t.isPlain) (generic : t.isGeneric)
    (found : r.uniqueName = t.uniqueName ∨ ∃ w, argumentsMatch check r t = some w ∧ w.holds = true) :
    r.isGeneric ∧ r.definitionName = t.definitionName := by
  rcases found with same | ⟨w, fit, holds⟩
  · constructor
    · rw [← isGeneric_positional, TypeRef.positional_eq_of_uniqueName_eq hr ht same,
        isGeneric_positional]
      exact generic
    · exact definitionName_eq hr ht same
  · constructor
    · cases r with
      | generic e as => rfl
      | _ =>
          cases fit
          cases holds
    · by_contra other
      rw [argumentsMatch_of_ne other] at fit
      cases fit
      cases holds

theorem assignable_of_uniqueName_eq {s t : TypeRef} (same : s.uniqueName = t.uniqueName) :
    c.Assignable s t := by
  refine ⟨1, { holds := true }, ?_, rfl⟩
  rw [assignable?, checkAt]
  exact walk_name List.not_mem_nil same

/-- Instances of one name have arguments of one name. -/
theorem arguments_of_uniqueName_eq {e : TypeRef} {as bs : List TypeRef}
    (plain : (TypeRef.generic e as).isPlain) (plain' : (TypeRef.generic e bs).isPlain)
    (same : (TypeRef.generic e as).uniqueName = (TypeRef.generic e bs).uniqueName) :
    ∀ p ∈ as.zip bs, p.1.uniqueName = p.2.uniqueName := by
  have alike := TypeRef.positional_eq_of_uniqueName_eq plain plain' same
  rw [TypeRef.positional_generic, TypeRef.positional_generic] at alike
  have arguments : as.map TypeRef.positional = bs.map TypeRef.positional :=
    (TypeRef.generic.inj alike).2
  intro p hp
  obtain ⟨i, inside, rfl⟩ := List.mem_iff_getElem.mp hp
  rw [List.length_zip] at inside
  have pair := List.getElem_of_eq arguments (i := i) (by rw [List.length_map]; omega)
  rw [List.getElem_map, List.getElem_map] at pair
  rw [List.getElem_zip]
  exact uniqueName_congr pair

section instances

variable (hc : c.isPlain) {e : TypeRef} {as bs : List TypeRef} (plain : (TypeRef.generic e as).isPlain)
  (plain' : (TypeRef.generic e bs).isPlain) (length : as.length = bs.length)
  (shallow : ∀ b ∈ bs, b.nesting < maxGenericDepth) (only : c.OnlyInstance (.generic e as))

include hc plain plain' length shallow only in
/-- What an instance is found to be assignable to, it is assignable to by its arguments: anything
else that fits would have to be an instance again. -/
theorem arguments_of_assignable (h : c.Assignable (.generic e as) (.generic e bs)) :
    ∀ p ∈ as.zip bs, c.Assignable p.1 p.2 := by
  obtain ⟨budget, v, check, holds⟩ := h
  rw [assignable?, checkAt] at check
  obtain ⟨budget, rfl, step⟩ := walk_cons check
  cases step with
  | again old => cases old
  | name same =>
      intro p hp
      exact assignable_of_uniqueName_eq (arguments_of_uniqueName_eq plain plain' same p hp)
  | fit fit =>
      have some : as ≠ [] := (TypeRef.isPlain_generic.mp plain).2.1
      rw [argumentsMatch_instances some length, allPairs_levels shallow] at fit
      intro p hp
      exact ⟨_, allPairs_passes_iff.mp ⟨v, fit, holds⟩ p hp⟩
  | miss _ _ _ _ verdict rest =>
      subst verdict
      obtain ⟨t, ht, r, run, fresh, found⟩ := walk_sound rest holds
      rw [List.append_nil] at ht
      have above : c.Reaches (.generic e as) r := .head (mem_next.mp ht) run
      obtain ⟨generic, definition⟩ := instance_of_fits (above.plain hc plain) plain' rfl found
      exact absurd (only r above generic definition) (List.ne_of_not_mem_cons fresh)

include plain length shallow in
theorem assignable_of_arguments (h : ∀ p ∈ as.zip bs, c.Assignable p.1 p.2) :
    c.Assignable (.generic e as) (.generic e bs) := by
  have later : ∀ p ∈ as.zip bs, ∃ n, ∀ m ≥ n, ∃ w, c.assignable? m p.1 p.2 = some w ∧
      w.holds = true := by
    intro p hp
    obtain ⟨n, w, found, holds⟩ := h p hp
    exact ⟨n, fun m more => ⟨w, assignable?_mono more p.1 p.2 w found, holds⟩⟩
  obtain ⟨n, all⟩ := eventually_all later
  have some : as ≠ [] := (TypeRef.isPlain_generic.mp plain).2.1
  obtain ⟨v, fit, holds⟩ := allPairs_passes_iff.mpr (all (n + 1) (Nat.le_succ n))
  rw [← allPairs_levels shallow, ← argumentsMatch_instances (e := e) some length] at fit
  by_cases same : (TypeRef.generic e as).uniqueName = (TypeRef.generic e bs).uniqueName
  · exact assignable_of_uniqueName_eq same
  · refine ⟨n + 1, v, ?_, holds⟩
    rw [assignable?, checkAt]
    exact walk_fit List.not_mem_nil same fit holds

end instances

/-- An instance above which there is no other instance of the same generic is assignable to an
instance that does not nest too deep exactly if each argument is assignable to its partner; and where
the checks end, their verdicts say so. -/
theorem assignable_instances_iff (hc : c.isPlain) {e : TypeRef} {as bs : List TypeRef}
    (plain : (TypeRef.generic e as).isPlain) (plain' : (TypeRef.generic e bs).isPlain)
    (length : as.length = bs.length) (shallow : ∀ b ∈ bs, b.nesting < maxGenericDepth)
    (only : c.OnlyInstance (.generic e as)) :
    (c.Assignable (.generic e as) (.generic e bs) ↔ ∀ p ∈ as.zip bs, c.Assignable p.1 p.2) ∧
    ∀ budget v (verdict : TypeRef × TypeRef → Verdict),
      c.assignable? budget (.generic e as) (.generic e bs) = some v →
      (∀ p ∈ as.zip bs, ∃ n, c.assignable? n p.1 p.2 = some (verdict p)) →
      (v.holds = true ↔ ∀ p ∈ as.zip bs, (verdict p).holds = true) := by
  have exact' : c.Assignable (.generic e as) (.generic e bs) ↔
      ∀ p ∈ as.zip bs, c.Assignable p.1 p.2 :=
    ⟨arguments_of_assignable hc plain plain' length shallow only,
      assignable_of_arguments plain length shallow⟩
  refine ⟨exact', ?_⟩
  intro budget v verdict check checks
  rw [holds_iff_assignable check, exact']
  apply forall₂_congr
  intro p hp
  obtain ⟨n, found⟩ := checks p hp
  rw [holds_iff_assignable found]

/-- A list of lists of numerals is a list of sequences of numbers, but not the other way round. -/
theorem numberLists_instances :
    let list (t : TypeRef) : TypeRef := .generic (.named "Game" "List") [t]
    let lists : TypeRef := list (list (.named "Game" "Numeral"))
    let seqs : TypeRef := list (.generic (.named "Game" "Seq") [.named "Game" "Number"])
    numberLists.OnlyInstance lists ∧ numberLists.OnlyInstance seqs ∧
      numberLists.Assignable lists seqs ∧ ¬ numberLists.Assignable seqs lists := by
  intro list lists seqs
  have plain : numberLists.isPlain ∧ lists.isPlain ∧ seqs.isPlain := by decide +kernel
  have only : numberLists.OnlyInstance lists := by
    apply onlyInstance_of_closed
      [lists, .generic (.named "Game" "Seq") [list (.named "Game" "Numeral")]]
    · decide +kernel
    · exact List.mem_cons_self
    · decide +kernel
  have only' : numberLists.OnlyInstance seqs := by
    apply onlyInstance_of_closed [seqs, .generic (.named "Game" "Seq")
      [.generic (.named "Game" "Seq") [.named "Game" "Number"]]]
    · decide +kernel
    · exact List.mem_cons_self
    · decide +kernel
  have upward := (assignable_instances_iff plain.1 plain.2.1 plain.2.2 rfl (by decide +kernel) only).1
  have downward :=
    (assignable_instances_iff plain.1 plain.2.2 plain.2.1 rfl (by decide +kernel) only').1
  refine ⟨only, only', upward.mpr ?_, ?_⟩
  · intro p hp
    obtain rfl := List.mem_singleton.mp hp
    exact ⟨3, { holds := true }, by decide +kernel, rfl⟩
  · intro fit
    have pair := downward.mp fit _ List.mem_cons_self
    have check : numberLists.assignable? 1 (.generic (.named "Game" "Seq") [.named "Game" "Number"])
        (list (.named "Game" "Numeral")) = some { holds := false } := by decide +kernel
    have holds := (holds_iff_assignable check).mpr pair
    cases holds

end Context
end Companions
