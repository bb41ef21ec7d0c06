import Companions.Proofs.Pass
import Companions.Proofs.Relation.Decision
/-!
Budgets and verdicts. A larger budget finds no other verdict, it only finds more of them, so whether
one type is assignable to another is a matter of the two types and not of the budget.
-/
namespace Companions

/-- Every verdict of the one check is a verdict of the other. -/
def Refines (check check' : TypeRef → TypeRef → Option Verdict) : Prop :=
  ∀ s t v, check s t = some v → check' s t = some v

section arguments

variable {check check' : TypeRef → TypeRef → Option Verdict}

theorem allPairs_refines (h : Refines check check') {pairs : List (TypeRef × TypeRef)} {v : Verdict}
    (found : allPairs check pairs = some v) : allPairs check' pairs = some v := by
  induction pairs generalizing v with
  | nil => exact found
  | cons p rest ih =>
      obtain ⟨s, t⟩ := p
      obtain ⟨w, first, ⟨holds, u, others, rfl⟩ | ⟨fails, rfl⟩⟩ := Context.allPairs_cons found
      · rw [allPairs, h s t w first]
        simp [holds, ih others]
      · rw [allPairs, h s t v first]
        simp [fails]

theorem argumentsMatch_refines (h : Refines check check') :
    Refines (argumentsMatch check) (argumentsMatch check') := by
  intro s t v found
  cases s with
  | generic e as =>
      cases t with
      | generic f bs =>
          rw [argumentsMatch] at found ⊢
          by_cases same : as ≠ [] ∧ as.length = bs.length ∧ e.uniqueName = f.uniqueName
          · rw [if_pos same] at found ⊢
            exact allPairs_refines h found
          · rw [if_neg same] at found ⊢
            exact found
      | _ => exact found
  | _ => exact found

end arguments

namespace Context

variable {c : Context}

theorem walk_mono {target : TypeRef} {fits fits' : TypeRef → Option Verdict}
    (more : ∀ t v, fits t = some v → fits' t = some v) {n n' : Nat} (le : n ≤ n')
    {visited : List String} {pending : List TypeRef} {v : Verdict}
    (h : c.walk target fits n visited pending = some v) :
    c.walk target fits' n' visited pending = some v := by
  induction n' generalizing n visited pending v with
  | zero =>
      obtain rfl := Nat.le_zero.mp le
      cases pending with
      | nil => exact h
      | cons => cases h
  | succ n' ih =>
      cases pending with
      | nil =>
          cases n <;> exact h
      | cons t pending =>
          obtain ⟨n, rfl, step⟩ := walk_cons h
          have le := Nat.le_of_succ_le_succ le
          by_cases old : t.uniqueName ∈ visited
          · rw [walk_again old] at h ⊢
            exact ih le h
          by_cases same : t.uniqueName = target.uniqueName
          · rw [walk_name old same] at h ⊢
            exact h
          cases step with
          | again met => exact absurd met old
          | name met => exact absurd met same
          | fit fit holds => exact walk_fit old same (more t v fit) holds
          | miss _ _ miss fails verdict rest =>
              rw [walk_miss old same (more t _ miss) fails, ih le rest, verdict]
              rfl

theorem checkAt_mono {n n' : Nat} (le : n ≤ n') (levels : Nat) :
    Refines (c.checkAt n levels) (c.checkAt n' levels) := by
  induction levels with
  | zero => exact fun _ _ _ h => h
  | succ k ih => exact fun s t v h => walk_mono (fun u w => argumentsMatch_refines ih u t w) le h

theorem assignable?_mono {n n' : Nat} (le : n ≤ n') :
    Refines (c.assignable? n) (c.assignable? n') :=
  checkAt_mono le _

/-- Two budgets that find verdicts find one. -/
theorem assignable?_unique {n n' : Nat} {s t : TypeRef} {v w : Verdict}
    (h : c.assignable? n s t = some v) (h' : c.assignable? n' s t = some w) : v = w := by
  have first := assignable?_mono (Nat.le_max_left n n') s t v h
  have second := assignable?_mono (Nat.le_max_right n n') s t w h'
  exact Option.some.inj (first.symm.trans second)

/-- Some check of `s` against `t` ends and holds. -/
def Assignable (c : Context) (s t : TypeRef) : Prop :=
  ∃ budget v, c.assignable? budget s t = some v ∧ v.holds = true

theorem holds_iff_assignable {budget : Nat} {s t : TypeRef} {v : Verdict}
    (h : c.assignable? budget s t = some v) : v.holds = true ↔ c.Assignable s t := by
  constructor
  · exact fun holds => ⟨budget, v, h, holds⟩
  · rintro ⟨budget', w, h', holds⟩
    rw [assignable?_unique h h']
    exact holds

/-- Some check of `s` against `t` ends and does not hold. -/
def Unassignable (c : Context) (s t : TypeRef) : Prop :=
  ∃ budget v, c.assignable? budget s t = some v ∧ v.holds = false

theorem Unassignable.not {s t : TypeRef} (h : c.Unassignable s t) : ¬ c.Assignable s t := by
  obtain ⟨budget, v, found, fails⟩ := h
  rw [← holds_iff_assignable found, fails]
  exact Bool.false_ne_true

variable {ε : Type}

theorem assignable_done {budget : Nat} {s t : TypeRef} {holds : Bool}
    (h : (c.assignable budget s t : Pass ε Bool).result = .done holds) :
    holds = true ↔ c.Assignable s t := by
  rw [assignable] at h
  split at h
  · cases h
  · next v found =>
      obtain rfl := Attempt.done.inj h
      exact holds_iff_assignable found

/-- A check never fails; it ends in a value or uses up its budget. -/
theorem assignable_result (budget : Nat) (s t : TypeRef) :
    (c.assignable budget s t : Pass ε Bool).result =
      ((c.assignable? budget s t).map fun v => Attempt.done v.holds).getD .unfinished := by
  rw [assignable]
  split
  · next none => rw [none]; rfl
  · next v found => rw [found]; rfl

theorem assignable_not_failed (budget : Nat) (s t : TypeRef) (e : ε) :
    (c.assignable budget s t : Pass ε Bool).result ≠ .failed e := by
  rw [assignable_result]
  cases c.assignable? budget s t <;> exact nofun

end Context
end Companions
