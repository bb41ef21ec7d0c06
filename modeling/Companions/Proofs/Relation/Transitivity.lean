import Companions.Proofs.Relation.Termination
import Companions.Proofs.Relation.Conformance
/-!
Transitivity of assignability. A check counts what it leaves out as nested too deep. One that leaves
nothing out misses nothing that conforms, so it finds what two other checks have found in two steps;
and nothing is left out where nothing that the check can come upon nests too deep.
-/
namespace Companions

namespace Verdict

/-- Nothing was left out. -/
def Whole (v : Verdict) : Prop := v.deepPairs = 0 ∧ v.deepTypes = 0

/-- What is said of a verdict can be put together from the verdicts it comes from. -/
structure Additive (P : Verdict → Prop) : Prop where
  settled (b : Bool) : P { holds := b }
  after {v w : Verdict} : P v → P w → P (v.after w)

theorem additive_deepPairs : Additive (·.deepPairs = 0) where
  settled _ := rfl
  after hv hw := by
    simp only [Verdict.after]
    omega

theorem additive_deepTypes : Additive (·.deepTypes = 0) where
  settled _ := rfl
  after hv hw := by
    simp only [Verdict.after]
    omega

theorem whole_after {v w : Verdict} : (v.after w).Whole ↔ w.Whole ∧ v.Whole := by
  simp only [Whole, after]
  omega

theorem whole_skipping {v : Verdict} {n : Nat} :
    ({ v with deepTypes := v.deepTypes + n } : Verdict).Whole ↔ v.Whole ∧ n = 0 := by
  simp only [Whole]
  omega

end Verdict

namespace Context
variable {c : Context}

/-! ## Arguments -/

section arguments

variable {check : TypeRef → TypeRef → Option Verdict} {rel : TypeRef → TypeRef → Prop}

theorem allPairs_complete {pairs : List (TypeRef × TypeRef)} {v : Verdict}
    (complete : ∀ p ∈ pairs, ∀ w, check p.1 p.2 = some w → w.Whole → rel p.1 p.2 → w.holds = true)
    (h : allPairs check pairs = some v) (whole : v.Whole) (fit : ∀ p ∈ pairs, rel p.1 p.2) :
    v.holds = true := by
  induction pairs generalizing v with
  | nil =>
      cases h
      rfl
  | cons p rest ih =>
      obtain ⟨first, others⟩ := List.forall_mem_cons.mp fit
      obtain ⟨w, hw, cases⟩ := allPairs_cons h
      rcases cases with ⟨-, u, hu, rfl⟩ | ⟨-, rfl⟩
      · have later : u.holds = true := ih (fun q hq => complete q (List.mem_cons_of_mem p hq)) hu
          (Verdict.whole_after.mp whole).2 others
        exact later
      · exact complete p List.mem_cons_self v hw whole first

theorem argumentsMatch_complete {s t : TypeRef} {v : Verdict}
    (complete : ∀ a ∈ s.arguments, ∀ b w, check a b = some w → w.Whole → rel a b → w.holds = true)
    (h : argumentsMatch check s t = some v) (whole : v.Whole) (fit : ArgumentsFit rel s t) :
    v.holds = true := by
  obtain ⟨element, some, length, pairs⟩ := fit
  rw [argumentsMatch, if_pos ⟨some, length, element⟩] at h
  exact allPairs_complete (fun p hp => complete p.1 (List.of_mem_zip hp).1 p.2) h whole pairs

variable {P : Verdict → Prop}

theorem allPairs_all (additive : Verdict.Additive P) {pairs : List (TypeRef × TypeRef)} {v : Verdict}
    (each : ∀ p ∈ pairs, ∀ w, check p.1 p.2 = some w → P w) (h : allPairs check pairs = some v) :
    P v := by
  induction pairs generalizing v with
  | nil =>
      cases h
      exact additive.settled true
  | cons p rest ih =>
      obtain ⟨first, others⟩ := List.forall_mem_cons.mp each
      obtain ⟨w, hw, cases⟩ := allPairs_cons h
      rcases cases with ⟨-, u, hu, rfl⟩ | ⟨-, rfl⟩
      · exact additive.after (ih others hu) (first w hw)
      · exact first v hw

theorem argumentsMatch_all (additive : Verdict.Additive P) {s t : TypeRef} {v : Verdict}
    (each : ∀ a ∈ s.arguments, ∀ b ∈ t.arguments, ∀ w, check a b = some w → P w)
    (h : argumentsMatch check s t = some v) : P v := by
  have fails : some { holds := false } = some v → P v := by
    rintro ⟨⟩
    exact additive.settled false
  cases s with
  | generic e as =>
      cases t with
      | generic f bs =>
          rw [argumentsMatch] at h
          split at h
          · refine allPairs_all additive (fun p hp => ?_) h
            obtain ⟨left, right⟩ := List.of_mem_zip hp
            exact each p.1 left p.2 right
          · exact fails h
      | _ => exact fails h
  | _ => exact fails h

end arguments

/-! ## What a check leaves out -/

theorem skipped_eq_zero_iff {t : TypeRef} :
    c.skipped t = 0 ↔ ∀ u, c.Inherits t u → u.nesting ≤ maxGenericDepth := by
  rw [skipped, List.length_eq_zero_iff, List.filter_eq_nil_iff]
  constructor
  · intro none u up
    simpa using none u up
  · intro shallow u up
    simpa using shallow u up

section walk

variable {target : TypeRef} {fits : TypeRef → Option Verdict} {budget : Nat} {visited : List String}
  {pending : List TypeRef} {v : Verdict}

/-- A walk stays within a class of references that is closed under supertypes. -/
theorem walk_all {P : Verdict → Prop} (additive : Verdict.Additive P) {Q : TypeRef → Prop}
    (up : ∀ t u, Q t → c.Supertype t u → Q u)
    (miss : ∀ t w, Q t → fits t = some w → P { w with deepTypes := w.deepTypes + c.skipped t })
    (fit : ∀ t w, Q t → fits t = some w → P w) (hp : ∀ t ∈ pending, Q t)
    (h : c.walk target fits budget visited pending = some v) : P v := by
  induction budget generalizing visited pending v with
  | zero =>
      cases pending with
      | nil =>
          cases h
          exact additive.settled false
      | cons t pending => cases h
  | succ n ih =>
      cases pending with
      | nil =>
          rw [walk] at h
          cases h
          exact additive.settled false
      | cons t pending =>
          obtain ⟨ht, hp⟩ := List.forall_mem_cons.mp hp
          obtain ⟨m, hm, step⟩ := walk_cons h
          obtain rfl := Nat.succ.inj hm
          cases step with
          | again old rest => exact ih hp rest
          | name same verdict =>
              subst verdict
              exact additive.settled true
          | fit found holds => exact fit t v ht found
          | miss new other missed fails verdict rest =>
              subst verdict
              refine additive.after (ih ?_ rest) (miss t _ ht missed)
              intro u hu
              rcases List.mem_append.mp hu with above | before
              · exact up t u ht (mem_next.mp above)
              · exact hp u before

/-- The answer on a reference, where nothing was left out for it. -/
def strictly (c : Context) (fits : TypeRef → Option Verdict) (t : TypeRef) : Option Verdict :=
  (fits t).filter fun w => w.deepPairs = 0 ∧ w.deepTypes = 0 ∧ c.skipped t = 0

theorem strictly_eq_some {t : TypeRef} {w : Verdict} :
    c.strictly fits t = some w ↔ fits t = some w ∧ w.Whole ∧ c.skipped t = 0 := by
  simp [strictly, Option.filter_eq_some_iff, Verdict.Whole, and_assoc]

/-- A walk that fails and leaves nothing out goes the same way if every answer is strict. -/
theorem walk_strictly (h : c.walk target fits budget visited pending = some v)
    (hv : v.holds = false) (whole : v.Whole) :
    c.walk target (c.strictly fits) budget visited pending = some v := by
  induction budget generalizing visited pending v with
  | zero =>
      cases pending with
      | nil => exact h
      | cons t pending => cases h
  | succ n ih =>
      cases pending with
      | nil =>
          rw [walk] at h ⊢
          exact h
      | cons t pending =>
          obtain ⟨m, hm, step⟩ := walk_cons h
          obtain rfl := Nat.succ.inj hm
          cases step with
          | again old rest =>
              rw [walk_again old]
              exact ih rest hv whole
          | name same verdict => exact absurd hv (by simp [verdict])
          | fit found holds => exact absurd hv (by simp [holds])
          | miss new other miss fails verdict rest =>
              subst verdict
              obtain ⟨here, later⟩ := Verdict.whole_after.mp whole
              obtain ⟨whole, none⟩ := Verdict.whole_skipping.mp here
              have strict := strictly_eq_some.mpr ⟨miss, whole, none⟩
              rw [walk_miss new other strict fails, ih rest hv later]
              rfl

end walk

/-- Where nothing that is reached inherits anything too deep, nothing deeper stands above. -/
theorem Above.reaches {s r : TypeRef} (shallow : ∀ t, c.Reaches s t → c.skipped t = 0)
    (run : c.Above s r) : c.Reaches s r := by
  induction run with
  | refl => exact .refl
  | tail _ step ih =>
      exact ih.tail (supertype_iff.mpr ⟨step, skipped_eq_zero_iff.mp (shallow _ ih) _ step⟩)

theorem skipped_congr {s t : TypeRef} (same : s.positional = t.positional)
    (none : c.skipped s = 0) : c.skipped t = 0 := by
  rw [skipped_eq_zero_iff] at none ⊢
  intro u up
  obtain ⟨v, above, bound⟩ := Inherits.congr up same.symm
  rw [← TypeRef.nesting_positional, bound, TypeRef.nesting_positional]
  exact none v above

/-- A check that leaves nothing out holds for whatever conforms. -/
theorem holds_of_conforms (hc : c.isPlain) {budget n : Nat} {s t : TypeRef} (hs : s.isPlain)
    {v : Verdict} (h : c.checkAt budget n s t = some v) (whole : v.Whole)
    (conforms : c.Conforms s t) : v.holds = true := by
  induction n generalizing s t v with
  | zero =>
      cases h
      cases whole.1
  | succ n ih =>
      cases hv : v.holds with
      | true => rfl
      | false =>
          obtain ⟨all, inv, met⟩ := walk_met hc hs (walk_strictly h hv whole) hv
          have answer (u : TypeRef) (hu : u ∈ all) : u.uniqueName ≠ t.uniqueName ∧ c.skipped u = 0 ∧
              ∃ w, argumentsMatch (c.checkAt budget n) u t = some w ∧ w.Whole ∧ w.holds = false := by
            obtain ⟨other, w, strict, fails⟩ := inv.missed u hu
            obtain ⟨found, whole, none⟩ := strictly_eq_some.mp strict
            exact ⟨other, none, w, found, whole, fails⟩
          have shallow (r : TypeRef) (run : c.Reaches s r) : c.skipped r = 0 := by
            obtain ⟨u, hu, same⟩ := met r run
            exact skipped_congr same (answer u hu).2.1
          obtain ⟨r, run, found⟩ := conforms_iff.mp conforms
          obtain ⟨u, hu, same⟩ := met r (run.reaches shallow)
          obtain ⟨other, -, w, matched, complete, fails⟩ := answer u hu
          rcases found with name | fit
          · exact absurd ((uniqueName_congr same).trans name) other
          · have fit : ArgumentsFit c.Conforms u t :=
              fit.congr same.symm fun _ _ _ conforms names => conforms.congr names rfl
            have holds := argumentsMatch_complete
              (fun a ha b w => ih (TypeRef.isPlain_arguments (inv.plain u hu) ha)) matched complete fit
            rw [fails] at holds
            cases holds

/-! ## What a check can come upon -/

/-- A reference that a check of `s` can come upon: with each also what it inherits and its
arguments. -/
inductive Meets (c : Context) (s : TypeRef) : TypeRef → Prop where
  | start : Meets c s s
  | up {r u : TypeRef} (h : Meets c s r) (step : c.Inherits r u) : Meets c s u
  | argument {r a : TypeRef} (h : Meets c s r) (mem : a ∈ r.arguments) : Meets c s a

/-- What is met stays within what is closed under both. -/
theorem Meets.mem {within : List TypeRef}
    (closed : ∀ r ∈ within, ∀ u ∈ c.supertypes r ++ r.arguments, u ∈ within) {s r : TypeRef}
    (hs : s ∈ within) (h : c.Meets s r) : r ∈ within := by
  induction h with
  | start => exact hs
  | up _ step ih => exact closed _ ih _ (List.mem_append_left _ step)
  | argument _ mem ih => exact closed _ ih _ (List.mem_append_right _ mem)

theorem Meets.trans {s r u : TypeRef} (h : c.Meets s r) (h' : c.Meets r u) : c.Meets s u := by
  induction h' with
  | start => exact h
  | up _ step ih => exact ih.up step
  | argument _ mem ih => exact ih.argument mem

/-- No pair of arguments is left out if the target nests no deeper than there are levels. -/
theorem checkAt_deepPairs {budget n : Nat} {s t : TypeRef} {v : Verdict} (deep : t.nesting < n)
    (h : c.checkAt budget n s t = some v) : v.deepPairs = 0 := by
  induction n generalizing s t v with
  | zero => cases deep
  | succ n ih =>
      have inner (r : TypeRef) (w : Verdict)
          (found : argumentsMatch (c.checkAt budget n) r t = some w) : w.deepPairs = 0 := by
        refine argumentsMatch_all Verdict.additive_deepPairs (fun a ha b hb w found => ?_) found
        refine ih ?_ found
        exact Nat.lt_of_lt_of_le (TypeRef.nesting_arguments hb) (Nat.le_of_lt_succ deep)
      exact walk_all Verdict.additive_deepPairs (Q := fun _ => True) (fun _ _ _ _ => trivial)
        (fun r w _ => inner r w) (fun r w _ => inner r w) (fun _ _ => trivial) h

/-- No supertype is left out if nothing that the check can come upon nests too deep. -/
theorem checkAt_deepTypes {budget n : Nat} {s t : TypeRef} {v : Verdict}
    (shallow : ∀ r, c.Meets s r → r.nesting ≤ maxGenericDepth)
    (h : c.checkAt budget n s t = some v) : v.deepTypes = 0 := by
  induction n generalizing s t v with
  | zero =>
      cases h
      rfl
  | succ n ih =>
      have inner (r : TypeRef) (w : Verdict) (met : c.Meets s r)
          (found : argumentsMatch (c.checkAt budget n) r t = some w) : w.deepTypes = 0 := by
        refine argumentsMatch_all Verdict.additive_deepTypes (fun a ha b _ w found => ?_) found
        exact ih (fun x hx => shallow x ((met.argument ha).trans hx)) found
      refine walk_all Verdict.additive_deepTypes (Q := c.Meets s)
        (fun r u met step => met.up step.inherits) (fun r w met found => ?_) inner
        (List.forall_mem_singleton.mpr .start) h
      have none : c.skipped r = 0 := skipped_eq_zero_iff.mpr fun u step => shallow u (met.up step)
      simp only [inner r w met found, none]

/-! ## Transitivity -/

/-- Where no declaration puts an array around a parameter, a plain reference that fits what fits a
third fits the third: the check ends, and it holds unless it leaves something out. No pair of
arguments is left out if the third does not nest too deep, and no supertype if nothing that the
check can come upon does. -/
theorem assignable_trans (hc : c.isPlain) (arrays : ∀ d ∈ c.declared, d.keepsArrays)
    {s t u : TypeRef} (hs : s.isPlain) (ht : t.isPlain) (hu : u.isPlain)
    (lower : ∃ budget v, c.assignable? budget s t = some v ∧ v.holds = true)
    (upper : ∃ budget v, c.assignable? budget t u = some v ∧ v.holds = true) :
    ∃ budget v, c.assignable? budget s u = some v ∧
      (v.deepPairs = 0 → v.deepTypes = 0 → v.holds = true) ∧
      (u.nesting ≤ maxGenericDepth → v.deepPairs = 0) ∧
      ((∀ r, c.Meets s r → r.nesting ≤ maxGenericDepth) → v.deepTypes = 0) := by
  have conforms {a b : TypeRef} (ha : a.isPlain)
      (h : ∃ budget v, c.assignable? budget a b = some v ∧ v.holds = true) : c.Conforms a b := by
    obtain ⟨budget, v, check, holds⟩ := h
    exact ((checkAt_holds_iff_fits (d := 0) hc ha check).mp holds).conforms
  have both := (conforms hs lower).trans hc arrays hs ht hu (conforms ht upper)
  obtain ⟨budget, v, check⟩ := (assignable_ends_iff c).1 (arrayBounded_of_keepsArrays arrays) s u
  refine ⟨budget, v, check, ?_, ?_, ?_⟩
  · exact fun pairs types => holds_of_conforms hc hs check ⟨pairs, types⟩ both
  · exact fun deep => checkAt_deepPairs (Nat.lt_succ_of_le deep) check
  · exact fun shallow => checkAt_deepTypes shallow check

/-- A list of numerals is a sequence of numerals, and so a sequence of numbers. -/
theorem numberLists_trans : ∃ budget v,
    numberLists.assignable? budget (.generic (.named "Game" "List") [.named "Game" "Numeral"])
      (.generic (.named "Game" "Seq") [.named "Game" "Number"]) = some v ∧ v.holds = true := by
  let lists : TypeRef := .generic (.named "Game" "List") [.named "Game" "Numeral"]
  let middle : TypeRef := .generic (.named "Game" "Seq") [.named "Game" "Numeral"]
  let numbers : TypeRef := .generic (.named "Game" "Seq") [.named "Game" "Number"]
  let within := [lists, middle, .named "Game" "Numeral", .named "Game" "Number"]
  obtain ⟨budget, v, check, holds, pairs, types⟩ :=
    @assignable_trans numberLists (by decide +kernel) (by decide +kernel) lists middle numbers
      (by decide +kernel) (by decide +kernel) (by decide +kernel)
      ⟨3, { holds := true }, by decide +kernel, rfl⟩ ⟨3, { holds := true }, by decide +kernel, rfl⟩
  have closed : ∀ r ∈ within, ∀ u ∈ numberLists.supertypes r ++ r.arguments, u ∈ within := by
    decide +kernel
  have bounded : ∀ r ∈ within, r.nesting ≤ maxGenericDepth := by decide +kernel
  have shallow (r) (met : numberLists.Meets lists r) : r.nesting ≤ maxGenericDepth :=
    bounded r (met.mem closed List.mem_cons_self)
  exact ⟨budget, v, check, holds (pairs (by decide +kernel)) (types shallow)⟩

end Context
end Companions
