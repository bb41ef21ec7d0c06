import Companions.Proofs.Idle
import Companions.Proofs.Relation.Budget
/-!
Which types lack a companion. A type of the index is a source if it is assignable to one of the
contracts, and it is accompanied if some type of the index has the template or a recognized one
bound to it in its base chain. A companion pass selects the sources that nothing accompanies, in the
order of the index.
-/
namespace Companions

/-! ## Selections -/

namespace Pass

variable {ε α β : Type} {test : α → Pass ε Bool}

open scoped Classical in
theorem select_eq_filter {P : α → Prop}
    (decides : ∀ a r, (test a).result = .done r → (r = true ↔ P a)) {as bs : List α}
    (h : (select test as).result = .done bs) : bs = as.filter fun a => P a := by
  induction as generalizing bs with
  | nil => exact (Attempt.done.inj h).symm
  | cons a as ih =>
      obtain ⟨keep, tested, h⟩ := bind_eq_done.mp h
      obtain ⟨rest, others, h⟩ := bind_eq_done.mp h
      obtain rfl := Attempt.done.inj h
      have own := decides a keep tested
      rw [List.filter_cons, ← ih others]
      cases keep <;> simp_all

theorem forAll_done {f : α → Pass ε β} {g : α → β} (each : ∀ a, (f a).result = .done (g a))
    (as : List α) : (forAll f as).result = .done (as.map g) := by
  induction as with
  | nil => rfl
  | cons a as ih =>
      rw [forAll, result_bind, each, Attempt.bind_done, result_bind, ih]
      rfl

open scoped Classical in
theorem first?_eq_find? {P : α → Prop}
    (decides : ∀ a r, (test a).result = .done r → (r = true ↔ P a)) {as : List α} {o : Option α}
    (h : (first? test as).result = .done o) : o = as.find? fun a => P a := by
  induction as with
  | nil => exact (Attempt.done.inj h).symm
  | cons a as ih =>
      obtain ⟨passes, tested, h⟩ := bind_eq_done.mp h
      have own := decides a passes tested
      cases passes with
      | true =>
          obtain rfl := Attempt.done.inj h
          rw [List.find?_cons_of_pos (by simpa using own.mp rfl)]
      | false =>
          have fails : ¬ P a := fun holds => nomatch own.mpr holds
          rw [List.find?_cons_of_neg (by simpa using fails), ih h]

theorem first?_isSome {P : α → Prop}
    (decides : ∀ a r, (test a).result = .done r → (r = true ↔ P a)) {as : List α} {o : Option α}
    (h : (first? test as).result = .done o) : o.isSome = true ↔ ∃ a ∈ as, P a := by
  classical
  rw [first?_eq_find? decides h, List.find?_isSome]
  simp only [decide_eq_true_eq]

/-! How selections do not end in a value: as one of their tests does. -/

theorem first?_ends {as : List α} (ends : ∀ a ∈ as, ∃ r, (test a).result = .done r) :
    ∃ o, (first? test as).result = .done o := by
  induction as with
  | nil => exact ⟨none, rfl⟩
  | cons a as ih =>
      obtain ⟨⟨passes, own⟩, others⟩ := List.forall_mem_cons.mp ends
      rw [first?, result_bind, own]
      cases passes with
      | true => exact ⟨_, rfl⟩
      | false => exact ih others

theorem first?_failed {as : List α} {e : ε} (h : (first? test as).result = .failed e) :
    ∃ a ∈ as, (test a).result = .failed e := by
  induction as with
  | nil => cases h
  | cons a as ih =>
      obtain own | ⟨passes, -, h⟩ := bind_eq_failed.mp h
      · exact ⟨a, List.mem_cons_self, own⟩
      · cases passes with
        | true => cases h
        | false =>
            obtain ⟨b, hb, failed⟩ := ih h
            exact ⟨b, List.mem_cons_of_mem a hb, failed⟩

theorem select_ends {as : List α} (ends : ∀ a ∈ as, ∃ r, (test a).result = .done r) :
    ∃ bs, (select test as).result = .done bs := by
  induction as with
  | nil => exact ⟨[], rfl⟩
  | cons a as ih =>
      obtain ⟨⟨keep, own⟩, others⟩ := List.forall_mem_cons.mp ends
      obtain ⟨rest, selected⟩ := ih others
      rw [select, result_bind, own, Attempt.bind_done, result_bind, selected]
      exact ⟨_, rfl⟩

theorem select_failed {as : List α} {e : ε} (h : (select test as).result = .failed e) :
    ∃ a ∈ as, (test a).result = .failed e := by
  induction as with
  | nil => cases h
  | cons a as ih =>
      obtain own | ⟨keep, -, h⟩ := bind_eq_failed.mp h
      · exact ⟨a, List.mem_cons_self, own⟩
      · obtain others | ⟨rest, -, h⟩ := bind_eq_failed.mp h
        · obtain ⟨b, hb, failed⟩ := ih others
          exact ⟨b, List.mem_cons_of_mem a hb, failed⟩
        · cases h

end Pass

/-! ## Sources and their companions -/

namespace Context

variable {c : Context} {budget : Nat} {x : Index} {q : CompanionRequest}

/-- The search for a contract of the request that the type is assignable to. -/
def contract? (c : Context) (budget : Nat) (q : CompanionRequest) (t : TypeRef) :
    Pass SynthesisError (Option TypeRef) :=
  Pass.first? (fun contract => c.assignable budget t contract) q.contracts

/-- The type is assignable to a contract of the request. -/
def IsSource (c : Context) (q : CompanionRequest) (t : TypeRef) : Prop :=
  ∃ contract ∈ q.contracts, c.Assignable t contract

/-- In the base chain of `s` the template or a recognized one is bound to a type named as `t`. -/
def Accompanies (c : Context) (q : CompanionRequest) (s t : TypeRef) : Prop :=
  ∃ base ∈ (c.baseChain s).items, ∃ argument, base.arguments = [argument] ∧
    argument.uniqueName = t.uniqueName ∧
    ∃ template ∈ q.recognized ++ [q.template], template.definitionName = base.definitionName

/-- The node is a source, and no type of the index accompanies it. -/
structure Lacks (c : Context) (x : Index) (q : CompanionRequest) (id : TypeId) : Prop where
  source : c.IsSource q (c.target.referenceTo id)
  alone : ∀ i ∈ x.ids, ¬ c.Accompanies q (c.target.referenceTo i) (c.target.referenceTo id)

/-- The node and the reference to it, as a pass carries its sources. -/
def sourceOf (c : Context) (id : TypeId) : TypeId × TypeRef := (id, c.target.referenceTo id)

open scoped Classical in
/-- Those of the nodes that lack a companion, in order. -/
noncomputable def lacking (c : Context) (x : Index) (q : CompanionRequest) (ids : List TypeId) :
    List (TypeId × TypeRef) := (ids.filter fun id => c.Lacks x q id).map c.sourceOf

theorem mem_lacking {ids : List TypeId} {s : TypeId × TypeRef} :
    s ∈ c.lacking x q ids ↔ ∃ id ∈ ids, c.Lacks x q id ∧ s = c.sourceOf id := by
  simp [lacking, and_assoc, eq_comm]

/-- The search finds a contract exactly if the type is a source. -/
theorem contract?_isSome {t : TypeRef} {o : Option TypeRef}
    (searched : (c.contract? budget q t).result = .done o) : o.isSome = true ↔ c.IsSource q t :=
  Pass.first?_isSome (fun _ _ => assignable_done) searched

open scoped Classical in
theorem sources_done {found : List (TypeId × TypeRef)}
    (h : (c.sources budget x q).result = .done found) :
    found = (x.ids.filter fun id => c.IsSource q (c.target.referenceTo id)).map c.sourceOf := by
  have decides (s : TypeId × TypeRef) (r : Bool) :
      ((do return (← c.contract? budget q s.2).isSome : Pass SynthesisError Bool).result = .done r) →
        (r = true ↔ c.IsSource q s.2) := by
    intro tested
    obtain ⟨o, first, tested⟩ := Pass.bind_eq_done.mp tested
    obtain rfl := Attempt.done.inj tested
    exact contract?_isSome first
  have selected := Pass.select_eq_filter decides h
  rw [List.filter_map] at selected
  exact selected

theorem ancestors_result {ε : Type} (t : TypeRef) :
    (c.ancestors t : Pass ε (List TypeRef)).result = .done (c.baseChain t).items := by
  rw [ancestors, sayCyclic, Pass.result_say_bind, Pass.result_pure]

theorem ancestor?_result {ε : Type} (t : TypeRef) (passes : TypeRef → Bool) :
    (c.ancestor? t passes : Pass ε (Option TypeRef)).result =
      .done ((c.baseChain t).items.find? passes) := by
  rw [ancestor?]
  split
  · next found => rw [found, Pass.result_pure]
  · next none => rw [none, sayCyclic, Pass.result_say_bind, Pass.result_pure]

/-- The names on the list of accompanied types are those of the types that are accompanied. -/
theorem accompanied_done (c : Context) (x : Index) (q : CompanionRequest) : ∃ names,
    (c.accompanied x q).result = .done names ∧ ∀ t : TypeRef, t.uniqueName ∈ names ↔
      ∃ i ∈ x.ids, c.Accompanies q (c.target.referenceTo i) t := by
  rw [accompanied, Index.genericBases, Pass.result_bind, Pass.result_bind,
    Pass.forAll_done fun id => ancestors_result (c.target.referenceTo id)]
  refine ⟨_, rfl, fun t => ?_⟩
  simp only [List.mem_filterMap, List.mem_filter, List.mem_flatten, List.mem_map]
  constructor
  · rintro ⟨base, ⟨⟨_, ⟨i, hi, rfl⟩, above⟩, generic⟩, named⟩
    refine ⟨i, hi, base, above, ?_⟩
    split at named
    · next argument single =>
        split at named
        · next listed =>
            obtain ⟨template, mem, same⟩ := listed
            exact ⟨argument, single, Option.some.inj named, template, mem, same⟩
        · cases named
    · cases named
  · rintro ⟨i, hi, base, above, argument, single, named, template, mem, same⟩
    have generic : base.isGeneric = true := by
      cases base <;> first | rfl | cases single
    refine ⟨base, ⟨⟨_, ⟨i, hi, rfl⟩, above⟩, generic⟩, ?_⟩
    rw [single, ← named]
    exact if_pos ⟨template, mem, same⟩

/-- Where the search for sources ends, those that lack a companion are left over. -/
theorem companionless_result (c : Context) (budget : Nat) (x : Index) (q : CompanionRequest) :
    (c.companionless budget x q).result = (c.sources budget x q).result.bind fun _ =>
      .done (c.lacking x q x.ids) := by
  classical
  obtain ⟨names, listed, named⟩ := c.accompanied_done x q
  have lacks (id : TypeId) : c.IsSource q (c.target.referenceTo id) ∧
      (c.target.referenceTo id).uniqueName ∉ names ↔ c.Lacks x q id := by
    rw [named, not_exists]
    simp only [not_and]
    exact ⟨fun h => ⟨h.1, h.2⟩, fun h => ⟨h.1, h.2⟩⟩
  have both : c.lacking x q x.ids =
      ((x.ids.filter fun id => c.IsSource q (c.target.referenceTo id)).filter
        fun id => (c.target.referenceTo id).uniqueName ∉ names).map c.sourceOf := by
    rw [lacking, List.filter_filter]
    refine congrArg (List.map c.sourceOf) (List.filter_congr fun id _ => ?_)
    simp only [← lacks id, Bool.decide_and, Bool.and_comm]
  simp only [companionless, Pass.result_bind, Pass.result_say, Attempt.bind_done]
  cases searched : (c.sources budget x q).result with
  | failed e => rfl
  | unfinished => rfl
  | done found =>
      obtain rfl := sources_done searched
      rw [Attempt.bind_done, Attempt.bind_done, both]
      split
      · next none =>
          rw [List.isEmpty_iff, List.map_eq_nil_iff] at none
          rw [none]
          rfl
      · simp only [Pass.result_bind, listed, Attempt.bind_done, Pass.result_say, Pass.result_pure,
          List.filter_map]
        rfl

theorem companionless_done {unused : List (TypeId × TypeRef)}
    (h : (c.companionless budget x q).result = .done unused) : unused = c.lacking x q x.ids := by
  rw [companionless_result, Attempt.bind_eq_done] at h
  obtain ⟨-, -, h⟩ := h
  exact (Attempt.done.inj h).symm

theorem sources_not_failed (e : SynthesisError) : (c.sources budget x q).result ≠ .failed e := by
  intro h
  obtain ⟨s, -, failed⟩ := Pass.select_failed h
  obtain first | ⟨o, -, failed⟩ := Pass.bind_eq_failed.mp failed
  · obtain ⟨contract, -, never⟩ := Pass.first?_failed first
    exact assignable_not_failed budget s.2 contract e never
  · cases failed

/-- The search for sources ends where the search for a contract does for each type of the index. -/
theorem sources_ends_iff : (∃ found, (c.sources budget x q).result = .done found) ↔
    ∀ id ∈ x.ids, ∃ o, (c.contract? budget q (c.target.referenceTo id)).result = .done o := by
  constructor
  · rintro ⟨found, selected⟩ id hid
    obtain ⟨r, tested⟩ := Pass.select_tested selected _ (List.mem_map_of_mem hid)
    obtain ⟨o, first, -⟩ := Pass.bind_eq_done.mp tested
    exact ⟨o, first⟩
  · intro each
    refine Pass.select_ends fun s hs => ?_
    obtain ⟨id, hid, rfl⟩ := List.mem_map.mp hs
    obtain ⟨o, first⟩ := each id hid
    exact ⟨o.isSome, Pass.bind_eq_done.mpr ⟨o, first, rfl⟩⟩

/-- The search ends if each check of a type of the index against a contract does. -/
theorem sources_ends (ends : ∀ id ∈ x.ids, ∀ contract ∈ q.contracts,
    (c.assignable? budget (c.target.referenceTo id) contract).isSome) :
    ∃ found, (c.sources budget x q).result = .done found := by
  refine sources_ends_iff.mpr fun id hid => Pass.first?_ends fun contract listed => ?_
  obtain ⟨v, verdict⟩ := Option.isSome_iff_exists.mp (ends id hid contract listed)
  exact ⟨v.holds, by rw [assignable_result, verdict]; rfl⟩

end Context
end Companions
