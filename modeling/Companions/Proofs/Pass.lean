import Companions.Pass
/-!
How passes end. A sequence of passes ends in a value if each of its passes does; what is written
into the journal on the way has no part in it.
-/
namespace Companions

namespace Attempt

variable {ε ε' α β : Type}

theorem bind_eq_done {a : Attempt ε α} {f : α → Attempt ε β} {b : β} :
    a.bind f = .done b ↔ ∃ x, a = .done x ∧ f x = .done b := by
  cases a <;> simp [bind]

theorem bind_eq_failed {a : Attempt ε α} {f : α → Attempt ε β} {e : ε} :
    a.bind f = .failed e ↔ a = .failed e ∨ ∃ x, a = .done x ∧ f x = .failed e := by
  cases a <;> simp [bind]

@[simp] theorem bind_done (x : α) (f : α → Attempt ε β) : (done x).bind f = f x := rfl

theorem mapError_eq_done {f : ε → ε'} {a : Attempt ε α} {x : α} :
    a.mapError f = .done x ↔ a = .done x := by
  cases a <;> simp [mapError]

theorem mapError_eq_failed {f : ε → ε'} {a : Attempt ε α} {e' : ε'} :
    a.mapError f = .failed e' ↔ ∃ e, a = .failed e ∧ f e = e' := by
  cases a <;> simp [mapError]

theorem mapError_eq_unfinished {f : ε → ε'} {a : Attempt ε α} :
    a.mapError f = .unfinished ↔ a = .unfinished := by
  cases a <;> simp [mapError]

theorem mapError_bind (f : ε → ε') (a : Attempt ε α) (g : α → Attempt ε β) :
    (a.bind g).mapError f = (a.mapError f).bind fun x => (g x).mapError f := by
  cases a <;> rfl

theorem bind_assoc {γ : Type} (a : Attempt ε α) (f : α → Attempt ε β) (g : β → Attempt ε γ) :
    (a.bind f).bind g = a.bind fun x => (f x).bind g := by
  cases a <;> rfl

end Attempt

namespace Pass

variable {ε ε' σ α β : Type}

@[simp] theorem result_pure (a : α) : (pure a : Pass ε α).result = .done a := rfl

@[simp] theorem result_say (j : Journal) : (say j : Pass ε Unit).result = .done () := rfl

@[simp] theorem result_within (s : Span) (p : Pass ε α) : (within s p).result = p.result := rfl

@[simp] theorem result_mapError (f : ε → ε') (p : Pass ε α) :
    (p.mapError f).result = p.result.mapError f := rfl

@[simp] theorem result_leaving (s : σ) (p : Pass ε α) :
    (p.leaving s).result = p.result.mapError fun e => ⟨s, e⟩ := rfl

theorem mapError_bind (f : ε → ε') (p : Pass ε α) (g : α → Pass ε β) :
    (p >>= g).mapError f = p.mapError f >>= fun a => (g a).mapError f := by
  obtain ⟨j, r⟩ := p
  cases r <;> rfl

@[simp] theorem mapError_leaving (s : σ) (p : Pass ε α) : (p.leaving s).mapError (·.error) = p := by
  obtain ⟨j, r⟩ := p
  cases r <;> rfl

/-- A note in front of a pass has no part in its end. -/
@[simp] theorem result_say_bind (j : Journal) (f : Unit → Pass ε α) :
    (say j >>= f).result = (f ()).result := by
  rw [result_bind, result_say, Attempt.bind_done]

/-- A sequence ends in a value exactly if both of its passes do. -/
theorem bind_eq_done {p : Pass ε α} {f : α → Pass ε β} {b : β} :
    (p >>= f).result = .done b ↔ ∃ a, p.result = .done a ∧ (f a).result = .done b := by
  rw [result_bind, Attempt.bind_eq_done]

/-- It fails where the first of them fails, or the second one behind it. -/
theorem bind_eq_failed {p : Pass ε α} {f : α → Pass ε β} {e : ε} :
    (p >>= f).result = .failed e ↔
      p.result = .failed e ∨ ∃ a, p.result = .done a ∧ (f a).result = .failed e := by
  rw [result_bind, Attempt.bind_eq_failed]

theorem select_subset {test : α → Pass ε Bool} {as bs : List α}
    (h : (select test as).result = .done bs) : ∀ b ∈ bs, b ∈ as := by
  induction as generalizing bs with
  | nil =>
      cases h
      simp
  | cons a as ih =>
      rw [select, bind_eq_done] at h
      obtain ⟨keep, -, h⟩ := h
      rw [bind_eq_done] at h
      obtain ⟨rest, others, h⟩ := h
      obtain rfl := Attempt.done.inj h
      intro b hb
      cases keep with
      | true =>
          rcases List.mem_cons.mp hb with rfl | hb
          · exact List.mem_cons_self
          · exact List.mem_cons_of_mem a (ih others b hb)
      | false => exact List.mem_cons_of_mem a (ih others b hb)

/-- A selection that ends has tested every item. -/
theorem select_tested {test : α → Pass ε Bool} {as bs : List α}
    (h : (select test as).result = .done bs) : ∀ a ∈ as, ∃ r, (test a).result = .done r := by
  induction as generalizing bs with
  | nil => exact nofun
  | cons a as ih =>
      obtain ⟨keep, own, h⟩ := bind_eq_done.mp h
      obtain ⟨rest, others, -⟩ := bind_eq_done.mp h
      exact List.forall_mem_cons.mpr ⟨⟨keep, own⟩, ih others⟩

/-- A search that ends has tested the items up to the one that it found, and it ends so again where
these are tested with the same results. -/
theorem first?_again {test : α → Pass ε Bool} {test' : Nat → α → Pass ε Bool} {as : List α}
    {o : Option α} (h : (first? test as).result = .done o)
    (same : ∀ a ∈ as, ∀ r, (test a).result = .done r →
      ∃ n, ∀ m ≥ n, (test' m a).result = .done r) :
    ∃ n, ∀ m ≥ n, (first? (test' m) as).result = .done o := by
  induction as with
  | nil => exact ⟨0, fun _ _ => h⟩
  | cons a as ih =>
      obtain ⟨own, others⟩ := List.forall_mem_cons.mp same
      obtain ⟨passes, tested, rest⟩ := bind_eq_done.mp h
      obtain ⟨n, again⟩ := own passes tested
      cases passes with
      | true =>
          refine ⟨n, fun m more => bind_eq_done.mpr ⟨true, again m more, rest⟩⟩
      | false =>
          obtain ⟨k, later⟩ := ih rest others
          refine ⟨max n k, fun m more => bind_eq_done.mpr ⟨false, again m ?_, later m ?_⟩⟩
          · exact Nat.le_trans (Nat.le_max_left n k) more
          · exact Nat.le_trans (Nat.le_max_right n k) more

theorem first?_some {test : α → Pass ε Bool} {as : List α} {a : α}
    (h : (first? test as).result = .done (some a)) : a ∈ as ∧ (test a).result = .done true := by
  induction as with
  | nil => cases h
  | cons b as ih =>
      rw [first?, bind_eq_done] at h
      obtain ⟨passes, tested, h⟩ := h
      cases passes with
      | true =>
          cases h
          exact ⟨List.mem_cons_self, tested⟩
      | false =>
          obtain ⟨mem, tested⟩ := ih h
          exact ⟨List.mem_cons_of_mem b mem, tested⟩

/-- A search that finds nothing has refused every item. -/
theorem first?_none {test : α → Pass ε Bool} {as : List α}
    (h : (first? test as).result = .done none) : ∀ a ∈ as, (test a).result = .done false := by
  induction as with
  | nil => exact nofun
  | cons a as ih =>
      obtain ⟨passes, tested, h⟩ := bind_eq_done.mp h
      cases passes with
      | true => cases h
      | false => exact List.forall_mem_cons.mpr ⟨tested, ih h⟩

theorem forAll_mem {f : α → Pass ε β} {as : List α} {bs : List β}
    (h : (forAll f as).result = .done bs) : ∀ b ∈ bs, ∃ a ∈ as, (f a).result = .done b := by
  induction as generalizing bs with
  | nil =>
      cases h
      simp
  | cons a as ih =>
      rw [forAll, bind_eq_done] at h
      obtain ⟨b, first, h⟩ := h
      rw [bind_eq_done] at h
      obtain ⟨rest, others, h⟩ := h
      obtain rfl := Attempt.done.inj h
      rw [List.forall_mem_cons]
      refine ⟨⟨a, List.mem_cons_self, first⟩, fun c hc => ?_⟩
      obtain ⟨d, hd, result⟩ := ih others c hc
      exact ⟨d, List.mem_cons_of_mem a hd, result⟩

/-- Where each result is known, so are all of them. -/
theorem forAll_eq_map {f : α → Pass ε β} {g : α → β} {as : List α} {bs : List β}
    (each : ∀ a ∈ as, ∀ b, (f a).result = .done b → b = g a)
    (h : (forAll f as).result = .done bs) : bs = as.map g := by
  induction as generalizing bs with
  | nil => exact (Attempt.done.inj h).symm
  | cons a as ih =>
      obtain ⟨own, others⟩ := List.forall_mem_cons.mp each
      obtain ⟨b, first, h⟩ := bind_eq_done.mp h
      obtain ⟨rest, remaining, h⟩ := bind_eq_done.mp h
      obtain rfl := Attempt.done.inj h
      rw [List.map_cons, own b first, ih others remaining]

theorem forAll_ends {f : α → Pass ε β} {as : List α}
    (ends : ∀ a ∈ as, ∃ b, (f a).result = .done b) : ∃ bs, (forAll f as).result = .done bs := by
  induction as with
  | nil => exact ⟨[], rfl⟩
  | cons a as ih =>
      obtain ⟨⟨b, own⟩, others⟩ := List.forall_mem_cons.mp ends
      obtain ⟨bs, rest⟩ := ih others
      rw [forAll, result_bind, own, Attempt.bind_done, result_bind, rest]
      exact ⟨_, rfl⟩

theorem forAll_failed {f : α → Pass ε β} {as : List α} {e : ε}
    (h : (forAll f as).result = .failed e) : ∃ a ∈ as, (f a).result = .failed e := by
  induction as with
  | nil => cases h
  | cons a as ih =>
      obtain own | ⟨b, -, h⟩ := bind_eq_failed.mp h
      · exact ⟨a, List.mem_cons_self, own⟩
      · obtain others | ⟨bs, -, h⟩ := bind_eq_failed.mp h
        · obtain ⟨d, hd, failed⟩ := ih others
          exact ⟨d, List.mem_cons_of_mem a hd, failed⟩
        · cases h

end Pass
end Companions
