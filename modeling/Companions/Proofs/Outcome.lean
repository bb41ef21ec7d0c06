import Companions.Proofs.Pass
/-!
What passes come to. A pass that asks how types are related has a budget, and with a larger one it
ends as it did, if it ended at all. So what it comes to is a matter of what it is run on: a search
comes to an item if its test comes to refuse each item before and to pass that one.
-/
namespace Companions

namespace Attempt

variable {ε α : Type}

theorem done_ne (a : α) : (done a : Attempt ε α) ≠ .unfinished := by
  intro h
  cases h

theorem failed_ne (e : ε) : (failed e : Attempt ε α) ≠ .unfinished := by
  intro h
  cases h

end Attempt

/-- The item stands in the list, and each item before it has the property. -/
def Behind {α : Type} (P : α → Prop) (as : List α) (a : α) : Prop :=
  ∃ before after, as = before ++ a :: after ∧ ∀ b ∈ before, P b

section behind

variable {α : Type} {P : α → Prop} {as : List α} {a b : α}

theorem Behind.mem (h : Behind P as a) : a ∈ as := by
  obtain ⟨before, after, rfl, -⟩ := h
  exact List.mem_append_right before List.mem_cons_self

theorem not_behind_nil : ¬ Behind P [] a := fun h => List.not_mem_nil h.mem

theorem behind_cons : Behind P (b :: as) a ↔ b = a ∨ P b ∧ Behind P as a := by
  constructor
  · rintro ⟨before, after, split, earlier⟩
    cases before with
    | nil => exact .inl (List.cons.inj split).1
    | cons _ before =>
        obtain ⟨rfl, rest⟩ := List.cons.inj split
        obtain ⟨own, earlier⟩ := List.forall_mem_cons.mp earlier
        exact .inr ⟨own, before, after, rest, earlier⟩
  · rintro (rfl | ⟨own, before, after, rfl, earlier⟩)
    · exact ⟨[], as, rfl, List.forall_mem_nil _⟩
    · exact ⟨b :: before, after, rfl, List.forall_mem_cons.mpr ⟨own, earlier⟩⟩

end behind

namespace Pass

variable {ε α β : Type}

/-- With every budget from some budget on the pass has that result. -/
def ComesTo (p : Nat → Pass ε α) (r : Attempt ε α) : Prop := ∃ n, ∀ m ≥ n, (p m).result = r

/-- A pass that has ended ends in the same way with a larger budget. -/
def Steady (p : Nat → Pass ε α) : Prop :=
  ∀ n m, n ≤ m → (p n).result ≠ .unfinished → (p m).result = (p n).result

section outcome

variable {p : Nat → Pass ε α} {f : α → Nat → Pass ε β}

theorem ComesTo.unique {r r' : Attempt ε α} (h : ComesTo p r) (h' : ComesTo p r') : r = r' := by
  obtain ⟨n, hn⟩ := h
  obtain ⟨k, hk⟩ := h'
  rw [← hn (max n k) (Nat.le_max_left n k), hk (max n k) (Nat.le_max_right n k)]

theorem ComesTo.ends {r : Attempt ε α} (h : ComesTo p r) (ended : r ≠ .unfinished) :
    ∃ n, (p n).result ≠ .unfinished := by
  obtain ⟨n, comes⟩ := h
  exact ⟨n, comes n (Nat.le_refl n) ▸ ended⟩

theorem comesTo_const (p : Pass ε α) {r : Attempt ε α} : ComesTo (fun _ => p) r ↔ p.result = r :=
  ⟨fun ⟨n, h⟩ => h n (Nat.le_refl n), fun h => ⟨0, fun _ _ => h⟩⟩

theorem comesTo_pure {a : α} {r : Attempt ε α} : ComesTo (fun _ => pure a) r ↔ r = .done a :=
  (comesTo_const _).trans eq_comm

theorem steady_const (p : Pass ε α) : Steady fun _ => p := fun _ _ _ _ => rfl

/-- It comes to every result with which it has ended. -/
theorem Steady.comesTo (steady : Steady p) {n : Nat} {r : Attempt ε α} (h : (p n).result = r)
    (ended : r ≠ .unfinished) : ComesTo p r := by
  subst h
  exact ⟨n, fun m more => steady n m more ended⟩

theorem Steady.later (steady : Steady p) {n m : Nat} (le : n ≤ m) {r : Attempt ε α}
    (h : (p n).result = r) (ended : r ≠ .unfinished) : (p m).result = r := by
  subst h
  exact steady n m le ended

theorem Steady.bind (first : Steady p) (second : ∀ a, Steady (f a)) :
    Steady fun n => p n >>= fun a => f a n := by
  intro n m le ended
  dsimp only at ended ⊢
  rw [result_bind] at ended
  rw [result_bind, result_bind]
  cases own : (p n).result with
  | unfinished =>
      rw [own] at ended
      exact absurd rfl ended
  | failed e =>
      rw [first.later le own (Attempt.failed_ne e)]
      rfl
  | done a =>
      rw [own, Attempt.bind_done] at ended
      rw [first.later le own (Attempt.done_ne a), Attempt.bind_done, Attempt.bind_done]
      exact second a n m le ended

/-- A sequence comes to what its second part comes to behind the first, or to the error of the
first. -/
theorem comesTo_bind (first : Steady p) {r : Attempt ε β} (ended : r ≠ .unfinished) :
    ComesTo (fun n => p n >>= fun a => f a n) r ↔
      (∃ a, ComesTo p (.done a) ∧ ComesTo (f a) r) ∨ ∃ e, ComesTo p (.failed e) ∧ r = .failed e := by
  constructor
  · rintro ⟨n, h⟩
    -- what is enough for the whole is enough for its first part
    have start := h n (Nat.le_refl n)
    rw [result_bind] at start
    cases own : (p n).result with
    | unfinished =>
        rw [own] at start
        exact absurd start.symm ended
    | failed e =>
        rw [own] at start
        exact .inr ⟨e, first.comesTo own (Attempt.failed_ne e), start.symm⟩
    | done a =>
        refine .inl ⟨a, first.comesTo own (Attempt.done_ne a), n, fun m more => ?_⟩
        rw [← h m more, result_bind, first.later more own (Attempt.done_ne a), Attempt.bind_done]
  · rintro (⟨a, ⟨n, own⟩, k, rest⟩ | ⟨e, ⟨n, own⟩, rfl⟩)
    · refine ⟨max n k, fun m more => ?_⟩
      rw [result_bind, own m (Nat.le_trans (Nat.le_max_left n k) more), Attempt.bind_done]
      exact rest m (Nat.le_trans (Nat.le_max_right n k) more)
    · refine ⟨n, fun m more => ?_⟩
      rw [result_bind, own m more]
      rfl

/-- A first part that never fails only hands on its value. -/
theorem comesTo_bind_of_sure (first : Steady p) (sure : ∀ n e, (p n).result ≠ .failed e)
    {r : Attempt ε β} (ended : r ≠ .unfinished) :
    ComesTo (fun n => p n >>= fun a => f a n) r ↔ ∃ a, ComesTo p (.done a) ∧ ComesTo (f a) r := by
  refine (comesTo_bind first ended).trans (or_iff_left ?_)
  rintro ⟨e, ⟨n, never⟩, -⟩
  exact sure n e (never n (Nat.le_refl n))

/-! An error that carries a state is the error that it was, in that state. -/

theorem Steady.leaving {σ : Type} (steady : Steady p) (s : σ) : Steady fun n => (p n).leaving s := by
  intro n m le ended
  dsimp only at ended ⊢
  rw [result_leaving, ne_eq, Attempt.mapError_eq_unfinished] at ended
  rw [result_leaving, result_leaving, steady n m le ended]

theorem comesTo_leaving_done {σ : Type} {s : σ} {a : α} :
    ComesTo (fun n => (p n).leaving s) (.done a) ↔ ComesTo p (.done a) := by
  simp only [ComesTo, result_leaving, Attempt.mapError_eq_done]

theorem comesTo_leaving_failed {σ : Type} {s : σ} {f : Failure σ ε} :
    ComesTo (fun n => (p n).leaving s) (.failed f) ↔ f.left = s ∧ ComesTo p (.failed f.error) := by
  obtain ⟨left, error⟩ := f
  simp only [ComesTo, result_leaving, Attempt.mapError_eq_failed, Failure.mk.injEq]
  constructor
  · rintro ⟨n, h⟩
    obtain ⟨e, -, rfl, rfl⟩ := h n (Nat.le_refl n)
    refine ⟨rfl, n, fun m more => ?_⟩
    obtain ⟨_, failed, -, rfl⟩ := h m more
    exact failed
  · rintro ⟨rfl, n, h⟩
    exact ⟨n, fun m more => ⟨error, h m more, rfl, rfl⟩⟩

end outcome

/-! ## Tests -/

/-- Tests that never fail and whose results larger budgets keep. -/
structure Reliable (test : Nat → α → Pass ε Bool) : Prop where
  steady : ∀ a, Steady fun n => test n a
  sure : ∀ n a e, (test n a).result ≠ .failed e

section tests

variable {test : Nat → α → Pass ε Bool}

/-- Some budget is enough for the test, and the test is passed if it says so. -/
def Comes (test : Nat → α → Pass ε Bool) (passes : Bool) (a : α) : Prop :=
  ComesTo (fun n => test n a) (.done passes)

theorem Comes.not {a : α} (h : Comes test false a) : ¬ Comes test true a := by
  intro h'
  cases h.unique h'

/-- What follows a test comes to its result behind what the test comes to. -/
theorem Reliable.comesTo_bind (reliable : Reliable test) {a : α} {f : Bool → Nat → Pass ε β}
    {r : Attempt ε β} (ended : r ≠ .unfinished) :
    ComesTo (fun n => test n a >>= fun passes => f passes n) r ↔
      (Comes test true a ∧ ComesTo (f true) r) ∨ (Comes test false a ∧ ComesTo (f false) r) := by
  rw [comesTo_bind_of_sure (reliable.steady a) (fun n e => reliable.sure n a e) ended,
    Bool.exists_bool]
  exact or_comm

/-! A search ends with the first item that passes. -/

theorem Reliable.first? (reliable : Reliable test) (as : List α) :
    Steady fun n => Pass.first? (test n) as := by
  induction as with
  | nil => exact steady_const _
  | cons a as ih =>
      refine (reliable.steady a).bind fun passes => ?_
      cases passes with
      | true => exact steady_const _
      | false => exact ih

theorem first?_cons_comesTo (reliable : Reliable test) {a : α} {as : List α} (o : Option α) :
    ComesTo (fun n => first? (test n) (a :: as)) (.done o) ↔
      Comes test true a ∧ o = some a ∨
        Comes test false a ∧ ComesTo (fun n => first? (test n) as) (.done o) := by
  refine (reliable.comesTo_bind (f := fun passes n =>
    if passes then pure (some a) else first? (test n) as) (Attempt.done_ne o)).trans ?_
  refine or_congr_left (and_congr_right fun _ => comesTo_pure.trans ?_)
  rw [Attempt.done.injEq]

theorem first?_comesTo_none (reliable : Reliable test) {as : List α} :
    ComesTo (fun n => first? (test n) as) (.done none) ↔ ∀ a ∈ as, Comes test false a := by
  induction as with
  | nil => exact iff_of_true (comesTo_pure.mpr rfl) (List.forall_mem_nil _)
  | cons a as ih =>
      rw [List.forall_mem_cons, ← ih, first?_cons_comesTo reliable]
      simp

/-- A search comes to the first item that passes, where the tests before it come to an end. -/
theorem first?_comesTo_some (reliable : Reliable test) {as : List α} {a : α} :
    ComesTo (fun n => first? (test n) as) (.done (some a)) ↔
      Behind (Comes test false) as a ∧ Comes test true a := by
  induction as with
  | nil =>
      refine iff_of_false (fun h => ?_) fun h => not_behind_nil h.1
      cases comesTo_pure.mp h
  | cons b as ih =>
      rw [first?_cons_comesTo reliable, ih, behind_cons]
      constructor
      · rintro (⟨passes, found⟩ | ⟨refused, later, passes⟩)
        · obtain rfl := Option.some.inj found
          exact ⟨.inl rfl, passes⟩
        · exact ⟨.inr ⟨refused, later⟩, passes⟩
      · rintro ⟨rfl | ⟨refused, later⟩, passes⟩
        · exact .inl ⟨passes, rfl⟩
        · exact .inr ⟨refused, later, passes⟩

/-- A search comes to an end if each test does that it may get to. -/
theorem first?_comesTo_ends (reliable : Reliable test) {as : List α} :
    (∃ o, ComesTo (fun n => first? (test n) as) (.done o)) ↔
      ∀ a, Behind (Comes test false) as a → ∃ passes, Comes test passes a := by
  induction as with
  | nil => exact iff_of_true ⟨none, comesTo_pure.mpr rfl⟩ fun _ h => absurd h not_behind_nil
  | cons b as ih =>
      simp only [first?_cons_comesTo reliable, behind_cons]
      constructor
      · rintro ⟨o, ⟨passes, -⟩ | ⟨refused, later⟩⟩ a (rfl | ⟨refused', behind⟩)
        · exact ⟨true, passes⟩
        · exact absurd passes refused'.not
        · exact ⟨false, refused⟩
        · exact ih.mp ⟨o, later⟩ a behind
      · intro each
        obtain ⟨passes, own⟩ := each b (.inl rfl)
        cases passes with
        | true => exact ⟨some b, .inl ⟨own, rfl⟩⟩
        | false =>
            obtain ⟨o, later⟩ := ih.mpr fun a behind => each a (.inr ⟨own, behind⟩)
            exact ⟨o, .inr ⟨own, later⟩⟩

/-! All items pass unless one is refused, and behind it nothing is tested. -/

theorem all_cons_comes (reliable : Reliable test) {a : α} {as : List α} (passes : Bool) :
    Comes (fun n as => all (test n) as) passes (a :: as) ↔
      Comes test true a ∧ Comes (fun n as => all (test n) as) passes as ∨
        Comes test false a ∧ passes = false := by
  refine (reliable.comesTo_bind (f := fun own n =>
    if own then all (test n) as else pure false) (Attempt.done_ne passes)).trans ?_
  refine or_congr_right (and_congr_right fun _ => comesTo_pure.trans ?_)
  rw [Attempt.done.injEq]

theorem Reliable.all (reliable : Reliable test) : Reliable fun n as => Pass.all (test n) as where
  steady as := by
    induction as with
    | nil => exact steady_const _
    | cons a as ih =>
        refine (reliable.steady a).bind fun passes => ?_
        cases passes with
        | true => exact ih
        | false => exact steady_const _
  sure n as e h := by
    induction as with
    | nil => cases h
    | cons a as ih =>
        obtain own | ⟨passes, -, h⟩ := bind_eq_failed.mp h
        · exact reliable.sure n a e own
        · cases passes with
          | true => exact ih h
          | false => cases h

theorem all_comes_true (reliable : Reliable test) {as : List α} :
    Comes (fun n as => all (test n) as) true as ↔ ∀ a ∈ as, Comes test true a := by
  induction as with
  | nil => exact iff_of_true (comesTo_pure.mpr rfl) (List.forall_mem_nil _)
  | cons a as ih =>
      rw [List.forall_mem_cons, ← ih, all_cons_comes reliable]
      simp

theorem all_comes_false (reliable : Reliable test) {as : List α} :
    Comes (fun n as => all (test n) as) false as ↔
      ∃ a, Behind (Comes test true) as a ∧ Comes test false a := by
  induction as with
  | nil =>
      refine iff_of_false (fun h => ?_) fun ⟨_, h, _⟩ => not_behind_nil h
      cases comesTo_pure.mp h
  | cons b as ih =>
      rw [all_cons_comes reliable, ih]
      simp only [behind_cons]
      constructor
      · rintro (⟨passes, a, behind, refused⟩ | ⟨refused, -⟩)
        · exact ⟨a, .inr ⟨passes, behind⟩, refused⟩
        · exact ⟨b, .inl rfl, refused⟩
      · rintro ⟨a, rfl | ⟨passes, behind⟩, refused⟩
        · exact .inr ⟨refused, trivial⟩
        · exact .inl ⟨passes, a, behind, refused⟩

end tests
end Pass
end Companions
