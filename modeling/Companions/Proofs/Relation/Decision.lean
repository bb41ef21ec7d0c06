import Companions.Proofs.Relation.Reach
/-!
What the walk over supertypes decides. The declarative relation `Fits` knows no order and no
visited set; a walk that gives a verdict agrees with it. That a type is passed over when its name
was met before hides nothing: plain references of one name differ in names of parameters only,
and these decide neither their supertypes nor what they fit.
-/
namespace Companions.Context

/-! ## The relation -/

/-- `s` fits `t` at depth `d` of arguments: something that `s` reaches has the name of `t`, or
instantiates the element of `t` with arguments that fit those of `t` one level deeper. -/
inductive Fits (c : Context) : (d : Nat) → TypeRef → TypeRef → Prop where
  | same {d : Nat} {s r t : TypeRef} (level : d ≤ maxGenericDepth) (run : c.Reaches s r)
      (name : r.uniqueName = t.uniqueName) : Fits c d s t
  | arguments {d : Nat} {s e f : TypeRef} {as bs : List TypeRef} (level : d ≤ maxGenericDepth)
      (run : c.Reaches s (.generic e as)) (element : e.uniqueName = f.uniqueName)
      (some : as ≠ []) (length : as.length = bs.length)
      (pairs : ∀ p ∈ as.zip bs, Fits c (d + 1) p.1 p.2) : Fits c d s (.generic f bs)

/-- Both instantiate one element, with arguments that are related in pairs. -/
inductive ArgumentsFit (rel : TypeRef → TypeRef → Prop) : TypeRef → TypeRef → Prop where
  | intro {e f : TypeRef} {as bs : List TypeRef} (element : e.uniqueName = f.uniqueName)
      (some : as ≠ []) (length : as.length = bs.length)
      (pairs : ∀ p ∈ as.zip bs, rel p.1 p.2) : ArgumentsFit rel (.generic e as) (.generic f bs)

theorem fits_iff {c : Context} {d : Nat} {s t : TypeRef} :
    c.Fits d s t ↔ d ≤ maxGenericDepth ∧ ∃ r, c.Reaches s r ∧
      (r.uniqueName = t.uniqueName ∨ ArgumentsFit (c.Fits (d + 1)) r t) := by
  constructor
  · intro h
    cases h with
    | same level run name => exact ⟨level, _, run, .inl name⟩
    | arguments level run element some length pairs =>
        exact ⟨level, _, run, .inr ⟨element, some, length, pairs⟩⟩
  · rintro ⟨level, r, run, name | h⟩
    · exact .same level run name
    · cases h with
      | intro element some length pairs => exact .arguments level run element some length pairs

theorem zip_congr {as as' bs : List TypeRef} {p : TypeRef × TypeRef}
    (same : as.map TypeRef.positional = as'.map TypeRef.positional) (hp : p ∈ as'.zip bs) :
    ∃ a, (a, p.2) ∈ as.zip bs ∧ a.positional = p.1.positional := by
  induction as' generalizing as bs with
  | nil => cases hp
  | cons a' as' ih =>
      cases bs with
      | nil => cases hp
      | cons b bs =>
          cases as with
          | nil => cases same
          | cons a as =>
              obtain ⟨first, rest⟩ := List.cons.inj same
              rcases List.mem_cons.mp hp with rfl | hp
              · exact ⟨a, List.mem_cons_self, first⟩
              · obtain ⟨d, mem, eq⟩ := ih rest hp
                exact ⟨d, List.mem_cons_of_mem _ mem, eq⟩

theorem ArgumentsFit.congr {rel rel' : TypeRef → TypeRef → Prop} {r s t : TypeRef}
    (h : ArgumentsFit rel r t) (same : r.positional = s.positional)
    (hrel : ∀ a b u, rel a b → a.positional = u.positional → rel' u b) : ArgumentsFit rel' s t := by
  cases h with
  | @intro e f as bs element some length pairs =>
      cases s with
      | generic e' as' =>
          simp only [TypeRef.positional_generic, TypeRef.generic.injEq] at same
          have lengths : as.length = as'.length := by simpa using congrArg List.length same.2
          refine .intro ?_ ?_ (lengths ▸ length) ?_
          · rw [← TypeRef.uniqueName_positional, ← same.1, TypeRef.uniqueName_positional, element]
          · exact List.length_pos_iff.mp (lengths ▸ List.length_pos_iff.mpr some)
          · intro p hp
            obtain ⟨a, mem, names⟩ := zip_congr same.2 hp
            exact hrel a p.2 p.1 (pairs _ mem) names
      | named s' f' => cases same
      | array e' => cases same
      | param p n => cases same

/-- The relation does not see the names of the candidate's parameters. -/
theorem Fits.congr {c : Context} {d : Nat} {s u t : TypeRef} (h : c.Fits d s t)
    (same : s.positional = u.positional) : c.Fits d u t := by
  induction h generalizing u with
  | same level run name =>
      obtain ⟨v, run, eq⟩ := run.congr same
      refine .same level run ?_
      rw [← TypeRef.uniqueName_positional, ← eq, TypeRef.uniqueName_positional, name]
  | @arguments d s e f as bs level run element some length pairs ih =>
      obtain ⟨v, run, eq⟩ := run.congr same
      have fit : ArgumentsFit (fun a b => ∀ {u : TypeRef}, a.positional = u.positional →
          c.Fits (d + 1) u b) (.generic e as) (.generic f bs) :=
        ⟨element, some, length, fun p hp _ => ih p hp⟩
      exact fits_iff.mpr ⟨level, v, run, .inr (fit.congr eq fun _ _ _ h => h)⟩

/-! ## One step of the walk -/

@[simp] theorem after_holds (v w : Verdict) : (v.after w).holds = v.holds := rfl

theorem allPairs_cons {check : TypeRef → TypeRef → Option Verdict} {a b : TypeRef}
    {rest : List (TypeRef × TypeRef)} {v : Verdict} (h : allPairs check ((a, b) :: rest) = some v) :
    ∃ w, check a b = some w ∧
      (w.holds = true ∧ (∃ u, allPairs check rest = some u ∧ v = u.after w) ∨
        w.holds = false ∧ v = w) := by
  simp only [allPairs, Option.bind_eq_bind, Option.bind_eq_some_iff] at h
  obtain ⟨w, hw, h⟩ := h
  refine ⟨w, hw, ?_⟩
  cases holds : w.holds with
  | true =>
      simp only [holds, if_true, Option.bind_eq_some_iff, Option.pure_def, Option.some.injEq] at h
      obtain ⟨u, hu, rfl⟩ := h
      exact .inl ⟨rfl, u, hu, rfl⟩
  | false =>
      simp only [holds, Bool.false_eq_true, if_false, Option.pure_def, Option.some.injEq] at h
      exact .inr ⟨rfl, h.symm⟩

theorem allPairs_holds {check : TypeRef → TypeRef → Option Verdict} {rel : TypeRef → TypeRef → Prop}
    {pairs : List (TypeRef × TypeRef)} {v : Verdict}
    (decides : ∀ p ∈ pairs, ∀ w, check p.1 p.2 = some w → (w.holds = true ↔ rel p.1 p.2))
    (h : allPairs check pairs = some v) : v.holds = true ↔ ∀ p ∈ pairs, rel p.1 p.2 := by
  induction pairs generalizing v with
  | nil =>
      cases h
      simp
  | cons p rest ih =>
      obtain ⟨w, hw, cases⟩ := allPairs_cons h
      have first := decides p List.mem_cons_self w hw
      rcases cases with ⟨holds, u, hu, rfl⟩ | ⟨fails, rfl⟩
      · rw [after_holds, ih (fun q hq => decides q (List.mem_cons_of_mem p hq)) hu,
          List.forall_mem_cons]
        exact ⟨fun others => ⟨first.mp holds, others⟩, fun all => all.2⟩
      · rw [List.forall_mem_cons, ← first, fails]
        simp

/-- The verdict on the arguments is that of the relation that `check` decides. -/
theorem argumentsMatch_holds {check : TypeRef → TypeRef → Option Verdict}
    {rel : TypeRef → TypeRef → Prop} {s t : TypeRef} {v : Verdict}
    (decides : ∀ a ∈ s.arguments, ∀ b w, check a b = some w → (w.holds = true ↔ rel a b))
    (h : argumentsMatch check s t = some v) : v.holds = true ↔ ArgumentsFit rel s t := by
  have never (different : ∀ e f as bs, s = .generic e as → t = .generic f bs → False) :
      ¬ ArgumentsFit rel s t := by
    intro fit
    cases fit with
    | intro => exact different _ _ _ _ rfl rfl
  cases s with
  | generic e as =>
      cases t with
      | generic f bs =>
          rw [argumentsMatch] at h
          split at h
          case isTrue same =>
            obtain ⟨some, length, element⟩ := same
            have pairs : v.holds = true ↔ ∀ p ∈ as.zip bs, rel p.1 p.2 :=
              allPairs_holds (fun p hp => decides p.1 (List.of_mem_zip hp).1 p.2) h
            rw [pairs]
            constructor
            · exact fun fit => ⟨element, some, length, fit⟩
            · rintro ⟨⟩
              assumption
          case isFalse different =>
            cases h
            simp only [Bool.false_eq_true, false_iff]
            rintro ⟨element, some, length, -⟩
            exact different ⟨some, length, element⟩
      | _ => cases h; simpa using never (by simp)
  | _ => cases h; simpa using never (by simp)

section walk

variable {c : Context} {target : TypeRef} {fits : TypeRef → Option Verdict} {budget : Nat}
  {visited : List String} {t : TypeRef} {pending : List TypeRef}

/-- The supertypes that a walk goes on with. -/
def next (c : Context) (t : TypeRef) : List TypeRef :=
  (c.supertypes t).filter (·.nesting ≤ maxGenericDepth)

/-- How many supertypes it leaves out. -/
def skipped (c : Context) (t : TypeRef) : Nat :=
  ((c.supertypes t).filter (not ∘ fun u => u.nesting ≤ maxGenericDepth)).length

theorem mem_next {u : TypeRef} : u ∈ c.next t ↔ c.Supertype t u := by
  rw [supertype_iff, next, List.mem_filter, decide_eq_true_iff]

theorem walk_again (old : t.uniqueName ∈ visited) :
    c.walk target fits (budget + 1) visited (t :: pending) =
      c.walk target fits budget visited pending := by
  rw [walk, if_pos old]

theorem walk_name (new : t.uniqueName ∉ visited) (same : t.uniqueName = target.uniqueName) :
    c.walk target fits (budget + 1) visited (t :: pending) = some { holds := true } := by
  rw [walk, if_neg new, if_pos same]

theorem walk_stuck (new : t.uniqueName ∉ visited) (other : t.uniqueName ≠ target.uniqueName)
    (stuck : fits t = none) : c.walk target fits (budget + 1) visited (t :: pending) = none := by
  rw [walk, if_neg new, if_neg other, stuck]
  rfl

theorem walk_fit (new : t.uniqueName ∉ visited) (other : t.uniqueName ≠ target.uniqueName)
    {v : Verdict} (fit : fits t = some v) (holds : v.holds = true) :
    c.walk target fits (budget + 1) visited (t :: pending) = some v := by
  rw [walk, if_neg new, if_neg other, fit]
  simp [holds]

/-- A type that does not fit is marked, and what stands above it comes first. -/
theorem walk_miss (new : t.uniqueName ∉ visited) (other : t.uniqueName ≠ target.uniqueName)
    {v : Verdict} (miss : fits t = some v) (fails : v.holds = false) :
    c.walk target fits (budget + 1) visited (t :: pending) =
      (c.walk target fits budget (t.uniqueName :: visited) (c.next t ++ pending)).map
        (·.after { v with deepTypes := v.deepTypes + c.skipped t }) := by
  rw [walk, if_neg new, if_neg other, miss, next, skipped]
  simp only [fails, List.partition_eq_filter_filter, Option.bind_eq_bind, Option.bind_some,
    Bool.false_eq_true, if_false, Option.map_eq_bind]
  rfl

/-- The ways in which a walk that takes `t` comes to its verdict. -/
inductive Step (c : Context) (target : TypeRef) (fits : TypeRef → Option Verdict) (budget : Nat)
    (visited : List String) (t : TypeRef) (pending : List TypeRef) (v : Verdict) : Prop where
  | again (old : t.uniqueName ∈ visited) (rest : c.walk target fits budget visited pending = some v)
  | name (same : t.uniqueName = target.uniqueName) (verdict : v = { holds := true })
  | fit (fit : fits t = some v) (holds : v.holds = true)
  | miss {w u : Verdict} (new : t.uniqueName ∉ visited) (other : t.uniqueName ≠ target.uniqueName)
      (miss : fits t = some w) (fails : w.holds = false)
      (verdict : v = u.after { w with deepTypes := w.deepTypes + c.skipped t })
      (rest : c.walk target fits budget (t.uniqueName :: visited) (c.next t ++ pending) = some u)

theorem walk_cons {v : Verdict} (h : c.walk target fits budget visited (t :: pending) = some v) :
    ∃ n, budget = n + 1 ∧ c.Step target fits n visited t pending v := by
  cases budget with
  | zero => cases h
  | succ n =>
      refine ⟨n, rfl, ?_⟩
      by_cases old : t.uniqueName ∈ visited
      · rw [walk_again old] at h
        exact .again old h
      by_cases same : t.uniqueName = target.uniqueName
      · rw [walk_name old same] at h
        cases h
        exact .name same rfl
      cases found : fits t with
      | none =>
          rw [walk_stuck old same found] at h
          cases h
      | some w =>
          cases holds : w.holds with
          | true =>
              rw [walk_fit old same found holds] at h
              cases h
              exact .fit found holds
          | false =>
              rw [walk_miss old same found holds] at h
              obtain ⟨u, hu, rfl⟩ := Option.map_eq_some_iff.mp h
              exact .miss old same found holds rfl hu

end walk

/-! ## Soundness -/

/-- A walk that holds has found something on the way up from a pending type, under a name that it had
not met. -/
theorem walk_sound {c : Context} {target : TypeRef} {fits : TypeRef → Option Verdict} {budget : Nat}
    {visited : List String} {pending : List TypeRef} {v : Verdict}
    (h : c.walk target fits budget visited pending = some v) (hv : v.holds = true) :
    ∃ t ∈ pending, ∃ r, c.Reaches t r ∧ r.uniqueName ∉ visited ∧
      (r.uniqueName = target.uniqueName ∨ ∃ w, fits r = some w ∧ w.holds = true) := by
  induction budget generalizing visited pending v with
  | zero => cases pending <;> cases h; cases hv
  | succ n ih =>
      cases pending with
      | nil =>
          rw [walk] at h
          cases h
          cases hv
      | cons t pending =>
          by_cases old : t.uniqueName ∈ visited
          · rw [walk_again old] at h
            obtain ⟨s, hs, found⟩ := ih h hv
            exact ⟨s, List.mem_cons_of_mem t hs, found⟩
          obtain ⟨m, hm, step⟩ := walk_cons h
          obtain rfl := Nat.succ.inj hm
          cases step with
          | again met => exact absurd met old
          | name same => exact ⟨t, List.mem_cons_self, t, .refl, old, .inl same⟩
          | fit fit => exact ⟨t, List.mem_cons_self, t, .refl, old, .inr ⟨v, fit, hv⟩⟩
          | miss new other miss fails verdict rest =>
              subst verdict
              obtain ⟨s, hs, r, run, fresh, found⟩ := ih rest hv
              have fresh : r.uniqueName ∉ visited := fun met => fresh (List.mem_cons_of_mem _ met)
              rcases List.mem_append.mp hs with above | before
              · exact ⟨t, List.mem_cons_self, r, .head (mem_next.mp above) run, fresh, found⟩
              · exact ⟨s, List.mem_cons_of_mem t before, r, run, fresh, found⟩

/-! ## Completeness -/

/-- What a walk without success knows of the types it has `seen`: none of them fits, and what
stands above one of them was seen by name or is pending. -/
structure Explored (c : Context) (target : TypeRef) (fits : TypeRef → Option Verdict)
    (pending seen : List TypeRef) : Prop where
  plain : ∀ t ∈ seen, t.isPlain
  missed : ∀ t ∈ seen, t.uniqueName ≠ target.uniqueName ∧ ∃ w, fits t = some w ∧ w.holds = false
  closed : ∀ t ∈ seen, ∀ u, c.Supertype t u → u.uniqueName ∈ seen.map TypeRef.uniqueName ∨ u ∈ pending

variable {c : Context} {target : TypeRef} {fits : TypeRef → Option Verdict}
  {pending seen : List TypeRef} {t : TypeRef}

theorem Explored.again (inv : c.Explored target fits (t :: pending) seen)
    (old : t.uniqueName ∈ seen.map TypeRef.uniqueName) : c.Explored target fits pending seen where
  plain := inv.plain
  missed := inv.missed
  closed s hs u up := by
    rcases inv.closed s hs u up with known | mem
    · exact .inl known
    · rcases List.mem_cons.mp mem with rfl | mem
      · exact .inl old
      · exact .inr mem

theorem Explored.miss (inv : c.Explored target fits (t :: pending) seen) (ht : t.isPlain)
    (other : t.uniqueName ≠ target.uniqueName) {w : Verdict} (miss : fits t = some w)
    (fails : w.holds = false) :
    c.Explored target fits (c.next t ++ pending) (t :: seen) where
  plain := List.forall_mem_cons.mpr ⟨ht, inv.plain⟩
  missed := List.forall_mem_cons.mpr ⟨⟨other, w, miss, fails⟩, inv.missed⟩
  closed s hs u up := by
    rcases List.mem_cons.mp hs with rfl | hs
    · exact .inr (List.mem_append_left _ (mem_next.mpr up))
    · rcases inv.closed s hs u up with known | mem
      · exact .inl (List.mem_cons_of_mem _ known)
      · rcases List.mem_cons.mp mem with rfl | mem
        · exact .inl List.mem_cons_self
        · exact .inr (List.mem_append_right _ mem)

/-- A walk that fails leaves nothing pending, and has seen every pending type. -/
theorem walk_explored (hc : c.isPlain) {budget : Nat} {v : Verdict}
    (inv : c.Explored target fits pending seen) (hp : ∀ t ∈ pending, t.isPlain)
    (h : c.walk target fits budget (seen.map TypeRef.uniqueName) pending = some v)
    (hv : v.holds = false) :
    ∃ all, c.Explored target fits [] all ∧ (∀ t ∈ seen, t ∈ all) ∧
      ∀ t ∈ pending, t.uniqueName ∈ all.map TypeRef.uniqueName := by
  induction budget generalizing seen pending v with
  | zero =>
      cases pending with
      | nil => exact ⟨seen, inv, fun _ ht => ht, by simp⟩
      | cons t pending => cases h
  | succ n ih =>
      cases pending with
      | nil => exact ⟨seen, inv, fun _ ht => ht, by simp⟩
      | cons t pending =>
          obtain ⟨ht, hp⟩ := List.forall_mem_cons.mp hp
          obtain ⟨m, hm, step⟩ := walk_cons h
          obtain rfl := Nat.succ.inj hm
          cases step with
          | again old rest =>
              obtain ⟨all, inv', known, names⟩ := ih (inv.again old) hp rest hv
              refine ⟨all, inv', known, List.forall_mem_cons.mpr ⟨?_, names⟩⟩
              obtain ⟨s, hs, eq⟩ := List.mem_map.mp old
              exact List.mem_map.mpr ⟨s, known s hs, eq⟩
          | name same verdict => exact absurd hv (by simp [verdict])
          | fit fit holds => exact absurd hv (by simp [holds])
          | miss new other miss fails verdict rest =>
              subst verdict
              have above (s) (hs : s ∈ c.next t) : s.isPlain := (mem_next.mp hs).plain hc ht
              obtain ⟨all, inv', known, names⟩ := ih (inv.miss ht other miss fails)
                (fun s hs => (List.mem_append.mp hs).elim (above s) (hp s)) rest hv
              refine ⟨all, inv', fun s hs => known s (List.mem_cons_of_mem t hs), ?_⟩
              refine List.forall_mem_cons.mpr ⟨?_, fun s hs => names s (List.mem_append_right _ hs)⟩
              exact List.mem_map.mpr ⟨t, known t List.mem_cons_self, rfl⟩

/-- With nothing pending, whatever can be reached from a type seen was seen by name. -/
theorem Explored.reaches (hc : c.isPlain) (inv : c.Explored target fits [] seen) {s r : TypeRef}
    (hs : s.isPlain) (known : s.uniqueName ∈ seen.map TypeRef.uniqueName) (run : c.Reaches s r) :
    ∃ t ∈ seen, t.positional = r.positional := by
  induction run with
  | refl =>
      obtain ⟨t, ht, eq⟩ := List.mem_map.mp known
      exact ⟨t, ht, TypeRef.positional_eq_of_uniqueName_eq (inv.plain t ht) hs eq⟩
  | tail run step ih =>
      obtain ⟨t, ht, same⟩ := ih
      obtain ⟨u, up, same⟩ := step.congr same.symm
      rcases inv.closed t ht u up with names | none
      · obtain ⟨t', ht', eq⟩ := List.mem_map.mp names
        have plain := up.plain hc (inv.plain t ht)
        rw [same]
        exact ⟨t', ht', TypeRef.positional_eq_of_uniqueName_eq (inv.plain t' ht') plain eq⟩
      · cases none

/-- A walk that fails has met, up to names of parameters, all that the candidate reaches. -/
theorem walk_met (hc : c.isPlain) {budget : Nat} {s : TypeRef} (hs : s.isPlain) {v : Verdict}
    (h : c.walk target fits budget [] [s] = some v) (hv : v.holds = false) :
    ∃ all, c.Explored target fits [] all ∧
      ∀ r, c.Reaches s r → ∃ u ∈ all, u.positional = r.positional := by
  have start : c.Explored target fits [s] [] := ⟨by simp, by simp, by simp⟩
  have plain : ∀ t ∈ [s], t.isPlain := List.forall_mem_singleton.mpr hs
  obtain ⟨all, inv, -, names⟩ := walk_explored hc start plain h hv
  exact ⟨all, inv, fun r run => inv.reaches hc hs (names s List.mem_cons_self) run⟩

theorem checkAt_explored (hc : c.isPlain) {budget n : Nat} {s : TypeRef} (hs : s.isPlain)
    {v : Verdict} (h : c.checkAt budget (n + 1) s target = some v) (hv : v.holds = false) :
    ∃ all, c.Explored target (fun r => argumentsMatch (c.checkAt budget n) r target) [] all ∧
      ∀ r, c.Reaches s r → ∃ u ∈ all, u.positional = r.positional :=
  walk_met hc hs h hv

/-! ## The decision -/

/-- Where the verdicts on arguments decide a relation that sees no names of parameters, a check
decides whether something that fits by name or by arguments is reached. -/
theorem checkAt_holds_iff_reaches (hc : c.isPlain) {budget n : Nat} {s t : TypeRef}
    (hs : s.isPlain) {rel : TypeRef → TypeRef → Prop}
    (respects : ∀ a b u, rel a b → a.positional = u.positional → rel u b)
    (decides : ∀ a, a.isPlain → ∀ b w, c.checkAt budget n a b = some w → (w.holds = true ↔ rel a b))
    {v : Verdict} (h : c.checkAt budget (n + 1) s t = some v) :
    v.holds = true ↔
      ∃ r, c.Reaches s r ∧ (r.uniqueName = t.uniqueName ∨ ArgumentsFit rel r t) := by
  have matches_iff {r : TypeRef} (hr : r.isPlain) {w : Verdict}
      (hw : argumentsMatch (c.checkAt budget n) r t = some w) :
      w.holds = true ↔ ArgumentsFit rel r t :=
    argumentsMatch_holds (fun a ha => decides a (TypeRef.isPlain_arguments hr ha)) hw
  constructor
  · intro hv
    obtain ⟨s', hs', r, run, -, found⟩ := walk_sound h hv
    obtain rfl := List.mem_singleton.mp hs'
    refine ⟨r, run, found.imp_right ?_⟩
    rintro ⟨w, hw, holds⟩
    exact (matches_iff (run.plain hc hs) hw).mp holds
  · rintro ⟨r, run, found⟩
    cases hv : v.holds with
    | true => rfl
    | false =>
        obtain ⟨all, inv, met⟩ := checkAt_explored hc hs h hv
        obtain ⟨u, hu, same⟩ := met r run
        obtain ⟨other, w, hw, fails⟩ := inv.missed u hu
        rcases found with name | fit
        · rw [← TypeRef.uniqueName_positional, ← same, TypeRef.uniqueName_positional] at name
          exact absurd name other
        · have holds := (matches_iff (inv.plain u hu) hw).mpr (fit.congr same.symm respects)
          rw [fails] at holds
          cases holds

/-- A check that gives a verdict decides the relation, at every depth of arguments. -/
theorem checkAt_holds_iff_fits (hc : c.isPlain) {budget d : Nat} {s t : TypeRef} (hs : s.isPlain)
    {v : Verdict} (h : c.checkAt budget (maxGenericDepth + 1 - d) s t = some v) :
    v.holds = true ↔ c.Fits d s t := by
  generalize hl : maxGenericDepth + 1 - d = levels at h
  induction levels generalizing d s t v with
  | zero =>
      cases h
      simp only [Bool.false_eq_true, false_iff]
      intro fit
      have level := (fits_iff.mp fit).1
      omega
  | succ n ih =>
      have level : d ≤ maxGenericDepth := by omega
      have deeper : maxGenericDepth + 1 - (d + 1) = n := by omega
      have respects (a b u) (fit : c.Fits (d + 1) a b) (same : a.positional = u.positional) :
          c.Fits (d + 1) u b := fit.congr same
      have reaches := checkAt_holds_iff_reaches hc hs respects
        (fun a ha b w hw => ih ha deeper hw) h
      rw [fits_iff, reaches]
      constructor
      · intro found
        exact ⟨level, found⟩
      · intro fit
        exact fit.2

/-- Lists are sequences, and numerals are numbers. -/
def numberLists : Context where
  target := Image.rebuildLookup {
    identity := { name := "Game" }
    types := [
      { name := "Number", kind := .interfaceType, flags := .isPublic },
      { name := "Numeral", kind := .classType, flags := .isPublic,
        interfaces := [.named "Game" "Number"] },
      { name := "Seq", kind := .interfaceType, flags := .isPublic, genericParams := ["T"] },
      { name := "List", kind := .classType, flags := .isPublic, genericParams := ["T"],
        interfaces := [.generic (.named "Game" "Seq") [.param 0 "T"]] }] }

theorem numberLists_fits :
    numberLists.Fits 0 (.generic (.named "Game" "List") [.named "Game" "Numeral"])
      (.generic (.named "Game" "Seq") [.named "Game" "Number"]) :=
  (@checkAt_holds_iff_fits numberLists (by decide +kernel) 3 0 _ _ (by decide +kernel)
    { holds := true } (by decide +kernel)).mp rfl

end Companions.Context
