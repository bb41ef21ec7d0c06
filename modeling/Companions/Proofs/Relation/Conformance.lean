import Companions.Proofs.Relation.Decision
import Companions.Proofs.Relation.Growth
/-!
Conformance: what assignability would be without limits on nesting. Where no declaration puts an
array around a parameter, supertypes are covariant: to every supertype of an instantiation there is
one of any instantiation with conforming arguments that conforms to it. So conformance is transitive.
-/
namespace Companions.Context
variable {c : Context}

/-- Any number of steps up, however deep what stands there nests. -/
def Above (c : Context) : TypeRef → TypeRef → Prop := Relation.ReflTransGen c.Inherits

/-- As `Fits`, at any depth. -/
inductive Conforms (c : Context) : TypeRef → TypeRef → Prop where
  | same {s r t : TypeRef} (run : c.Above s r) (name : r.uniqueName = t.uniqueName) : Conforms c s t
  | arguments {s e f : TypeRef} {as bs : List TypeRef} (run : c.Above s (.generic e as))
      (element : e.uniqueName = f.uniqueName) (some : as ≠ []) (length : as.length = bs.length)
      (pairs : ∀ p ∈ as.zip bs, Conforms c p.1 p.2) : Conforms c s (.generic f bs)

theorem conforms_iff {s t : TypeRef} : c.Conforms s t ↔
    ∃ r, c.Above s r ∧ (r.uniqueName = t.uniqueName ∨ ArgumentsFit c.Conforms r t) := by
  constructor
  · intro h
    cases h with
    | same run name => exact ⟨_, run, .inl name⟩
    | arguments run element some length pairs =>
        exact ⟨_, run, .inr ⟨element, some, length, pairs⟩⟩
  · rintro ⟨r, run, name | ⟨element, some, length, pairs⟩⟩
    · exact .same run name
    · exact .arguments run element some length pairs

theorem Reaches.above {s r : TypeRef} (h : c.Reaches s r) : c.Above s r :=
  Relation.ReflTransGen.mono (fun _ _ step => step.inherits) _ _ h

theorem Fits.conforms {d : Nat} {s t : TypeRef} (h : c.Fits d s t) : c.Conforms s t := by
  induction h with
  | same _ run name => exact .same run.above name
  | arguments _ run element some length _ ih => exact .arguments run.above element some length ih

theorem Above.plain (hc : c.isPlain) {s r : TypeRef} (hs : s.isPlain) (h : c.Above s r) :
    r.isPlain := by
  induction h with
  | refl => exact hs
  | tail _ step ih => exact step.plain hc ih

theorem Above.congr {s t u : TypeRef} (h : c.Above s u) (same : s.positional = t.positional) :
    ∃ v, c.Above t v ∧ u.positional = v.positional := by
  induction h with
  | refl => exact ⟨t, .refl, same⟩
  | tail _ step ih =>
      obtain ⟨v, run, names⟩ := ih
      obtain ⟨w, last, bound⟩ := step.congr names
      exact ⟨w, run.tail last, bound⟩

theorem Conforms.of_above {s r t : TypeRef} (run : c.Above s r) (h : c.Conforms r t) :
    c.Conforms s t := by
  cases h with
  | same rest name => exact .same (run.trans rest) name
  | arguments rest element some length pairs =>
      exact .arguments (run.trans rest) element some length pairs

theorem Conforms.refl (t : TypeRef) : c.Conforms t t := .same .refl rfl

/-! ## Names of parameters -/

theorem zip_positional {as as' bs bs' : List TypeRef} {p : TypeRef × TypeRef}
    (left : as.map TypeRef.positional = as'.map TypeRef.positional)
    (right : bs.map TypeRef.positional = bs'.map TypeRef.positional) (hp : p ∈ as'.zip bs') :
    ∃ q ∈ as.zip bs, q.1.positional = p.1.positional ∧ q.2.positional = p.2.positional := by
  have both : (as.zip bs).map (Prod.map TypeRef.positional TypeRef.positional) =
      (as'.zip bs').map (Prod.map TypeRef.positional TypeRef.positional) := by
    rw [← List.zip_map, ← List.zip_map, left, right]
  have mem := List.mem_map_of_mem (f := Prod.map TypeRef.positional TypeRef.positional) hp
  rw [← both] at mem
  obtain ⟨q, hq, same⟩ := List.mem_map.mp mem
  exact ⟨q, hq, congrArg Prod.fst same, congrArg Prod.snd same⟩

theorem uniqueName_congr {s t : TypeRef} (same : s.positional = t.positional) :
    s.uniqueName = t.uniqueName := by
  rw [← TypeRef.uniqueName_positional, same, TypeRef.uniqueName_positional]

/-- Neither side is seen by the names of its parameters. -/
theorem Conforms.congr {s s' t t' : TypeRef} (h : c.Conforms s t)
    (left : s.positional = s'.positional) (right : t.positional = t'.positional) :
    c.Conforms s' t' := by
  induction h generalizing s' t' with
  | same run name =>
      obtain ⟨r, run, same⟩ := run.congr left
      refine .same run ?_
      rw [← uniqueName_congr same, name, uniqueName_congr right]
  | @arguments s e f as bs run element some length pairs ih =>
      obtain ⟨r, run, same⟩ := run.congr left
      cases r with
      | generic e' as' =>
          cases t' with
          | generic f' bs' =>
              simp only [TypeRef.positional_generic, TypeRef.generic.injEq] at same right
              have shorter := congrArg List.length same.2
              have longer := congrArg List.length right.2
              rw [List.length_map, List.length_map] at shorter longer
              refine .arguments run ?_ ?_ (by omega) ?_
              · rw [← uniqueName_congr same.1, element, uniqueName_congr right.1]
              · exact List.length_pos_iff.mp (shorter ▸ List.length_pos_iff.mpr some)
              · intro p hp
                obtain ⟨q, hq, first, second⟩ := zip_positional same.2 right.2 hp
                exact ih q hq first second
          | _ => cases right
      | _ => cases same

/-! ## Covariance -/

/-- Conforming arguments make a declaration conform to itself. -/
theorem Conforms.bind {as bs : List TypeRef} (length : as.length = bs.length)
    (pairs : ∀ p ∈ as.zip bs, c.Conforms p.1 p.2) {d : TypeRef} (plain : d.isPlain)
    (keeps : d.keepsArrays) : c.Conforms (TypeRef.bind as d) (TypeRef.bind bs d) := by
  induction d with
  | named s f => exact .refl _
  | generic e ds _ ih =>
      obtain ⟨-, some, inner⟩ := TypeRef.isPlain_generic.mp plain
      rw [TypeRef.bind_generic, TypeRef.bind_generic]
      refine .arguments .refl rfl (by simpa using some) (by simp) ?_
      rw [List.zip_map']
      intro p hp
      obtain ⟨d, hd, rfl⟩ := List.mem_map.mp hp
      exact ih d hd (inner d hd) (TypeRef.keepArrays_iff.mp keeps d hd)
  | array e =>
      have closed : (TypeRef.array e).isClosed := keeps
      rw [TypeRef.bind_closed closed, TypeRef.bind_closed closed]
      exact .refl _
  | param i n =>
      rw [TypeRef.bind_param, TypeRef.bind_param]
      by_cases inside : i.toNat < as.length
      · rw [List.getElem?_eq_getElem inside, List.getElem?_eq_getElem (length ▸ inside)]
        have both : i.toNat < (as.zip bs).length := by
          rw [List.length_zip]
          omega
        have pair := pairs _ (List.getElem_mem both)
        rw [List.getElem_zip] at pair
        exact pair
      · rw [List.getElem?_eq_none (Nat.not_lt.mp inside),
          List.getElem?_eq_none (length ▸ Nat.not_lt.mp inside)]
        exact .refl _

/-- Between partners of lists of one length stands an entry of any third such list. -/
theorem zip_between {as bs cs : List TypeRef} {p : TypeRef × TypeRef}
    (length : as.length = bs.length) (hp : p ∈ as.zip cs) :
    ∃ b, (p.1, b) ∈ as.zip bs ∧ (b, p.2) ∈ bs.zip cs := by
  induction as generalizing bs cs with
  | nil => cases hp
  | cons a as ih =>
      cases bs with
      | nil => cases length
      | cons b bs =>
          cases cs with
          | nil => cases hp
          | cons d cs =>
              rcases List.mem_cons.mp hp with rfl | hp
              · exact ⟨b, List.mem_cons_self, List.mem_cons_self⟩
              · obtain ⟨b, first, second⟩ := ih (Nat.succ.inj length) hp
                exact ⟨b, List.mem_cons_of_mem _ first, List.mem_cons_of_mem _ second⟩

section plain

variable (hc : c.isPlain) (arrays : ∀ d ∈ c.declared, d.keepsArrays)
include hc arrays

/-- What an instantiation inherits, one with conforming arguments inherits in a form that
conforms. -/
theorem ArgumentsFit.inherits {s t u : TypeRef} (hs : s.isPlain) (ht : t.isPlain)
    (fit : ArgumentsFit c.Conforms s t) (up : c.Inherits t u) :
    ∃ v, c.Inherits s v ∧ c.Conforms v u := by
  obtain ⟨element, -, length, pairs⟩ := fit
  rename_i e f as bs
  obtain ⟨r, d, node, hd, rfl⟩ := mem_supertypes.mp up
  have same := TypeRef.positional_eq_of_uniqueName_eq (TypeRef.isPlain_generic.mp hs).1
    (TypeRef.isPlain_generic.mp ht).1 element
  have node' : c.resolve? (.generic e as) = some r := by
    rw [resolve?, resolve?_congr c same]
    exact node
  have declared := mem_declared node hd
  refine ⟨d.substitute as, mem_supertypes.mpr ⟨r, d, node', hd, rfl⟩, ?_⟩
  exact .bind length pairs (List.all_eq_true.mp hc d declared) (arrays d declared)

theorem Conforms.inherits {s t u : TypeRef} (hs : s.isPlain) (ht : t.isPlain)
    (h : c.Conforms s t) (up : c.Inherits t u) : c.Conforms s u := by
  obtain ⟨r, run, name | fit⟩ := conforms_iff.mp h
  · have same := TypeRef.positional_eq_of_uniqueName_eq (run.plain hc hs) ht name
    obtain ⟨v, step, bound⟩ := up.congr same.symm
    exact .same (run.tail step) (uniqueName_congr bound.symm)
  · obtain ⟨v, step, conforms⟩ := fit.inherits hc arrays (run.plain hc hs) ht up
    exact .of_above (run.tail step) conforms

theorem Conforms.above {s t u : TypeRef} (hs : s.isPlain) (ht : t.isPlain) (h : c.Conforms s t)
    (run : c.Above t u) : c.Conforms s u := by
  induction run with
  | refl => exact h
  | tail run step ih => exact ih.inherits hc arrays hs (Above.plain hc ht run) step

/-- By induction on the second conformance. What it finds above `t` is found above `s` in a form
that conforms, and its arguments are in the middle again. -/
theorem Conforms.trans {s t u : TypeRef} (hs : s.isPlain) (ht : t.isPlain) (hu : u.isPlain)
    (lower : c.Conforms s t) (upper : c.Conforms t u) : c.Conforms s u := by
  induction upper generalizing s with
  | same run name =>
      have same := TypeRef.positional_eq_of_uniqueName_eq (run.plain hc ht) hu name
      exact (lower.above hc arrays hs ht run).congr rfl same
  | @arguments t e f as bs run element some length pairs ih =>
      have middle := run.plain hc ht
      obtain ⟨-, -, plainAs⟩ := TypeRef.isPlain_generic.mp middle
      obtain ⟨-, -, plainBs⟩ := TypeRef.isPlain_generic.mp hu
      have reached := lower.above hc arrays hs ht run
      cases reached with
      | same run' name =>
          have same := TypeRef.positional_eq_of_uniqueName_eq (run'.plain hc hs) middle name
          have here : c.Conforms (.generic e as) (.generic f bs) :=
            .arguments .refl element some length pairs
          exact .of_above run' (here.congr same.symm rfl)
      | arguments run' element' some' length' pairs' =>
          obtain ⟨-, -, plainCs⟩ := TypeRef.isPlain_generic.mp (run'.plain hc hs)
          refine .arguments run' (element'.trans element) some' (length'.trans length) ?_
          intro p hp
          obtain ⟨a, first, second⟩ := zip_between length' hp
          exact ih _ second (plainCs p.1 (List.of_mem_zip hp).1) (plainAs a (List.of_mem_zip first).2)
            (plainBs p.2 (List.of_mem_zip hp).2) (pairs' _ first)

end plain

end Companions.Context
