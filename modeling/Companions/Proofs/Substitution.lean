import Companions.Proofs.TypeRef
/-!
Two substitutions, one behind the other. The second reaches what the first has put in, and the
parameters that the first left over; where it leaves these alone, both are one substitution by bound
arguments.
-/
namespace Companions.TypeRef

/-- The parameter stands in the reference, outside the elements of instantiations. -/
inductive Stands (p : UInt16) (n : String) : TypeRef → Prop where
  | param : Stands p n (.param p n)
  | argument {e : TypeRef} {as : List TypeRef} {a : TypeRef} (listed : a ∈ as)
      (h : Stands p n a) : Stands p n (.generic e as)
  | array {e : TypeRef} (h : Stands p n e) : Stands p n (.array e)

section

variable {P : UInt16 → String → Prop}

theorem forall_stands_named (s f : String) : ∀ p n, (named s f).Stands p n → P p n := nofun

theorem forall_stands_generic {e : TypeRef} {as : List TypeRef} :
    (∀ p n, (generic e as).Stands p n → P p n) ↔ ∀ a ∈ as, ∀ p n, a.Stands p n → P p n := by
  constructor
  · intro all a listed p n stands
    exact all p n (.argument listed stands)
  · intro all p n stands
    cases stands with
    | argument listed stands => exact all _ listed p n stands

theorem forall_stands_array {e : TypeRef} :
    (∀ p n, (array e).Stands p n → P p n) ↔ ∀ p n, e.Stands p n → P p n := by
  constructor
  · intro all p n stands
    exact all p n (.array stands)
  · intro all p n stands
    cases stands with
    | array stands => exact all p n stands

theorem forall_stands_param {q : UInt16} {m : String} :
    (∀ p n, (param q m).Stands p n → P p n) ↔ P q m := by
  constructor
  · intro all
    exact all q m .param
  · intro here p n stands
    cases stands
    exact here

end

theorem paramsBelow_iff {k : Nat} {t : TypeRef} :
    t.paramsBelow k ↔ ∀ p n, t.Stands p n → p.toNat < k := by
  induction t with
  | named s f => exact iff_of_true rfl (forall_stands_named s f)
  | generic e as _ ih =>
      rw [paramsBelow, allParamsBelow_iff, forall_stands_generic]
      exact forall₂_congr ih
  | array e ih => exact ih.trans forall_stands_array.symm
  | param q m => rw [paramsBelow, decide_eq_true_iff, forall_stands_param]

/-- Two substitutions are one by bound arguments exactly if the second leaves alone what the first
leaves over. -/
theorem bind_bind_iff {args bound : List TypeRef} {t : TypeRef} :
    bind bound (bind args t) = bind (args.map (bind bound)) t ↔
      ∀ p n, t.Stands p n → p.toNat < args.length ∨ bind bound (.param p n) = .param p n := by
  induction t with
  | named s f => exact iff_of_true rfl (forall_stands_named s f)
  | generic e as _ ih =>
      simp only [bind_generic, List.map_map, generic.injEq, true_and, List.map_inj_left,
        Function.comp_apply]
      rw [forall_stands_generic]
      exact forall₂_congr ih
  | array e ih =>
      simp only [bind_array, array.injEq]
      exact ih.trans forall_stands_array.symm
  | param q m =>
      rw [forall_stands_param, bind_param args, bind_param (args.map _), List.getElem?_map]
      by_cases inside : q.toNat < args.length
      · rw [List.getElem?_eq_getElem inside]
        exact iff_of_true rfl (.inl inside)
      · rw [List.getElem?_eq_none (Nat.not_lt.mp inside)]
        exact (or_iff_right inside).symm

theorem bind_bind {args bound : List TypeRef} {t : TypeRef} (below : t.paramsBelow args.length) :
    bind bound (bind args t) = bind (args.map (bind bound)) t := by
  apply bind_bind_iff.mpr
  intro p n stands
  exact .inl (paramsBelow_iff.mp below p n stands)

/-- Substitution composes: where every parameter of a reference has an argument, what becomes of the
reference by two lists of arguments is what becomes of it by the first list, bound to the second.
Elements of instantiations have no part in this. -/
theorem substitute_substitute {t : TypeRef} {args bound : List TypeRef}
    (inside : ∀ p n, t.Stands p n → p.toNat < args.length) :
    (t.substitute args).substitute bound = t.substitute (args.map (·.substitute bound)) :=
  bind_bind (paramsBelow_iff.mpr inside)

/-- The element of this instantiation mentions a parameter beyond all arguments. One of these keeps
a parameter that the second list binds, the other one a parameter that it does not. -/
theorem nestedMap_substituted :
    let map (k v : TypeRef) : TypeRef := .generic (.array (.param 9 "E")) [.array k, .array v]
    let list (a : TypeRef) : TypeRef := .generic (.named "Core" "List`1") [a]
    let t := map (list (.param 1 "V")) (.param 0 "K")
    let args : List TypeRef := [list (.param 2 "U"), .array (.param 0 "T")]
    let bound : List TypeRef := [.named "Game" "Ship"]
    (∀ p n, t.Stands p n → p.toNat < args.length) ∧
      (t.substitute args).substitute bound = t.substitute (args.map (·.substitute bound)) ∧
      t.substitute (args.map (·.substitute bound)) =
        map (list (.array (.named "Game" "Ship"))) (list (.param 2 "U")) := by
  intro map list t args bound
  have inside : ∀ p n, t.Stands p n → p.toNat < args.length := paramsBelow_iff.mp (by decide)
  exact ⟨inside, substitute_substitute inside, rfl⟩

end Companions.TypeRef
