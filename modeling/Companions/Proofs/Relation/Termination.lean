import Mathlib.Tactic.Choose
import Companions.Proofs.Relation.Decision
import Companions.Proofs.Relation.Growth
/-!
When walks end. A walk marks a new name or shortens what is pending, so it ends if finitely many
references are reached, and it cannot end without success if names go on for ever. As only arrays
grow without limit, the walks of a context end exactly where the nesting of arrays is bounded.
-/
namespace Companions

/-- A computation that gives one answer for every budget from some budget on. -/
def Settles {α : Type} (f : Nat → Option α) : Prop := ∃ n a, ∀ b ≥ n, f b = some a

theorem Settles.of_eq {α : Type} {f : Nat → Option α} {a : α} (h : ∀ b, f b = some a) : Settles f :=
  ⟨0, a, fun b _ => h b⟩

theorem eventually_of_succ {α : Type} {f : Nat → Option α} {n : Nat} {a : α}
    (h : ∀ b ≥ n, f (b + 1) = some a) : ∀ b ≥ n + 1, f b = some a := by
  intro b hb
  cases b with
  | zero => omega
  | succ b => exact h b (by omega)

theorem exists_bound {α : Type} (f : α → Nat) (as : List α) : ∃ n, ∀ a ∈ as, f a ≤ n := by
  induction as with
  | nil => exact ⟨0, by simp⟩
  | cons a as ih =>
      obtain ⟨n, hn⟩ := ih
      refine ⟨max (f a) n, List.forall_mem_cons.mpr ⟨Nat.le_max_left .., fun b hb => ?_⟩⟩
      exact Nat.le_trans (hn b hb) (Nat.le_max_right ..)

/-- What holds of each item from some number on holds of all of them from some number on. -/
theorem eventually_all {α : Type} {P : α → Nat → Prop} {as : List α}
    (h : ∀ a ∈ as, ∃ n, ∀ m ≥ n, P a m) : ∃ n, ∀ m ≥ n, ∀ a ∈ as, P a m := by
  induction as with
  | nil => exact ⟨0, fun _ _ => nofun⟩
  | cons a as ih =>
      obtain ⟨⟨n, own⟩, others⟩ := List.forall_mem_cons.mp h
      obtain ⟨k, rest⟩ := ih others
      refine ⟨max n k, fun m more => List.forall_mem_cons.mpr ⟨own m ?_, rest m ?_⟩⟩
      · exact Nat.le_trans (Nat.le_max_left n k) more
      · exact Nat.le_trans (Nat.le_max_right n k) more

/-! ## Arguments -/

section arguments

variable {check : Nat → TypeRef → TypeRef → Option Verdict}

theorem allPairs_settles {pairs : List (TypeRef × TypeRef)}
    (h : ∀ p ∈ pairs, Settles fun b => check b p.1 p.2) :
    Settles fun b => allPairs (check b) pairs := by
  induction pairs with
  | nil => exact .of_eq fun _ => rfl
  | cons p rest ih =>
      obtain ⟨s, t⟩ := p
      obtain ⟨⟨n, v, first⟩, others⟩ := List.forall_mem_cons.mp h
      obtain ⟨m, u, remaining⟩ := ih others
      cases holds : v.holds with
      | true =>
          refine ⟨max n m, u.after v, fun b hb => ?_⟩
          have tail : allPairs (check b) rest = some u := remaining b (by omega)
          have head : check b s t = some v := first b (by omega)
          change allPairs (check b) ((s, t) :: rest) = _
          simp [allPairs, head, holds, tail]
      | false =>
          refine ⟨n, v, fun b hb => ?_⟩
          have head : check b s t = some v := first b hb
          change allPairs (check b) ((s, t) :: rest) = _
          simp [allPairs, head, holds]

theorem argumentsMatch_settles {s t : TypeRef}
    (h : ∀ a ∈ s.arguments, ∀ u, Settles fun b => check b a u) :
    Settles fun b => argumentsMatch (check b) s t := by
  cases s with
  | generic e as =>
      cases t with
      | generic f bs =>
          simp only [argumentsMatch]
          split
          · exact allPairs_settles fun p hp => h p.1 (List.of_mem_zip hp).1 p.2
          · exact .of_eq fun _ => rfl
      | _ => exact .of_eq fun _ => rfl
  | _ => exact .of_eq fun _ => rfl

end arguments

namespace Context

/-! ## A walk over finitely many references -/

/-- How many of the references have a name that is not marked. -/
def unmarked (all : List TypeRef) (visited : List String) : Nat :=
  all.countP fun t => t.uniqueName ∉ visited

theorem unmarked_cons_lt {all : List TypeRef} {visited : List String} {t : TypeRef} (ht : t ∈ all)
    (new : t.uniqueName ∉ visited) : unmarked all (t.uniqueName :: visited) < unmarked all visited :=
  countP_notMem_cons_lt ht new

/-- A walk within finitely many references ends, whatever is answered on the way: each step
marks one more of them or takes one from those pending. -/
theorem walk_settles {c : Context} (target : TypeRef) {R : TypeRef → Prop} {all : List TypeRef}
    (up : ∀ t u, R t → c.Supertype t u → R u) (fin : ∀ t, R t → t ∈ all) (answer : TypeRef → Verdict)
    (visited : List String) (pending : List TypeRef) (hp : ∀ t ∈ pending, R t) :
    ∃ n v, ∀ fits, (∀ t, R t → fits t = some (answer t)) → ∀ b ≥ n,
      c.walk target fits b visited pending = some v := by
  generalize hm : unmarked all visited = m
  induction m using Nat.strongRecOn generalizing visited pending with
  | ind m marks =>
      induction pending with
      | nil => exact ⟨0, { holds := false }, fun fits _ b _ => by rw [walk]⟩
      | cons t pending shorter =>
          obtain ⟨ht, hp⟩ := List.forall_mem_cons.mp hp
          by_cases old : t.uniqueName ∈ visited
          · obtain ⟨n, v, ends⟩ := shorter hp
            refine ⟨n + 1, v, fun fits answers => eventually_of_succ fun b hb => ?_⟩
            rw [walk_again old]
            exact ends fits answers b hb
          by_cases same : t.uniqueName = target.uniqueName
          · refine ⟨0 + 1, { holds := true }, fun fits _ => eventually_of_succ fun b _ => ?_⟩
            exact walk_name old same
          cases holds : (answer t).holds with
          | true =>
              refine ⟨0 + 1, answer t, fun fits answers => eventually_of_succ fun b _ => ?_⟩
              exact walk_fit old same (answers t ht) holds
          | false =>
              have fewer := hm ▸ unmarked_cons_lt (fin t ht) old
              have inside : ∀ u ∈ c.next t ++ pending, R u := by
                intro u hu
                rcases List.mem_append.mp hu with above | before
                · exact up t u ht (mem_next.mp above)
                · exact hp u before
              obtain ⟨n, v, ends⟩ := marks _ fewer (t.uniqueName :: visited) _ inside rfl
              refine ⟨n + 1, v.after { answer t with deepTypes := (answer t).deepTypes + c.skipped t },
                fun fits answers => eventually_of_succ fun b hb => ?_⟩
              rw [walk_miss old same (answers t ht) holds, ends fits answers b hb]
              rfl

/-! ## Checks -/

/-- A class of references that neither steps up nor arguments lead out of. -/
structure Hereditary (c : Context) (P : TypeRef → Prop) : Prop where
  up : ∀ t u, P t → c.Supertype t u → P u
  inner : ∀ t a, P t → a ∈ t.arguments → P a

theorem hereditary_plain {c : Context} (hc : c.isPlain) : c.Hereditary (·.isPlain = true) where
  up _ _ ht step := step.plain hc ht
  inner _ _ ht ha := TypeRef.isPlain_arguments ht ha

theorem checkAt_settles {c : Context} {P : TypeRef → Prop} (hP : c.Hereditary P)
    (bounded : ∀ t, P t → c.ArrayBounded t) (levels : Nat) {s t : TypeRef} (hs : P s) :
    Settles fun b => c.checkAt b levels s t := by
  induction levels generalizing s t with
  | zero => exact .of_eq fun _ => rfl
  | succ n ih =>
      obtain ⟨all, fin⟩ := (bounded s hs).finite
      have reached (r) (run : c.Reaches s r) : P r := by
        induction run with
        | refl => exact hs
        | tail _ step ih => exact hP.up _ _ ih step
      have matches' (r) : ∃ m v, c.Reaches s r → ∀ b ≥ m,
          argumentsMatch (c.checkAt b n) r t = some v := by
        by_cases run : c.Reaches s r
        · obtain ⟨m, v, h⟩ := argumentsMatch_settles (s := r) (t := t)
            fun a ha u => ih (t := u) (hP.inner r a (reached r run) ha)
          exact ⟨m, v, fun _ => h⟩
        · exact ⟨0, { holds := false }, fun h => absurd h run⟩
      choose m answer agrees using matches'
      obtain ⟨most, hmost⟩ := exists_bound m all
      obtain ⟨steps, v, ends⟩ := walk_settles t (fun r u run step => run.tail step) fin
        answer [] [s] (List.forall_mem_singleton.mpr .refl)
      refine ⟨max most steps, v, fun b hb => ?_⟩
      refine ends _ (fun r run => agrees r run b ?_) b (by omega)
      exact Nat.le_trans (hmost r (fin r run)) (by omega)

/-- A check that ends without success has met every name above the candidate, and these are
finitely many. -/
theorem arrayBounded_of_fails {c : Context} (hc : c.isPlain) {budget levels : Nat} {s t : TypeRef}
    (hs : s.isPlain) {v : Verdict} (h : c.checkAt budget (levels + 1) s t = some v)
    (hv : v.holds = false) : c.ArrayBounded s := by
  obtain ⟨all, -, met⟩ := checkAt_explored hc hs h hv
  obtain ⟨n, bound⟩ := exists_bound (fun t => t.uniqueName.length) all
  refine ⟨n, fun u run => ?_⟩
  obtain ⟨w, hw, same⟩ := met u run
  calc u.arrayNesting ≤ u.uniqueName.length := u.arrayNesting_le_length
    _ = w.uniqueName.length := by
      rw [← TypeRef.uniqueName_positional, ← same, TypeRef.uniqueName_positional]
    _ ≤ n := bound w hw

/-- A target that no plain reference has the name of. -/
def unmet : TypeRef := .named "" "]"

theorem uniqueName_ne_unmet {t : TypeRef} (ht : t.isPlain) : t.uniqueName ≠ unmet.uniqueName := by
  intro h
  have text : t.backwards = ['/', ']'] := by
    rw [TypeRef.backwards, h]
    rfl
  have form := TypeRef.readForm_backwards ht (x := []) rfl
  rw [text] at form
  cases t with
  | generic e as =>
      cases e with
      | named s f =>
          obtain ⟨a, r, split⟩ :=
            List.exists_cons_of_ne_nil (mt List.reverse_eq_nil_iff.mp (TypeRef.isPlain_generic.mp ht).2.1)
          have length := congrArg List.length text
          rw [TypeRef.backwards_generic_named, split, TypeRef.argumentsBackwards_cons] at length
          simp at length
          omega
      | _ => cases form
  | _ => cases form

theorem unmet_fails {c : Context} (hc : c.isPlain) {budget levels : Nat} {s : TypeRef}
    (hs : s.isPlain) {v : Verdict} (h : c.checkAt budget levels s unmet = some v) :
    v.holds = false := by
  cases levels with
  | zero =>
      cases h
      rfl
  | succ n =>
      cases hv : v.holds with
      | false => rfl
      | true =>
          obtain ⟨t, ht, r, run, -, found⟩ := walk_sound h hv
          obtain rfl := List.mem_singleton.mp ht
          rcases found with name | ⟨w, hw, holds⟩
          · exact absurd name (uniqueName_ne_unmet (run.plain hc hs))
          · have none : argumentsMatch (c.checkAt budget n) r unmet = some { holds := false } := by
              cases r <;> rfl
            rw [none] at hw
            cases hw
            cases holds

/-- Every check of a context ends if nested arrays are bounded above every type, and between plain
references the bound is needed. -/
theorem assignable_ends_iff (c : Context) :
    ((∀ s, c.ArrayBounded s) → ∀ s t, ∃ budget v, c.assignable? budget s t = some v) ∧
    (c.isPlain → ((∀ s, s.isPlain → ∀ t, ∃ budget v, c.assignable? budget s t = some v) ↔
      ∀ s, s.isPlain → c.ArrayBounded s)) := by
  have ends {P : TypeRef → Prop} (hP : c.Hereditary P) (bounded : ∀ s, P s → c.ArrayBounded s) (s)
      (hs : P s) (t) : ∃ budget v, c.assignable? budget s t = some v := by
    obtain ⟨n, v, h⟩ := checkAt_settles hP bounded (maxGenericDepth + 1) (t := t) hs
    exact ⟨n, v, h n (Nat.le_refl n)⟩
  refine ⟨fun bounded s => ?_, fun hc => ⟨fun h s hs => ?_, ends (hereditary_plain hc)⟩⟩
  · exact ends (P := fun _ => True) ⟨fun _ _ _ _ => trivial, fun _ _ _ _ => trivial⟩
      (fun s _ => bounded s) s trivial
  · obtain ⟨budget, v, check⟩ := h s hs unmet
    exact arrayBounded_of_fails hc hs check (unmet_fails hc hs check)

/-- A generic node whose base is the node of something made of its parameter. -/
def nodesOf (argument : TypeRef) : Context where
  target := Image.rebuildLookup {
    identity := { name := "Game" }
    types := [
      { name := "A", kind := .classType, flags := .isPublic },
      { name := "Node`1", kind := .classType, flags := .isPublic, genericParams := ["T"],
        base := some (.generic (.named "Game" "Node`1") [argument]) }]
    roots := [0, 1] }

def node (t : TypeRef) : TypeRef := .generic (.named "Game" "Node`1") [t]

/-- A node above itself in an instantiation is no trouble. -/
theorem nodesOf_node_ends :
    let c := nodesOf (node (.param 0 "T"))
    (∀ s t, ∃ budget v, c.assignable? budget s t = some v) ∧ ∀ s, s.isPlain → c.ArrayBounded s := by
  intro c
  have ends := (assignable_ends_iff c).1 (arrayBounded_of_keepsArrays (by decide +kernel))
  exact ⟨ends, ((assignable_ends_iff c).2 (by decide +kernel)).mp fun s _ => ends s⟩

/-- Every node has the one of its array above it, and nothing else. -/
def Unrolls (c : Context) : Prop := ∀ t, c.supertypes (node t) = [node (.array t)]

theorem Unrolls.next {c : Context} (unrolls : c.Unrolls) {t : TypeRef} (h : t.nesting = 0) :
    c.next (node t) = [node (.array t)] := by
  have shallow : (node (.array t)).nesting ≤ maxGenericDepth := by
    simp [node, TypeRef.nesting, TypeRef.nestingAll, h, maxGenericDepth]
  rw [Context.next, unrolls, List.filter_cons_of_pos (by simpa using shallow), List.filter_nil]

theorem uniqueName_node (t : TypeRef) :
    (node t).uniqueName = "Node`1[[" ++ t.uniqueName ++ "]]/Game" := by
  simp only [node, TypeRef.uniqueName, TypeRef.uniqueNames, String.intercalate_singleton]
  simp only [← String.toList_inj, String.toList_append]
  simp

/-- Names of nodes get longer, so none comes a second time. -/
theorem Unrolls.walk {c : Context} (unrolls : c.Unrolls)
    (check : TypeRef → TypeRef → Option Verdict) (budget : Nat) {visited : List String} {t : TypeRef}
    (ht : t.nesting = 0)
    (shorter : ∀ name ∈ visited, name.length < (node t).uniqueName.length) :
    c.walk (.named "Game" "Other") (fun u => argumentsMatch check u (.named "Game" "Other")) budget
      visited [node t] = none := by
  induction budget generalizing visited t with
  | zero => rfl
  | succ n ih =>
      have new : (node t).uniqueName ∉ visited := fun h => Nat.lt_irrefl _ (shorter _ h)
      have other : (node t).uniqueName ≠ (TypeRef.named "Game" "Other").uniqueName := by
        rw [uniqueName_node, TypeRef.uniqueName, ne_eq, ← String.toList_inj]
        simp
      have longer : (node t).uniqueName.length < (node (.array t)).uniqueName.length := by
        simp only [uniqueName_node, TypeRef.uniqueName, String.length_append]
        have : "[]".length = 2 := by decide
        omega
      rw [walk_miss new other (v := { holds := false }) rfl rfl, unrolls.next ht, List.append_nil,
        ih (t := .array t) ht, Option.map_none]
      intro name hname
      rcases List.mem_cons.mp hname with rfl | hname
      · exact longer
      · exact Nat.lt_trans (shorter name hname) longer

/-- A check of a node against something else goes on for ever. -/
theorem Unrolls.never {c : Context} (unrolls : c.Unrolls) (budget : Nat) :
    c.assignable? budget (node (.named "Game" "A")) (.named "Game" "Other") = none :=
  unrolls.walk _ budget rfl (by simp)

/-- So does a check that comes to a node at its second step. -/
theorem Unrolls.never_below {c : Context} (unrolls : c.Unrolls) {s t : TypeRef} (ht : t.nesting = 0)
    (above : c.next s = [node t]) (other : s.uniqueName ≠ (TypeRef.named "Game" "Other").uniqueName)
    (shorter : s.uniqueName.length < (node t).uniqueName.length) (budget : Nat) :
    c.assignable? budget s (.named "Game" "Other") = none := by
  cases budget with
  | zero => rfl
  | succ n =>
      have miss (check : TypeRef → TypeRef → Option Verdict) :
          argumentsMatch check s (.named "Game" "Other") = some { holds := false } := by
        cases s <;> rfl
      have walk := unrolls.walk (c.checkAt (n + 1) maxGenericDepth) n ht
        (List.forall_mem_singleton.mpr shorter)
      rw [assignable?, checkAt, walk_miss List.not_mem_nil other (miss _) rfl, above,
        List.append_nil, walk]
      rfl

theorem nodesOf_unrolls : (nodesOf (.array (.param 0 "T"))).Unrolls := fun _ => rfl

/-- A node above itself in an array is asked about without end. -/
theorem nodesOf_array_never : ¬ ∃ budget v, (nodesOf (.array (.param 0 "T"))).assignable? budget
    (node (.named "Game" "A")) (.named "Game" "Other") = some v := by
  rintro ⟨budget, v, ends⟩
  have never : (nodesOf (.array (.param 0 "T"))).assignable? budget (node (.named "Game" "A"))
      (.named "Game" "Other") = none := nodesOf_unrolls.never budget
  rw [never] at ends
  cases ends

end Context
end Companions
