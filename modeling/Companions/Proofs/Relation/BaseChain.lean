import Mathlib.Data.List.Chain
import Companions.Proofs.Relation.Growth
/-!
Base chains end. What a link resolves to is written in a declared base or in the reference that the
chain starts from, whatever arguments are bound on the way, and no definition comes a second time. So
a chain is what one finds by going from base to base until there is none, or one that was met.
-/
namespace Companions.Context
variable {c : Context}

/-! ## Going from base to base -/

/-- `b` is the declared base of the node that `s` resolves to, bound to the arguments of `s`. -/
def Derives (c : Context) (s b : TypeRef) : Prop :=
  ∃ r d, c.resolve? s = some r ∧ r.node.base = some d ∧ b = d.substitute s.arguments

theorem base?_eq_some {s b : TypeRef} : c.base? s = some b ↔ c.Derives s b := by
  simp only [base?, Derives, Option.bind_eq_bind, Option.bind_eq_some_iff, Option.pure_def,
    Option.some.injEq, exists_and_left]
  simp only [eq_comm]

theorem Derives.unique {s a b : TypeRef} (h : c.Derives s a) (h' : c.Derives s b) : a = b :=
  Option.some.inj ((base?_eq_some.mpr h).symm.trans (base?_eq_some.mpr h'))

/-- Why a chain that has met definitions of the given names goes no further than `t`. Only the last
of the reasons is noted. -/
inductive Stops (c : Context) (met : List String) (t : TypeRef) : Bool → Prop where
  | unresolved (unknown : c.resolve? t = none) : Stops c met t false
  | rootless {r : Resolved} (found : c.resolve? t = some r) (top : r.node.base = none) :
      Stops c met t false
  | cyclic {b : TypeRef} (base : c.Derives t b) (old : b.definitionName ∈ met) : Stops c met t true

/-- What one meets by going on from `t`. -/
inductive Climbs (c : Context) : List String → TypeRef → BaseChain → Prop where
  | stop {met : List String} {t : TypeRef} {cyclic : Bool} (h : c.Stops met t cyclic) :
      Climbs c met t { cyclic := cyclic }
  | link {met : List String} {t b : TypeRef} {chain : BaseChain} (base : c.Derives t b)
      (new : b.definitionName ∉ met) (rest : Climbs c (b.definitionName :: met) b chain) :
      Climbs c met t { chain with items := b :: chain.items }

theorem Stops.mono {met met' : List String} {t : TypeRef} {cyclic : Bool}
    (h : c.Stops met t cyclic) (more : ∀ n ∈ met, n ∈ met') : c.Stops met' t cyclic := by
  cases h with
  | unresolved unknown => exact .unresolved unknown
  | rootless found top => exact .rootless found top
  | cyclic base old => exact .cyclic base (more _ old)

theorem stops_of_none {met : List String} {t : TypeRef} {cyclic : Bool} (top : c.base? t = none) :
    c.Stops met t cyclic ↔ cyclic = false := by
  constructor
  · intro h
    cases h with
    | cyclic base old => rw [base?_eq_some.mpr base] at top; cases top
    | _ => rfl
  · rintro rfl
    cases found : c.resolve? t with
    | none => exact .unresolved found
    | some r =>
        refine .rootless found (Option.eq_none_iff_forall_ne_some.mpr fun d own => ?_)
        rw [base?_eq_some.mpr ⟨r, d, found, own, rfl⟩] at top
        cases top

theorem stops_of_derives {met : List String} {t b : TypeRef} {cyclic : Bool}
    (base : c.Derives t b) : c.Stops met t cyclic ↔ cyclic = true ∧ b.definitionName ∈ met := by
  constructor
  · intro h
    obtain ⟨r, d, found, own, -⟩ := id base
    cases h with
    | unresolved unknown => rw [found] at unknown; cases unknown
    | rootless found' top =>
        obtain rfl := Option.some.inj (found.symm.trans found')
        rw [own] at top
        cases top
    | cyclic base' old => exact ⟨rfl, base'.unique base ▸ old⟩
  · rintro ⟨rfl, old⟩
    exact .cyclic base old

/-- There is one way to go on. -/
theorem Climbs.unique {met : List String} {t : TypeRef} {chain chain' : BaseChain}
    (h : c.Climbs met t chain) (h' : c.Climbs met t chain') : chain = chain' := by
  induction h generalizing chain' with
  | @stop met t cyclic stop =>
      cases h' with
      | @stop _ _ cyclic' stop' =>
          cases base : c.base? t with
          | none => rw [(stops_of_none base).mp stop, (stops_of_none base).mp stop']
          | some b =>
              have base := base?_eq_some.mp base
              rw [((stops_of_derives base).mp stop).1, ((stops_of_derives base).mp stop').1]
      | link base new rest => exact absurd ((stops_of_derives base).mp stop).2 new
  | link base new rest ih =>
      cases h' with
      | stop stop' => exact absurd ((stops_of_derives base).mp stop').2 new
      | link base' new' rest' =>
          obtain rfl := base.unique base'
          rw [ih rest']

/-! ## Definitions met -/

/-- What is resolved has its definition from a part. -/
theorem mem_definitionNames {U : List TypeRef} {t : TypeRef} {r : Resolved} (ht : t.Spelled U)
    (found : c.resolve? t = some r) : ∃ u ∈ U, u.definitionName = t.definitionName := by
  cases ht with
  | part mem => exact ⟨t, mem, rfl⟩
  | generic pattern => exact ⟨_, pattern, rfl⟩
  | array => cases found

theorem Derives.spelled {U : List TypeRef} (closed : TypeRef.PartsClosed U)
    (bases : ∀ d ∈ c.bases, d ∈ U) {s b : TypeRef} (hs : s.Spelled U) (h : c.Derives s b) :
    b.Spelled U := by
  obtain ⟨r, d, found, own, rfl⟩ := h
  obtain ⟨image, node⟩ := resolve?_mem found
  refine .bind closed (fun a ha => hs.mem_arguments closed ha) (bases d ?_)
  exact List.mem_flatMap.mpr ⟨_, image, List.mem_filterMap.mpr ⟨_, node, own⟩⟩

/-- Each link that resolves meets one more of the definitions that the parts are made of, and one that
does not resolve is the last. -/
theorem chainFrom_climbs {U : List TypeRef} (closed : TypeRef.PartsClosed U)
    (bases : ∀ d ∈ c.bases, d ∈ U) {n : Nat} {met : List String} {t : TypeRef} (ht : t.Spelled U)
    (enough : U.countP (fun u => u.definitionName ∉ met) + 1 < n) :
    c.Climbs met t (c.chainFrom n met t) := by
  induction n generalizing met t with
  | zero => omega
  | succ n ih =>
      rw [chainFrom]
      cases base : c.base? t with
      | none => exact .stop ((stops_of_none base).mpr rfl)
      | some b =>
          have base := base?_eq_some.mp base
          dsimp only
          split
          · next old => exact .stop (.cyclic base old)
          · next new =>
              refine .link base new ?_
              have hb := base.spelled closed bases ht
              cases found : c.resolve? b with
              | some r =>
                  obtain ⟨u, hu, same⟩ := mem_definitionNames hb found
                  have fewer := countP_notMem_cons_lt hu (same ▸ new)
                  rw [same] at fewer
                  exact ih hb (by omega)
              | none =>
                  -- its definition need not be that of a part, but it is the last link anyway
                  obtain ⟨n, rfl⟩ := Nat.exists_eq_add_one_of_ne_zero (show n ≠ 0 by omega)
                  have top : c.base? b = none := by simp [base?, found]
                  rw [chainFrom, top]
                  exact .stop (.unresolved found)

theorem baseChain_climbs (c : Context) (t : TypeRef) :
    c.Climbs [t.definitionName] t (c.baseChain t) := by
  have closed : TypeRef.PartsClosed ((t :: c.bases).flatMap TypeRef.parts) :=
    .flatMap fun u _ => u.partsClosed_parts
  have mem (u) (hu : u ∈ t :: c.bases) : u ∈ (t :: c.bases).flatMap TypeRef.parts :=
    List.mem_flatMap.mpr ⟨u, hu, u.self_mem_parts⟩
  refine chainFrom_climbs closed (fun d hd => mem d (List.mem_cons_of_mem t hd))
    (.part (mem t List.mem_cons_self)) ?_
  have few := List.countP_le_length (p := fun u : TypeRef => u.definitionName ∉ [t.definitionName])
    (l := (t :: c.bases).flatMap TypeRef.parts)
  rw [List.flatMap_cons, List.length_append] at few
  rw [List.flatMap_cons]
  exact Nat.add_lt_add_right (Nat.lt_succ_of_le few) 1

theorem climbs_iff_baseChain {t : TypeRef} {chain : BaseChain} :
    c.Climbs [t.definitionName] t chain ↔ chain = c.baseChain t :=
  ⟨fun h => h.unique (c.baseChain_climbs t), fun h => h ▸ c.baseChain_climbs t⟩

/-! ## What is met -/

namespace Climbs
variable {met : List String} {t : TypeRef} {chain : BaseChain}

theorem nodup (h : c.Climbs met t chain) (distinct : met.Nodup) :
    (chain.items.map TypeRef.definitionName ++ met).Nodup := by
  induction h with
  | stop => exact distinct
  | link _ new _ ih =>
      have rest := ih (List.nodup_cons.mpr ⟨new, distinct⟩)
      exact List.perm_middle.nodup_iff.mp rest

theorem isChain (h : c.Climbs met t chain) : (t :: chain.items).IsChain c.Derives := by
  induction h with
  | stop => exact .singleton _
  | link base _ _ ih => exact .cons_cons base ih

theorem stops (h : c.Climbs met t chain) : ∃ last, (t :: chain.items).getLast? = some last ∧
    c.Stops (chain.items.map TypeRef.definitionName ++ met) last chain.cyclic := by
  induction h with
  | stop stop => exact ⟨_, rfl, stop⟩
  | link _ _ _ ih =>
      obtain ⟨last, final, stop⟩ := ih
      refine ⟨last, final, stop.mono fun n hn => ?_⟩
      exact List.perm_middle.mem_iff.mp hn

end Climbs

theorem baseChain_nodup (c : Context) (t : TypeRef) :
    ((t :: (c.baseChain t).items).map TypeRef.definitionName).Nodup :=
  (List.perm_append_singleton _ _).nodup_iff.mp
    ((c.baseChain_climbs t).nodup (List.pairwise_singleton _ _))

/-- A base chain ends, and going from base to base finds nothing else. Neither the start nor any two
items have one definition; each item is the base that is declared for the one before it, bound to
the arguments of that; and the chain ends only where a reference does not resolve, where its node
has no base, or where the definition of the base was met before. -/
theorem baseChain_exact (c : Context) (t : TypeRef) :
    (∀ chain, c.Climbs [t.definitionName] t chain ↔ chain = c.baseChain t) ∧
    ((t :: (c.baseChain t).items).map TypeRef.definitionName).Nodup ∧
    (t :: (c.baseChain t).items).IsChain c.Derives ∧
    ∃ last, (t :: (c.baseChain t).items).getLast? = some last ∧
      c.Stops ((t :: (c.baseChain t).items).map TypeRef.definitionName) last
        (c.baseChain t).cyclic := by
  have climbs := c.baseChain_climbs t
  obtain ⟨last, final, stop⟩ := climbs.stops
  refine ⟨fun chain => climbs_iff_baseChain, c.baseChain_nodup t, climbs.isChain, last, final, ?_⟩
  exact stop.mono fun n hn => (List.perm_append_singleton _ _).mem_iff.mp hn

/-- A mixin derives from whatever it is given, and a node from a node of nodes. -/
def mixins : Context where
  target := Image.rebuildLookup {
    identity := { name := "Game" }
    types := [
      { name := "Mixin`1", kind := .classType, flags := .isPublic, genericParams := ["T"],
        base := some (.param 0 "T") },
      { name := "Node`1", kind := .classType, flags := .isPublic, genericParams := ["T"],
        base := some (.generic (.named "Game" "Node`1")
          [.generic (.named "Game" "Node`1") [.param 0 "T"]]) }]
    roots := [0, 1] }

example :
    let node : TypeRef := .generic (.named "Game" "Node`1") [.named "Game" "A"]
    mixins.baseChain (.generic (.named "Game" "Mixin`1") [node]) =
      { items := [node], cyclic := true } := by decide +kernel

end Companions.Context
