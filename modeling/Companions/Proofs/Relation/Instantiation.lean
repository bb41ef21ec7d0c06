import Companions.Proofs.Substitution
import Companions.Proofs.Relation.BaseChain
/-!
Base chains of instantiations. Where each declared base gives the definition that it names as many
arguments as that has parameters, and mentions parameters of its own node only, arguments can be bound
at the start of a chain or at its end: two links bound one after the other are one link bound to
bound arguments, and what is bound has no part in where a chain stops.
-/
namespace Companions

/-- Whether the reference is to a named type or to an instantiation of one. -/
def TypeRef.isNominal : TypeRef → Bool
  | .named .. => true
  | .generic (.named ..) _ => true
  | _ => false

/-- The chain with all items bound to the arguments. -/
def BaseChain.bind (args : List TypeRef) (chain : BaseChain) : BaseChain :=
  { chain with items := chain.items.map (·.substitute args) }

namespace Context
variable {c : Context}

/-- What a node with so many parameters may declare as its base: a nominal reference that mentions no
other parameters, with an argument for each parameter of the definition that it resolves to. -/
def isBaseFor (c : Context) (params : Nat) (b : TypeRef) : Bool :=
  b.isNominal && b.paramsBelow params &&
    (c.resolve? b).all fun r => b.arguments.length = r.node.genericParams.length

/-- Whether this holds of every declared base. -/
def basesFit (c : Context) : Bool :=
  c.images.all fun m => m.types.all fun d => d.base.all (c.isBaseFor d.genericParams.length)

theorem basesFit_resolved (fit : c.basesFit) {t d : TypeRef} {r : Resolved}
    (found : c.resolve? t = some r) (own : r.node.base = some d) :
    c.isBaseFor r.node.genericParams.length d := by
  obtain ⟨image, node⟩ := resolve?_mem found
  have each := List.all_eq_true.mp (List.all_eq_true.mp fit _ image) _ node
  rw [own] at each
  exact each

theorem isBaseFor_iff {params : Nat} {b : TypeRef} : c.isBaseFor params b ↔
    b.isNominal ∧ b.paramsBelow params ∧
      ∀ r, c.resolve? b = some r → b.arguments.length = r.node.genericParams.length := by
  simp [isBaseFor, Option.all_eq_true, and_assoc]

/-! ## Binding a link -/

theorem isNominal_cases {t : TypeRef} (nominal : t.isNominal) :
    (∃ s f, t = .named s f) ∨ ∃ s f as, t = .generic (.named s f) as := by
  cases t with
  | named s f => exact .inl ⟨s, f, rfl⟩
  | generic e as =>
      cases e with
      | named s f => exact .inr ⟨s, f, as, rfl⟩
      | _ => cases nominal
  | array e => cases nominal
  | param p n => cases nominal

/-- Binding changes the arguments of a nominal reference and leaves its definition as it is. -/
theorem bind_nominal {t : TypeRef} (nominal : t.isNominal) (args : List TypeRef) :
    (TypeRef.bind args t).isNominal ∧
      (TypeRef.bind args t).definitionName = t.definitionName ∧
      c.resolve? (TypeRef.bind args t) = c.resolve? t ∧
      (TypeRef.bind args t).arguments = t.arguments.map (TypeRef.bind args) := by
  obtain ⟨s, f, rfl⟩ | ⟨s, f, as, rfl⟩ := isNominal_cases nominal
  · exact ⟨rfl, rfl, rfl, rfl⟩
  · rw [TypeRef.bind_generic]
    exact ⟨rfl, rfl, rfl, rfl⟩

/-- `t'` stands for `t` with its parameters bound to `args`: both are instances of one definition, and
whatever this may declare becomes for `t'` what it becomes for `t`, bound to `args`. -/
structure Bound (c : Context) (args : List TypeRef) (t t' : TypeRef) : Prop where
  definition : t'.definitionName = t.definitionName
  resolved : c.resolve? t' = c.resolve? t
  declared : ∀ r, c.resolve? t = some r → ∀ d : TypeRef, d.paramsBelow r.node.genericParams.length →
    d.substitute t'.arguments = (d.substitute t.arguments).substitute args

namespace Bound
variable {args : List TypeRef} {t t' : TypeRef}

theorem instantiation (s f : String) (args : List TypeRef) :
    c.Bound args (.named s f) (.generic (.named s f) args) where
  definition := rfl
  resolved := rfl
  declared _ _ d _ := by
    rw [TypeRef.substitute, TypeRef.substitute, TypeRef.substitute]
    exact congrArg _ (TypeRef.bind_nil d).symm

/-- What is given as many arguments as its definition has parameters is bound by binding these. -/
theorem substitute (nominal : t.isNominal)
    (length : ∀ r, c.resolve? t = some r → t.arguments.length = r.node.genericParams.length) :
    c.Bound args t (t.substitute args) := by
  obtain ⟨-, definition, resolved, arguments⟩ := bind_nominal (c := c) nominal args
  refine ⟨definition, resolved, fun r found d below => ?_⟩
  simp only [TypeRef.substitute, arguments]
  exact (TypeRef.bind_bind (length r found ▸ below)).symm

theorem derives (h : c.Bound args t t') (fit : c.basesFit) {b : TypeRef} (base : c.Derives t b) :
    c.Derives t' (b.substitute args) ∧ c.Bound args b (b.substitute args) := by
  obtain ⟨r, d, found, own, rfl⟩ := base
  obtain ⟨nominal, below, length⟩ := isBaseFor_iff.mp (basesFit_resolved fit found own)
  refine ⟨⟨r, d, h.resolved.trans found, own, (h.declared r found d below).symm⟩, ?_⟩
  obtain ⟨nominal', -, resolved, arguments⟩ := bind_nominal (c := c) nominal t.arguments
  refine substitute nominal' fun r' found' => ?_
  rw [TypeRef.substitute, resolved] at found'
  rw [TypeRef.substitute, arguments, List.length_map, length r' found']

theorem stops (h : c.Bound args t t') (fit : c.basesFit) {met : List String} {cyclic : Bool}
    (stop : c.Stops met t cyclic) : c.Stops met t' cyclic := by
  cases stop with
  | unresolved unknown => exact .unresolved (h.resolved.trans unknown)
  | rootless found top => exact .rootless (h.resolved.trans found) top
  | cyclic base old =>
      obtain ⟨base', bound⟩ := h.derives fit base
      exact .cyclic base' (bound.definition ▸ old)

/-- Going on from a bound reference one meets what is met without, bound. -/
theorem climbs (h : c.Bound args t t') (fit : c.basesFit) {met : List String} {chain : BaseChain}
    (climbs : c.Climbs met t chain) : c.Climbs met t' (chain.bind args) := by
  induction climbs generalizing t' with
  | stop stop => exact .stop (h.stops fit stop)
  | link base new _ ih =>
      obtain ⟨base', bound⟩ := h.derives fit base
      have rest := ih bound
      rw [← bound.definition] at new rest
      exact .link base' new rest

end Bound

/-- Where the declared bases fit their definitions, the base chain of an instantiation is the base
chain of what it instantiates, bound to the arguments, and it is cut where that is cut. Nothing is
asked of the start but that it names something. -/
theorem baseChain_instantiation (fit : c.basesFit) (s f : String) (args : List TypeRef) :
    (c.baseChain (.generic (.named s f) args)).items =
        (c.baseChain (.named s f)).items.map (·.substitute args) ∧
      (c.baseChain (.generic (.named s f) args)).cyclic = (c.baseChain (.named s f)).cyclic := by
  have bound : c.Bound args (.named s f) (.generic (.named s f) args) := .instantiation s f args
  have climbs := bound.climbs fit (c.baseChain_climbs (.named s f))
  rw [← bound.definition, climbs_iff_baseChain] at climbs
  rw [← climbs]
  exact ⟨rfl, rfl⟩

/-- A map is a store of pairs and a bag of keys, and a store is a box of lists. -/
def collections : Context where
  target := Image.rebuildLookup {
    identity := { name := "Game" }
    types := [
      { name := "Map`2", kind := .classType, flags := .isPublic, genericParams := ["K", "V"],
        base := some (.generic (.named "Game" "Store`1")
          [.generic (.named "Core" "Pair`2") [.param 1 "V", .param 0 "K"]])
        interfaces := [.generic (.named "Game" "Bag`1") [.param 0 "K"]] },
      { name := "Store`1", kind := .classType, flags := .isPublic, genericParams := ["T"],
        base := some (.generic (.named "Game" "Box`1")
          [.generic (.named "Core" "List`1") [.array (.param 0 "T")]]) },
      { name := "Box`1", kind := .classType, flags := .isPublic, genericParams := ["T"],
        base := some (.named "Game" "Object") },
      { name := "Bag`1", kind := .interfaceType, flags := .isPublic, genericParams := ["T"] },
      { name := "Object", kind := .classType, flags := .isPublic }]
    roots := [0, 1, 2, 3, 4] }

/-- A map from names to ships is a box of lists of arrays of pairs. -/
theorem collections_bound :
    let pair (a b : TypeRef) : TypeRef := .generic (.named "Core" "Pair`2") [b, a]
    let key : TypeRef := .named "Core" "Name"
    let value : TypeRef := .named "Game" "Ship"
    collections.basesFit = true ∧
      (collections.baseChain (.generic (.named "Game" "Map`2") [key, value])).items =
        [.generic (.named "Game" "Store`1") [pair key value],
          .generic (.named "Game" "Box`1")
            [.generic (.named "Core" "List`1") [.array (pair key value)]],
          .named "Game" "Object"] := by
  intro pair key value
  have fit : collections.basesFit := by decide +kernel
  have unbound : (collections.baseChain (.named "Game" "Map`2")).items =
      [.generic (.named "Game" "Store`1") [pair (.param 0 "K") (.param 1 "V")],
        .generic (.named "Game" "Box`1")
          [.generic (.named "Core" "List`1") [.array (pair (.param 0 "K") (.param 1 "V"))]],
        .named "Game" "Object"] := by decide +kernel
  refine ⟨fit, ?_⟩
  rw [(baseChain_instantiation fit "Game" "Map`2" [key, value]).1, unbound]
  rfl

end Context
end Companions
