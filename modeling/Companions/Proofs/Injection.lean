import Companions.Proofs.Account
import Companions.Proofs.Selection
/-!
What one companion pass injects. The types of the index that lack a companion have their turns in
order, and each of them gets one unless its name is taken when its turn comes. Nothing else is
injected, and a pass that has something to inject fails exactly if the template gives no
constructor.
-/
namespace Companions

/-! ## Nodes -/

namespace Image
variable {m : Image}

/-- A node that is nested under a free name is entered, and the other entries stay. -/
theorem Tabulated.addNestedType (h : m.Tabulated) (sound : m.Sound) {parent : TypeId} {d : TypeDef}
    (inside : parent < m.size) (free : m.find? (Name.nest (m.fullName parent) d.name) = none)
    (bare : d.Bare) : (m.addNestedType parent d).Tabulated := by
  obtain ⟨l, new⟩ := sound.grounded.chain_addNestedType inside d
  have entered := (h.entered sound.grounded).more (keeps_addNestedType m parent d)
    (size_addNestedType ..) new (find?_addNestedType sound.grounded.linked inside d)
  exact entered.tabulated (sound.valid_addNestedType inside free bare)

end Image

/-- The companion of a node, written out: a public nested class that derives from the template bound
to the node's type, and that has nothing but a public constructor. This calls the one given as the
bound template declares it. -/
def CompanionRequest.companion (q : CompanionRequest) (template : Method) (source : TypeId)
    (host : TypeDef) (t : TypeRef) : TypeDef where
  name := host.name ++ q.suffix
  kind := .classType
  flags := .union .isPublic .nestedPublic
  base := some (.generic q.template [t])
  declaring := some source
  methods := [{
    name := ".ctor"
    flags := .constructor
    returnType := template.returnType
    body := [.loadThis, .call (template.reference (.generic q.template [t])), .ret] }]

namespace Context
variable {c d : Context} {budget : Nat} {x y : Index} {q : CompanionRequest} {base : Method}

/-! ## Turns -/

/-- The nodes have their turns one after the other, `names` being those that are taken. One that
lacks a companion gets it, and takes its name, unless that is taken. -/
inductive Turns (c : Context) (x : Index) (q : CompanionRequest) :
    (names : List String) → (ids sources : List TypeId) → Prop where
  | nil {names : List String} : Turns c x q names [] []
  | passed {names : List String} {id : TypeId} {ids sources : List TypeId}
      (skipped : ¬ c.Lacks x q id ∨ c.companionName q (c.sourceOf id) ∈ names)
      (rest : Turns c x q names ids sources) : Turns c x q names (id :: ids) sources
  | given {names : List String} {id : TypeId} {ids sources : List TypeId} (lacks : c.Lacks x q id)
      (free : c.companionName q (c.sourceOf id) ∉ names)
      (rest : Turns c x q (names ++ [c.companionName q (c.sourceOf id)]) ids sources) :
      Turns c x q names (id :: ids) (id :: sources)

theorem Turns.sublist {names : List String} {ids sources : List TypeId}
    (h : c.Turns x q names ids sources) : sources.Sublist ids := by
  induction h with
  | nil => exact .slnil
  | passed _ _ ih => exact ih.cons _
  | given _ _ _ ih => exact ih.cons_cons _

theorem companionName_hosts (grounded : c.target.Grounded)
    (hosts : c.target.Hosts c.target.size d.target) {s : TypeId × TypeRef}
    (inside : s.1 < c.target.size) : d.companionName q s = c.companionName q s := by
  obtain ⟨host, node⟩ := Image.exists_get? inside
  obtain ⟨host', node', hosting⟩ := hosts.nodes s.1 inside host node
  have name : host'.name = host.name := by rw [hosting.same]
  rw [companionName, companionName, grounded.fullName_kept hosts.extends.keeps inside, node, node',
    Option.map_some, Option.map_some, name]

/-- What a turn leaves in which a companion is given. -/
structure Given (d : Context) (q : CompanionRequest) (base : Method) (s : TypeId × TypeRef)
    (e : Context) : Prop where
  grafts : d.target.Grafts d.target.size e.target
  table : e.target.Tabulated
  size : e.target.size = d.target.size + 1
  named : e.target.fullName d.target.size = d.companionName q s
  companion : e.target.Companion q base s.2 [] s.1 d.target.size

/-- The name is taken from then on, and no other is. -/
theorem Given.names {s : TypeId × TypeRef} {e : Context} (h : d.Given q base s e)
    (sound : d.target.Sound) : (List.range e.target.size).map e.target.fullName =
      (List.range d.target.size).map d.target.fullName ++ [d.companionName q s] := by
  rw [h.size, List.range_succ, List.map_append, List.map_singleton, h.named]
  congr 1
  exact List.map_congr_left fun id old =>
    sound.grounded.fullName_kept h.grafts.hosts.extends.keeps (List.mem_range.mp old)

/-- Why the template of a request has no constructor to call. -/
inductive Unbuildable (c : Context) (q : CompanionRequest) : SynthesisError → Prop where
  | unresolved (unknown : c.resolve? q.template = none) :
      Unbuildable c q (.unresolvedType q.template.display "companion template")
  | constructorless {r : Resolved} (found : c.resolve? q.template = some r)
      (demanding : ∀ m ∈ r.node.constructors, m.parameters ≠ []) :
      Unbuildable c q (.missingConstructor q.template.display)

theorem Unbuildable.failed {e : SynthesisError} (h : c.Unbuildable q e) :
    (c.templateConstructor q).result = .failed e := by
  cases h with
  | unresolved unknown => rw [templateConstructor, unknown]; rfl
  | @constructorless r found demanding =>
      have none : r.node.constructors.find? (·.parameters.isEmpty) = none := by
        simpa using demanding
      rw [templateConstructor, found]
      simp only [none]
      rfl

/-- The search for sources ends where the pass does. -/
theorem sources_of_injectCompanions (ends : (c.injectCompanions budget x q).result ≠ .unfinished) :
    ∃ found, (c.sources budget x q).result = .done found := by
  rw [injectCompanions_result, companionless_result, ne_eq, Attempt.mapError_eq_unfinished] at ends
  cases searched : (c.sources budget x q).result with
  | done found => exact ⟨found, rfl⟩
  | failed e => exact absurd searched (sources_not_failed e)
  | unfinished =>
      rw [searched] at ends
      exact absurd rfl ends

theorem Unbuildable.unique {e e' : SynthesisError} (h : c.Unbuildable q e)
    (h' : c.Unbuildable q e') : e = e' := Attempt.failed.inj (h.failed.symm.trans h'.failed)

end Context
end Companions
