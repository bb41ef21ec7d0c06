import Companions.Proofs.Frame
import Companions.Proofs.Image.Anchor
import Companions.Proofs.Relation.Search
/-!
Contexts with more nodes. Where nodes are nested in the target, references that were resolved lead to
what they led to, and base chains go on where they ended. References that were not resolved may lead
to new nodes now, and to nothing but these. If no new node leads to a name, it is found where it was
found before.
-/
namespace Companions

namespace Context

/-- The later context resolves what the earlier one resolves, to a node of the same declaration. What
only the later one resolves has the supertypes of one of the new references. -/
structure Augments (c c' : Context) (new : List TypeRef) : Prop where
  kept : ∀ t r, c.resolve? t = some r → ∃ r', c'.resolve? t = some r' ∧
    r'.image.identity = r.image.identity ∧ r.node.Hosts r'.node
  new : ∀ t, c.resolve? t = none → c'.resolve? t = none ∨
    ∃ u ∈ new, (t.isPlain → u.isPlain) ∧ c'.supertypes t = c'.supertypes u

theorem supertypes_some {c : Context} {t : TypeRef} {r : Resolved} (found : c.resolve? t = some r) :
    c.supertypes t = (r.node.base.toList ++ r.node.interfaces).map (·.substitute t.arguments) := by
  rw [supertypes, found]

theorem supertypes_none {c : Context} {t : TypeRef} (unknown : c.resolve? t = none) :
    c.supertypes t = [] := by
  rw [supertypes, unknown]

namespace Augments
variable {c c' : Context} {new : List TypeRef} {t : TypeRef}

theorem supertypes_eq (h : c.Augments c' new) {r : Resolved} (found : c.resolve? t = some r) :
    c'.supertypes t = c.supertypes t := by
  obtain ⟨r', found', -, hosts⟩ := h.kept t r found
  rw [supertypes_some found, supertypes_some found', hosts.same]

theorem base?_eq (h : c.Augments c' new) {b : TypeRef} (base : c.base? t = some b) :
    c'.base? t = some b := by
  simp only [base?, Option.bind_eq_bind, Option.bind_eq_some_iff] at base ⊢
  obtain ⟨r, found, declared, own, bound⟩ := base
  obtain ⟨r', found', -, hosts⟩ := h.kept t r found
  refine ⟨r', found', declared, ?_, bound⟩
  rw [hosts.same]
  exact own

/-! ## Base chains -/

theorem chainFrom_prefix (h : c.Augments c' new) {n n' : Nat} (le : n ≤ n') (seen : List String)
    (t : TypeRef) : (c.chainFrom n seen t).items <+: (c'.chainFrom n' seen t).items := by
  induction n generalizing n' seen t with
  | zero => exact List.nil_prefix
  | succ n ih =>
      cases n' with
      | zero => cases le
      | succ n' =>
          rw [chainFrom, chainFrom]
          cases base : c.base? t with
          | none => exact List.nil_prefix
          | some b =>
              rw [h.base?_eq base]
              dsimp only
              split
              · exact List.nil_prefix
              · exact List.cons_prefix_cons.mpr ⟨rfl, ih (Nat.le_of_succ_le_succ le) _ b⟩

/-- A longer list of declared bases allows for more links. -/
theorem baseChain_prefix (h : c.Augments c' new) (more : c.bases.Sublist c'.bases) (t : TypeRef) :
    (c.baseChain t).items <+: (c'.baseChain t).items := by
  have parts := (more.flatMap TypeRef.parts).length_le
  exact h.chainFrom_prefix (Nat.add_le_add_right (Nat.add_le_add_left parts _) 2) _ t

/-! ## Checks -/

theorem next_eq (h : c.Augments c' new) (t : TypeRef) : c'.next t = c.next t ∨
    c.next t = [] ∧ ∃ u ∈ new, (t.isPlain → u.isPlain) ∧ c'.next t = c'.next u := by
  cases found : c.resolve? t with
  | some r =>
      left
      rw [next, next, h.supertypes_eq found]
  | none =>
      have nothing : c.next t = [] := by
        rw [next, supertypes_none found, List.filter_nil]
      rcases h.new t found with unknown | ⟨u, hu, plain, same⟩
      · left
        rw [nothing, next, supertypes_none unknown, List.filter_nil]
      · right
        refine ⟨nothing, u, hu, plain, ?_⟩
        rw [next, same, next]

/-- Where no search from a new reference meets the name, searches for it make detours at most. -/
theorem detours (h : c.Augments c' new) (hc : c.isPlain) (hc' : c'.isPlain) {s f : String}
    (vain : ∀ u ∈ new, u.isPlain → c'.Search (TypeRef.named s f).uniqueName [] [u] false) :
    ∃ all, c.Detours c' (TypeRef.named s f).uniqueName all := by
  have gather (us : List TypeRef) (sub : ∀ u ∈ us, u ∈ new) : ∃ all,
      c'.Barren (TypeRef.named s f).uniqueName all ∧
        ∀ u ∈ us, u.isPlain → u.uniqueName ∈ all.map TypeRef.uniqueName := by
    induction us with
    | nil => exact ⟨[], .nil, nofun⟩
    | cons u us ih =>
        obtain ⟨own, others⟩ := List.forall_mem_cons.mp sub
        obtain ⟨all, barren, inside⟩ := ih others
        by_cases plain : u.isPlain
        · obtain ⟨more, barren', inside'⟩ := Barren.of_search hc' plain (vain u own plain)
          refine ⟨more ++ all, barren'.append barren, ?_⟩
          rw [List.map_append]
          refine List.forall_mem_cons.mpr ⟨fun _ => List.mem_append_left _ inside', fun v hv pv => ?_⟩
          exact List.mem_append_right _ (inside v hv pv)
        · exact ⟨all, barren, List.forall_mem_cons.mpr ⟨fun p => absurd p plain, inside⟩⟩
  obtain ⟨all, barren, inside⟩ := gather new fun _ hu => hu
  refine ⟨all, hc, hc', barren, fun t ht => ?_⟩
  rcases h.next_eq t with same | ⟨nothing, u, hu, plain, same⟩
  · exact .inl same
  · refine .inr ⟨nothing, fun v hv => ?_⟩
    rw [same] at hv
    exact barren.above (plain ht) (inside u hu (plain ht)) (mem_next.mp hv)

end Augments

/-! ## Grafts -/

section grafts
variable {n : Nat} {c c' : Context}

theorem Grafted.image?_eq (h : c.Grafted n c') (s : String) :
    c'.image? s = if s = c.target.name then some c'.target else c.image? s := by
  have name : c'.target.name = c.target.name := congrArg Identity.name h.target.hosts.identity
  rw [image?, image?, name, h.references]
  split <;> rfl

theorem Grafted.resolve?_kept (h : c.Grafted c.target.size c') (grounded : c.target.Grounded)
    {t : TypeRef} {r : Resolved} (found : c.resolve? t = some r) : ∃ r', c'.resolve? t = some r' ∧
      r'.image.identity = r.image.identity ∧ r.node.Hosts r'.node := by
  induction t with
  | named s f =>
      obtain ⟨m, id, d⟩ := r
      obtain ⟨image, entry, node⟩ := resolve?_named found
      have image' := h.image?_eq s
      by_cases own : s = c.target.name
      · rw [image?, if_pos own] at image
        obtain rfl := Option.some.inj image
        rw [if_pos own] at image'
        have hosts := h.target.hosts
        obtain ⟨d', node', hosting⟩ := hosts.nodes id (Image.lt_of_get? node) d node
        have entry' := (h.target.advances grounded).kept f id entry
        exact ⟨_, resolve?_of_get? image' entry' node', hosts.identity, hosting⟩
      · rw [if_neg own] at image'
        exact ⟨_, resolve?_of_get? (image'.trans image) entry node, rfl, .refl d⟩
  | generic e as ih _ => exact ih found
  | array e => cases found
  | param p n => cases found

/-- What is resolved only now is a new node, and the head of the reference is the one to this node. -/
theorem Grafted.resolve?_new (h : c.Grafted c.target.size c') (grounded : c.target.Grounded)
    (anchored : c.target.Anchored) {t : TypeRef} {r : Resolved} (unknown : c.resolve? t = none)
    (found : c'.resolve? t = some r) : c.target.size ≤ r.id ∧ r.id < c'.target.size ∧
      c'.target.get? r.id = some r.node ∧
      c'.resolve? (c'.target.referenceTo r.id) = some r ∧
      (t.isPlain → (c'.target.referenceTo r.id).isPlain) := by
  induction t with
  | named s f =>
      obtain ⟨m, id, d⟩ := r
      obtain ⟨image, entry, node⟩ := resolve?_named found
      rw [h.image?_eq s] at image
      split at image
      · next own =>
          obtain rfl := Option.some.inj image
          have name : c'.target.name = c.target.name :=
            congrArg Identity.name h.target.hosts.identity
          rcases (h.target.advances grounded).entered f id entry with old | ⟨late, there, named⟩
          · obtain ⟨e, node'⟩ := Image.exists_get? (anchored f id old)
            have image : c.image? s = some c.target := own ▸ c.image?_target
            rw [resolve?_of_get? image old node'] at unknown
            cases unknown
          · have same : c'.target.referenceTo id = .named s f := by
              rw [Image.referenceTo, named, own, ← name, Image.name]
            exact ⟨late, there, node, same ▸ found, same ▸ fun plain => plain⟩
      · rw [resolve?_of_get? image entry node] at unknown
        cases unknown
  | generic e as ih _ =>
      obtain ⟨late, there, node, own, plain⟩ := ih unknown found
      exact ⟨late, there, node, own, fun ht => plain (TypeRef.isPlain_generic.mp ht).1⟩
  | array e => cases found
  | param p n => cases found

/-- Where no parameter stands in what new nodes derive from, these are the supertypes of whatever
leads to them. -/
theorem Grafted.augments (h : c.Grafted c.target.size c') (grounded : c.target.Grounded)
    (anchored : c.target.Anchored)
    (closed : ∀ id d, c.target.size ≤ id → c'.target.get? id = some d →
      ∀ u ∈ d.base.toList ++ d.interfaces, u.isClosed) :
    c.Augments c' ((c.target.newIds c'.target).map c'.target.referenceTo) where
  kept t r found := h.resolve?_kept grounded found
  new t unknown := by
    cases found : c'.resolve? t with
    | none => exact .inl rfl
    | some r =>
        obtain ⟨late, there, node, own, plain⟩ := h.resolve?_new grounded anchored unknown found
        have listed : r.id ∈ c.target.newIds c'.target :=
          h.target.hosts.mem_newIds.mpr ⟨late, there⟩
        have bound (args : List TypeRef) : (r.node.base.toList ++ r.node.interfaces).map
            (·.substitute args) = r.node.base.toList ++ r.node.interfaces := by
          have each (u) (hu : u ∈ r.node.base.toList ++ r.node.interfaces) : u.substitute args = u :=
            TypeRef.bind_closed (closed r.id r.node late node u hu) args
          rw [List.map_congr_left each, List.map_id']
        refine .inr ⟨c'.target.referenceTo r.id, List.mem_map_of_mem listed, plain, ?_⟩
        rw [supertypes_some found, supertypes_some own, bound, bound]

theorem Grafted.isPlain (h : c.Grafted c.target.size c') (hc : c.isPlain)
    (plain : ∀ id d, c.target.size ≤ id → c'.target.get? id = some d →
      ∀ u ∈ d.base.toList ++ d.interfaces, u.isPlain) : c'.isPlain := by
  have old := List.all_eq_true.mp hc
  apply List.all_eq_true.mpr
  intro u hu
  obtain ⟨m, image, inner⟩ := List.mem_flatMap.mp hu
  obtain ⟨d, node, up⟩ := List.mem_flatMap.mp inner
  rcases List.mem_cons.mp image with rfl | other
  · obtain ⟨id, node⟩ := Image.mem_types_iff.mp node
    rcases Nat.lt_or_ge id c.target.size with inside | late
    · obtain ⟨e, before⟩ := Image.exists_get? inside
      obtain ⟨d', after, hosting⟩ := h.target.hosts.nodes id inside e before
      cases node.symm.trans after
      rw [hosting.same] at up
      apply old u
      exact List.mem_flatMap.mpr ⟨c.target, List.mem_cons_self,
        List.mem_flatMap.mpr ⟨e, List.mem_of_getElem? before, up⟩⟩
    · exact plain id d late node u up
  · rw [h.references] at other
    apply old u
    exact List.mem_flatMap.mpr ⟨m, List.mem_cons_of_mem _ other, List.mem_flatMap.mpr ⟨d, node, up⟩⟩

theorem Grafted.bases_sublist (h : c.Grafted c.target.size c') : c.bases.Sublist c'.bases := by
  have each : c.target.types.map (·.base) <+: c'.target.types.map (·.base) := by
    rw [List.prefix_iff_getElem?]
    intro id hid
    rw [List.length_map] at hid
    obtain ⟨d, node⟩ := Image.exists_get? (m := c.target) hid
    obtain ⟨d', node', hosting⟩ := h.target.hosts.nodes id hid d node
    obtain ⟨_, same⟩ := List.getElem?_eq_some_iff.mp node
    rw [List.getElem?_map, List.getElem_map, same, show c'.target.types[id]? = some d' from node',
      Option.map_some, hosting.same]
  have own : c.target.types.filterMap (·.base) <+: c'.target.types.filterMap (·.base) := by
    have kept := each.filterMap id
    rw [List.filterMap_map, List.filterMap_map] at kept
    exact kept
  rw [bases, bases, images, images, List.flatMap_cons, List.flatMap_cons, h.references]
  exact own.sublist.append (.refl _)

end grafts

end Context
end Companions
