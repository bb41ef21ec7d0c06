import Companions.Proofs.Injection
import Companions.Proofs.Image.Scopes
import Companions.Proofs.Relation.Augment
/-!
A companion pass over what a companion pass left. The companions may resolve names that led nowhere
before, and bring in supertypes with that; but where no companion is assignable to a contract itself,
no type becomes a source by it. Types that were accompanied stay so, and a source that nothing
accompanied has its companion now, or met a node of that name. So the second pass finds nothing to do.
It asks whether the companions are assignable, though, and does not end where such a check does not.
-/
namespace Companions

namespace Image
variable {m : Image} {q : CompanionRequest} {base : Method} {source : TypeRef}
  {attributes : List CustomAttribute} {parent id : TypeId}

/-- A companion derives from the bound template and from nothing else. -/
theorem Companion.derives (h : m.Companion q base source attributes parent id) {d : TypeDef}
    (node : m.get? id = some d) :
    d.base.toList ++ d.interfaces = [.generic q.template [source]] := by
  obtain ⟨host, nested, -, -, there⟩ := h
  obtain rfl := Option.some.inj (there.symm.trans node)
  rfl

end Image

/-- Each row of the index stands under the unique name of its node. -/
def Index.Keyed (x : Index) (m : Image) : Prop :=
  ∀ name id, (name, id) ∈ x.types.entries → m.uniqueName id = name

theorem Image.Valid.keyed_build {m : Image} (valid : m.Valid) : (Index.build m).Keyed m := by
  intro name id row
  rw [valid.entries_build, List.mem_map] at row
  obtain ⟨_, -, row⟩ := row
  cases row
  rfl

theorem Image.referenceTo_eq_of_uniqueName {m : Image} {i j : TypeId}
    (same : m.uniqueName i = m.uniqueName j) : m.referenceTo i = m.referenceTo j := by
  rw [uniqueName_eq, uniqueName_eq] at same
  rw [referenceTo, referenceTo, show m.fullName i = m.fullName j by simpa using same]

namespace Context
variable {c c' : Context} {budget : Nat} {x x' : Index} {q : CompanionRequest} {base : Method}
  {ids : List TypeId}

/-! ## What the first pass leaves -/

theorem injectOne_rows (c : Context) (x : Index) (q : CompanionRequest) (base : Method)
    (s : TypeId × TypeRef) : x.types.entries ⊆ (c.injectOne x q base s).index.types.entries ∧
      ∀ id ∈ (c.injectOne x q base s).index.ids,
        id ∈ x.ids ∨ id ∈ (c.injectOne x q base s).id.toList := by
  by_cases taken : c.Taken q s
  · obtain ⟨-, index, -⟩ := injectOne_taken x base taken
    rw [index]
    exact ⟨List.Subset.refl _, fun _ => .inl⟩
  · obtain ⟨name, -, index, new, -, -⟩ := injectOne_free x base taken
    rw [index, new]
    refine ⟨Table.entries_subset_insertNew .., fun id hid => ?_⟩
    rcases Table.mem_values_insertNew hid with old | rfl
    · exact .inl old
    · exact .inr List.mem_cons_self

/-- The index keeps its rows, and its other rows are those of what was injected. -/
theorem injectAll_rows (c : Context) (x : Index) (q : CompanionRequest) (base : Method)
    (ss : List (TypeId × TypeRef)) :
    x.types.entries ⊆ (c.injectAll x q base ss).2.1.types.entries ∧
      ∀ id ∈ (c.injectAll x q base ss).2.1.ids, id ∈ x.ids ∨ id ∈ (c.injectAll x q base ss).2.2.1 := by
  induction ss generalizing c x with
  | nil => exact ⟨List.Subset.refl _, fun _ => .inl⟩
  | cons s ss ih =>
      obtain ⟨kept, own⟩ := injectOne_rows c x q base s
      obtain ⟨later, others⟩ := ih (c.injectOne x q base s).context (c.injectOne x q base s).index
      rw [injectAll_cons_index, injectAll_cons_ids]
      refine ⟨List.Subset.trans kept later, fun id hid => ?_⟩
      rw [List.mem_append, ← or_assoc]
      exact (others id hid).imp_left (own id)

theorem injectOne_keyed (grounded : c.target.Grounded) (within : x.Within c.target)
    (keyed : x.Keyed c.target) (q : CompanionRequest) (base : Method) {s : TypeId × TypeRef} :
    (c.injectOne x q base s).index.Keyed (c.injectOne x q base s).context.target ∧
      ∀ id ∈ (c.injectOne x q base s).id, id < (c.injectOne x q base s).context.target.size ∧
        (c.injectOne x q base s).context.target.uniqueName id ∈
          (c.injectOne x q base s).index.names := by
  by_cases taken : c.Taken q s
  · obtain ⟨context, index, none⟩ := injectOne_taken x base taken
    rw [context, index, none]
    exact ⟨keyed, nofun⟩
  · obtain ⟨name, context, index, new, -, -⟩ := injectOne_free x base taken
    rw [context, index, new]
    refine ⟨fun key id row => ?_, ?_⟩
    · rcases Table.mem_entries_insertNew row with old | own
      · rw [← keyed key id old]
        exact grounded.uniqueName_hosts (Image.hosts_addNestedType ..) (within id (List.mem_map_of_mem old))
      · cases own
        rfl
    · rintro _ ⟨⟩
      refine ⟨?_, Table.mem_keys_insertNew ..⟩
      rw [Image.size_addNestedType]
      exact Nat.lt_succ_self _

/-- What is injected has its name among those of the index. -/
theorem injectAll_keyed (grounded : c.target.Grounded) (within : x.Within c.target)
    (keyed : x.Keyed c.target) (q : CompanionRequest) (base : Method) {ss : List (TypeId × TypeRef)}
    (inside : ∀ s ∈ ss, s.1 < c.target.size) :
    (c.injectAll x q base ss).2.1.Keyed (c.injectAll x q base ss).1.target ∧
      ∀ id ∈ (c.injectAll x q base ss).2.2.1,
        (c.injectAll x q base ss).1.target.uniqueName id ∈ (c.injectAll x q base ss).2.1.names := by
  induction ss generalizing c x with
  | nil => exact ⟨keyed, nofun⟩
  | cons s ss ih =>
      obtain ⟨own, others⟩ := List.forall_mem_cons.mp inside
      have first := (injectOne_grafted c.target.size x q base own).target
      obtain ⟨-, within₁, -⟩ := injectOne_grows within q base own
      obtain ⟨keyed₁, named₁⟩ := injectOne_keyed grounded within keyed q base (s := s)
      have grounded₁ := (first.advances grounded).grounded
      have later (t) (ht : t ∈ ss) := Nat.lt_of_lt_of_le (others t ht) first.hosts.size
      have rest := (injectAll_grafted (c.injectOne x q base s).context.target.size
        (c.injectOne x q base s).index q base later).target
      obtain ⟨keyed', named'⟩ := ih grounded₁ within₁ keyed₁ later
      rw [injectAll_cons_context, injectAll_cons_index, injectAll_cons_ids]
      refine ⟨keyed', fun id hid => ?_⟩
      rcases List.mem_append.mp hid with new | new
      · obtain ⟨there, name⟩ := named₁ id (Option.mem_toList.mp new)
        rw [grounded₁.uniqueName_hosts rest.hosts there]
        exact List.map_subset _ (injectAll_rows ..).1 name
      · exact named' id new

/-- Each source has its name taken in the end. -/
theorem injectAll_takes (grounded : c.target.Grounded) (within : x.Within c.target)
    (q : CompanionRequest) (base : Method) {ss : List (TypeId × TypeRef)}
    (inside : ∀ s ∈ ss, s.1 < c.target.size) :
    ∀ s ∈ ss, (c.injectAll x q base ss).1.Taken q s := by
  induction ss generalizing c x with
  | nil => exact nofun
  | cons s ss ih =>
      obtain ⟨own, others⟩ := List.forall_mem_cons.mp inside
      have first := (injectOne_grafted c.target.size x q base own).target
      obtain ⟨-, within₁, entered⟩ := injectOne_grows within q base own
      have size := first.hosts.size
      have grounded₁ := (first.advances grounded).grounded
      have later (t) (ht : t ∈ ss) := Nat.lt_of_lt_of_le (others t ht) size
      have rest := (injectAll_grafted (c.injectOne x q base s).context.target.size
        (c.injectOne x q base s).index q base later).target
      obtain ⟨grows, -, -⟩ := injectAll_grows within₁ q base later
      rw [injectAll_cons_context]
      refine List.forall_mem_cons.mpr ⟨?_, ih grounded₁ within₁ later⟩
      rw [Taken, companionName_hosts grounded₁ rest.hosts (Nat.lt_of_lt_of_le own size),
        companionName_hosts grounded first.hosts own]
      exact grows.names _ (entered grounded.linked)

section pass

variable (first : (c.injectCompanions budget x q).result = .done (c', x', ids))
include first

theorem injectCompanions_rows : x.ids ⊆ x'.ids ∧ ∀ id ∈ x'.ids, id ∈ x.ids ∨ id ∈ ids := by
  obtain ⟨-, -, rfl, -⟩ | ⟨unused, base, assembly, _, -, -, -, rfl, -, rfl, rfl⟩ :=
    injectCompanions_eq_done.mp first
  · exact ⟨List.Subset.refl _, fun _ => .inl⟩
  · obtain ⟨kept, rows⟩ := injectAll_rows _ x q base unused
    exact ⟨List.map_subset _ kept, rows⟩

/-- Each companion has a row, be it that of a node of the same name. -/
theorem injectCompanions_listed (grounded : c.target.Grounded) (within : x.Within c.target)
    (keyed : x.Keyed c.target) {id : TypeId} (new : id ∈ ids) :
    ∃ i ∈ x'.ids, c'.target.referenceTo i = c'.target.referenceTo id := by
  obtain ⟨-, -, -, rfl⟩ | ⟨unused, base, assembly, _, demand, -, -, rfl, rfl, rfl, rfl⟩ :=
    injectCompanions_eq_done.mp first
  · cases new
  · have refers : c.target.Grafts c.target.size (c.target.addReference assembly) :=
      .single (.refer _ assembly)
    have size := refers.hosts.size
    have keyed₁ : x.Keyed (c.target.addReference assembly) := by
      intro name i row
      rw [← keyed name i row]
      exact grounded.uniqueName_hosts refers.hosts (within i (List.mem_map_of_mem row))
    obtain ⟨keyed', named⟩ := injectAll_keyed
      (c := { c with target := c.target.addReference assembly }) (refers.advances grounded).grounded
      (fun i hi => Nat.lt_of_lt_of_le (within i hi) size) keyed₁ q base
      fun s hs => Nat.lt_of_lt_of_le (within s.1 (companionless_mem demand s hs).1) size
    obtain ⟨⟨name, i⟩, row, own⟩ := List.mem_map.mp (named id new)
    refine ⟨i, List.mem_map_of_mem row, Image.referenceTo_eq_of_uniqueName ?_⟩
    rw [keyed' name i row]
    exact own

theorem injectCompanions_takes (grounded : c.target.Grounded) (within : x.Within c.target) :
    ∀ s ∈ c.lacking x q x.ids, c'.Taken q s := by
  obtain ⟨demand, -⟩ | ⟨unused, base, assembly, _, demand, -, -, rfl, rfl, -, -⟩ :=
    injectCompanions_eq_done.mp first
  · rw [← companionless_done demand]
    exact nofun
  · obtain rfl := companionless_done demand
    have refers : c.target.Grafts 0 (c.target.addReference assembly) := .single (.refer _ assembly)
    have size : (c.target.addReference assembly).size = c.target.size := Image.size_addReference ..
    apply injectAll_takes (refers.advances grounded).grounded
    · intro id hid
      exact Nat.lt_of_lt_of_le (within id hid) (Nat.le_of_eq size.symm)
    · intro s hs
      rw [size]
      exact within s.1 (companionless_mem demand s hs).1

/-- If there was something to inject, the template has a constructor, and the target refers to its
assembly. -/
theorem injectCompanions_refers (within : x.Within c.target) (some : c.lacking x q x.ids ≠ []) :
    ∃ base assembly, (c.templateConstructor q).result = .done (base, assembly) ∧
      c'.target.Refers assembly.name := by
  obtain ⟨demand, -⟩ | ⟨unused, base, assembly, _, demand, -, template, rfl, rfl, -, -⟩ :=
    injectCompanions_eq_done.mp first
  · exact absurd (companionless_done demand).symm some
  · have inside (s) (hs : s ∈ unused) : s.1 < (c.target.addReference assembly).size := by
      rw [Image.size_addReference]
      exact within s.1 (companionless_mem demand s hs).1
    have grafted := injectAll_grafted (c := { c with target := c.target.addReference assembly }) 0 x q
      base inside
    refine ⟨base, assembly, template, ?_⟩
    exact grafted.target.hosts.extends.refers (Image.refers_addReference c.target assembly)

end pass

/-! ## What the second pass finds -/

/-- Names are plain throughout: those of declared bases and interfaces, those of the target's nodes,
and those in the template. -/
structure PlainNames (c : Context) (q : CompanionRequest) : Prop where
  declared : c.isPlain
  nodes : ∀ id < c.target.size, (c.target.referenceTo id).isPlain
  template : q.template.isPlain

/-- A context and what a companion pass made of it, where each check of a companion against a contract
ends without success. -/
structure Repeats (c c' : Context) (q : CompanionRequest) : Prop where
  grounded : c.target.Grounded
  grafted : c.Grafted c.target.size c'
  augments : c.Augments c' ((c.target.newIds c'.target).map c'.target.referenceTo)
  plain : c.isPlain
  plain' : c'.isPlain
  nodes : ∀ id < c.target.size, (c.target.referenceTo id).isPlain
  named : ∀ contract ∈ q.contracts, ∃ s f, contract = .named s f
  foreign : ∀ id ∈ c.target.newIds c'.target, ∀ contract ∈ q.contracts,
    c'.Unassignable (c'.target.referenceTo id) contract

theorem injectCompanions_repeats (names : c.PlainNames q) (grounded : c.target.Grounded)
    (anchored : c.target.Anchored) (within : x.Within c.target)
    (named : ∀ contract ∈ q.contracts, ∃ s f, contract = .named s f)
    (first : (c.injectCompanions budget x q).result = .done (c', x', ids))
    (foreign : ∀ id ∈ ids, ∀ contract ∈ q.contracts,
      c'.Unassignable (c'.target.referenceTo id) contract) :
    c.Repeats c' q ∧ ids = c.target.newIds c'.target := by
  obtain ⟨grafted, k, range, size⟩ := injectCompanions_grafted first within c.target.size
  have new : ids = c.target.newIds c'.target := by
    rw [range, Image.newIds, size, Nat.add_sub_cancel_left]
  have derives (id : TypeId) (d : TypeDef) (late : c.target.size ≤ id)
      (node : c'.target.get? id = some d) : ∃ parent < c.target.size,
        d.base.toList ++ d.interfaces = [.generic q.template [c.target.referenceTo parent]] := by
    obtain ⟨base, parent, -, inside, companion⟩ :=
      injectCompanions_companions first within late (Image.lt_of_get? node)
    exact ⟨parent, inside, companion.derives node⟩
  refine ⟨⟨grounded, grafted, grafted.augments grounded anchored ?_, names.declared,
    grafted.isPlain names.declared ?_, names.nodes, named, new ▸ foreign⟩, new⟩
  · intro id d late node u hu
    obtain ⟨parent, -, same⟩ := derives id d late node
    rw [same, List.mem_singleton] at hu
    rw [hu]
    rfl
  · intro id d late node u hu
    obtain ⟨parent, inside, same⟩ := derives id d late node
    rw [same, List.mem_singleton] at hu
    rw [hu]
    apply TypeRef.isPlain_generic.mpr
    refine ⟨names.template, List.cons_ne_nil _ _, ?_⟩
    exact List.forall_mem_singleton.mpr (names.nodes parent inside)

namespace Repeats

variable (h : c.Repeats c' q)
include h

theorem referenceTo_eq {id : TypeId} (inside : id < c.target.size) :
    c'.target.referenceTo id = c.target.referenceTo id := by
  exact h.grounded.referenceTo_hosts h.grafted.target.hosts inside

/-- Checks against contracts come to the verdicts that they came to. -/
theorem same_verdict {contract : TypeRef} (listed : contract ∈ q.contracts) {t : TypeRef}
    (ht : t.isPlain) {n : Nat} {v : Verdict} (check : c.assignable? n t contract = some v) :
    ∃ n', ∀ m ≥ n', ∃ w, c'.assignable? m t contract = some w ∧ w.holds = v.holds := by
  obtain ⟨s, f, rfl⟩ := h.named contract listed
  have vain (u) (hu : u ∈ (c.target.newIds c'.target).map c'.target.referenceTo) (_ : u.isPlain) :
      c'.Search (TypeRef.named s f).uniqueName [] [u] false := by
    obtain ⟨id, hid, rfl⟩ := List.mem_map.mp hu
    exact search_iff_assignable?.mpr (h.foreign id hid _ listed)
  obtain ⟨all, detours⟩ := h.augments.detours h.plain h.plain' vain
  exact detours.same_verdict ht check

/-- So the search for a contract finds what it found. -/
theorem contract?_again {t : TypeRef} (ht : t.isPlain) {n : Nat} {o : Option TypeRef}
    (searched : (c.contract? n q t).result = .done o) :
    ∃ n', ∀ m ≥ n', (c'.contract? m q t).result = .done o := by
  apply Pass.first?_again searched
  intro contract listed r tested
  rw [assignable_result] at tested
  cases check : c.assignable? n t contract with
  | none =>
      rw [check] at tested
      cases tested
  | some v =>
      rw [check] at tested
      obtain rfl := Attempt.done.inj tested
      obtain ⟨n', again⟩ := h.same_verdict listed ht check
      refine ⟨n', fun m more => ?_⟩
      obtain ⟨w, check', same⟩ := again m more
      rw [assignable_result, check', ← same]
      rfl

/-- What is found for the old types is what was found for them. -/
theorem isSource_iff {id : TypeId} (inside : id < c.target.size) {n : Nat} {o : Option TypeRef}
    (searched : (c.contract? n q (c.target.referenceTo id)).result = .done o) :
    c'.IsSource q (c'.target.referenceTo id) ↔ c.IsSource q (c.target.referenceTo id) := by
  obtain ⟨n', again⟩ := h.contract?_again (h.nodes id inside) searched
  rw [h.referenceTo_eq inside, ← contract?_isSome searched,
    ← contract?_isSome (again n' (Nat.le_refl n'))]

theorem not_isSource {id : TypeId} (new : id ∈ c.target.newIds c'.target) :
    ¬ c'.IsSource q (c'.target.referenceTo id) := by
  rintro ⟨contract, listed, assignable⟩
  exact (h.foreign id new contract listed).not assignable

/-- What accompanied a type still does. -/
theorem accompanies {s t : TypeRef} (old : c.Accompanies q s t) : c'.Accompanies q s t := by
  obtain ⟨base, above, rest⟩ := old
  have more := h.augments.baseChain_prefix h.grafted.bases_sublist s
  exact ⟨base, more.subset above, rest⟩

section search

variable (within : x.Within c.target)
  (rows : ∀ id ∈ x'.ids, id ∈ x.ids ∨ id ∈ c.target.newIds c'.target)
  {found : List (TypeId × TypeRef)} (searched : (c.sources budget x q).result = .done found)
include within rows searched

/-- The second pass finds no source without companion but those that the first one found. -/
theorem lacking_subset (kept : x.ids ⊆ x'.ids) :
    ∀ s ∈ c'.lacking x' q x'.ids, s ∈ c.lacking x q x.ids := by
  intro s hs
  obtain ⟨id, hid, lacks, rfl⟩ := mem_lacking.mp hs
  rcases rows id hid with old | new
  · have inside := within id old
    obtain ⟨o, first⟩ := sources_ends_iff.mp ⟨found, searched⟩ id old
    refine mem_lacking.mpr ⟨id, old, ⟨?_, ?_⟩, ?_⟩
    · exact (h.isSource_iff inside first).mp lacks.source
    · intro i hi accompanied
      apply lacks.alone i (kept hi)
      rw [h.referenceTo_eq (within i hi), h.referenceTo_eq inside]
      exact h.accompanies accompanied
    · rw [sourceOf, sourceOf, h.referenceTo_eq inside]
  · exact absurd lacks.source (h.not_isSource new)

/-- Its search ends if the budget is large enough. -/
theorem sources_ends : ∃ n, ∀ m ≥ n, ∃ found, (c'.sources m x' q).result = .done found := by
  have each (id) (hid : id ∈ x'.ids) : ∃ n, ∀ m ≥ n, ∃ o,
      (c'.contract? m q (c'.target.referenceTo id)).result = .done o := by
    rcases rows id hid with old | new
    · have inside := within id old
      obtain ⟨o, first⟩ := sources_ends_iff.mp ⟨found, searched⟩ id old
      obtain ⟨n, again⟩ := h.contract?_again (h.nodes id inside) first
      rw [h.referenceTo_eq inside]
      exact ⟨n, fun m more => ⟨o, again m more⟩⟩
    · have checks (contract) (listed : contract ∈ q.contracts) : ∃ n, ∀ m ≥ n, ∃ r,
          (c'.assignable m (c'.target.referenceTo id) contract :
            Pass SynthesisError Bool).result = .done r := by
        obtain ⟨n, v, check, -⟩ := h.foreign id new contract listed
        refine ⟨n, fun m more => ⟨v.holds, ?_⟩⟩
        rw [assignable_result, assignable?_mono more _ _ v check]
        rfl
      obtain ⟨n, all⟩ := eventually_all checks
      exact ⟨n, fun m more => Pass.first?_ends (all m more)⟩
  obtain ⟨n, all⟩ := eventually_all each
  exact ⟨n, fun m more => sources_ends_iff.mpr (all m more)⟩

end search

end Repeats

theorem Augments.templateConstructor_eq {new : List TypeRef} (h : c.Augments c' new) {assembly : Identity}
    (template : (c.templateConstructor q).result = .done (base, assembly)) :
    (c'.templateConstructor q).result = .done (base, assembly) := by
  rw [templateConstructor] at template ⊢
  cases found : c.resolve? q.template with
  | none =>
      rw [found] at template
      cases template
  | some r =>
      obtain ⟨r', found', identity, hosts⟩ := h.kept _ r found
      have constructors : r'.node.constructors = r.node.constructors := by
        rw [hosts.same]
        rfl
      rw [found] at template
      rw [found']
      simp only [constructors, identity]
      exact template

/-- A pass leaves context and index as they are if every name that it wants is taken, and if it wants
any, the target refers to the assembly of the template. -/
theorem injectCompanions_eq_self {found : List (TypeId × TypeRef)}
    (searched : (c.sources budget x q).result = .done found)
    (taken : ∀ s ∈ c.lacking x q x.ids, c.Taken q s)
    (template : c.lacking x q x.ids ≠ [] → ∃ base assembly,
      (c.templateConstructor q).result = .done (base, assembly) ∧ c.target.Refers assembly.name) :
    (c.injectCompanions budget x q).result = .done (c, x, []) := by
  have demand : (c.companionless budget x q).result = .done (c.lacking x q x.ids) := by
    rw [companionless_result, searched, Attempt.bind_done]
  apply injectCompanions_idle.mpr
  refine ⟨rfl, ?_⟩
  by_cases none : c.lacking x q x.ids = []
  · rw [none] at demand
    exact .nothing demand
  · obtain ⟨base, assembly, constructor, refers⟩ := template none
    have injection := IdleInjection.taken demand none constructor taken
    rw [Image.addReference_eq_self refers] at injection
    exact injection

/-- A pass that ends has checked its companions, if they are listed, against all contracts up to the
first that holds. -/
theorem unassignable_of_ends {ids : List TypeId}
    (ends : (c.injectCompanions budget x q).result ≠ .unfinished)
    (listed : ∀ id ∈ ids, ∃ i ∈ x.ids, c.target.referenceTo i = c.target.referenceTo id)
    (foreign : ∀ id ∈ ids, ∀ contract ∈ q.contracts,
      ¬ c.Assignable (c.target.referenceTo id) contract) :
    ∀ id ∈ ids, ∀ contract ∈ q.contracts, c.Unassignable (c.target.referenceTo id) contract := by
  intro id new contract hcontract
  obtain ⟨found, searched⟩ := sources_of_injectCompanions ends
  obtain ⟨i, hi, same⟩ := listed id new
  obtain ⟨o, checked⟩ := sources_ends_iff.mp ⟨found, searched⟩ i hi
  rw [same] at checked
  have none : o = none := by
    rw [← Option.not_isSome_iff_eq_none, contract?_isSome checked]
    rintro ⟨k, hk, assignable⟩
    exact foreign id new k hk assignable
  subst none
  have fails := Pass.first?_none checked contract hcontract
  rw [assignable_result] at fails
  cases check : c.assignable? budget (c.target.referenceTo id) contract with
  | none =>
      rw [check] at fails
      cases fails
  | some v =>
      rw [check] at fails
      exact ⟨budget, v, check, Attempt.done.inj fails⟩

section again

variable {c c' : Context} {budget : Nat} {q : CompanionRequest} {x' : Index} {ids : List TypeId}
  (nested : c.target.WellNested) (accepted : c.target.validate = .ok ())
  (anchored : c.target.Anchored) (names : c.PlainNames q)
  (named : ∀ contract ∈ q.contracts, ∃ s f, contract = .named s f)
  (first : (c.injectCompanions budget (Index.build c.target) q).result = .done (c', x', ids))
include nested accepted anchored names named first

/-- Where the checks of the companions end without success, the second pass ends and is idle. -/
theorem injectCompanions_idle_again (foreign : ∀ id ∈ ids, ∀ contract ∈ q.contracts,
    c'.Unassignable (c'.target.referenceTo id) contract) :
    (∀ n, (c'.injectCompanions n x' q).result ≠ .unfinished →
      (c'.injectCompanions n x' q).result = .done (c', x', [])) ∧
    ∃ n, ∀ m ≥ n, (c'.injectCompanions m x' q).result = .done (c', x', []) := by
  have grounded := nested.grounded (Image.validate_ok_iff.mp accepted)
  have within := Index.build_within c.target
  obtain ⟨repeats, new⟩ := injectCompanions_repeats names grounded anchored within named first foreign
  obtain ⟨kept, rows⟩ := injectCompanions_rows first
  rw [new] at rows
  have ended : (c.injectCompanions budget (Index.build c.target) q).result ≠ .unfinished := by
    rw [first]
    exact nofun
  obtain ⟨found, searched⟩ := sources_of_injectCompanions ended
  have subset := repeats.lacking_subset within rows searched kept
  have taken : ∀ s ∈ c'.lacking x' q x'.ids, c'.Taken q s := by
    intro s hs
    exact injectCompanions_takes first grounded within s (subset s hs)
  have template (some : c'.lacking x' q x'.ids ≠ []) : ∃ base assembly,
      (c'.templateConstructor q).result = .done (base, assembly) ∧
        c'.target.Refers assembly.name := by
    obtain ⟨s, hs⟩ := List.exists_mem_of_ne_nil _ some
    obtain ⟨base, assembly, constructor, refers⟩ :=
      injectCompanions_refers first within (List.ne_nil_of_mem (subset s hs))
    exact ⟨base, assembly, repeats.augments.templateConstructor_eq constructor, refers⟩
  constructor
  · intro n ends
    obtain ⟨found', searched'⟩ := sources_of_injectCompanions ends
    exact injectCompanions_eq_self searched' taken template
  · obtain ⟨n, ends⟩ := repeats.sources_ends within rows searched
    refine ⟨n, fun m more => ?_⟩
    obtain ⟨found', searched'⟩ := ends m more
    exact injectCompanions_eq_self searched' taken template

/-- A companion pass that is repeated finds nothing to do, if it comes to an end. The first pass is over
an accepted image whose nodes form a forest, with the index built from it, its table leading to nodes as
tables do; names are plain, and contracts are named types. If no check of a companion against a contract
holds, the second pass with any budget is unfinished, or injects nothing and leaves context and index as
they are. It ends so with every budget from some budget on, if it ends at all; and it ends exactly if
each check of a companion against a contract does. -/
theorem injectCompanions_again (foreign : ∀ id ∈ ids, ∀ contract ∈ q.contracts,
    ¬ c'.Assignable (c'.target.referenceTo id) contract) :
    let again := fun n => (c'.injectCompanions n x' q).result
    (∀ n, again n ≠ .unfinished → again n = .done (c', x', [])) ∧
    ((∃ n, again n ≠ .unfinished) → ∃ n, ∀ m ≥ n, again m = .done (c', x', [])) ∧
    ((∃ n, again n ≠ .unfinished) ↔ ∀ id ∈ ids, ∀ contract ∈ q.contracts,
      ∃ n v, c'.assignable? n (c'.target.referenceTo id) contract = some v) := by
  intro again
  have valid := Image.validate_ok_iff.mp accepted
  have idle := injectCompanions_idle_again nested accepted anchored names named first
  have checked (n : Nat) (ends : again n ≠ .unfinished) :=
    unassignable_of_ends ends (fun id new => injectCompanions_listed first (nested.grounded valid)
      (Index.build_within c.target) valid.keyed_build new) foreign
  refine ⟨fun n ends => (idle (checked n ends)).1 n ends,
    fun ⟨n, ends⟩ => (idle (checked n ends)).2, ⟨?_, ?_⟩⟩
  · rintro ⟨n, ends⟩ id new contract listed
    obtain ⟨k, v, check, -⟩ := checked n ends id new contract listed
    exact ⟨k, v, check⟩
  · intro checks
    obtain ⟨n, done⟩ := (idle fun id new contract listed => by
      obtain ⟨k, v, check⟩ := checks id new contract listed
      refine ⟨k, v, check, Bool.eq_false_iff.mpr fun holds => foreign id new contract listed ?_⟩
      exact ⟨k, v, check, holds⟩).2
    refine ⟨n, fun h => ?_⟩
    cases (done n (Nat.le_refl n)).symm.trans h

end again

open Processor (healthGame hostLibrary host)

/-- A game in which a type derives from the drawer of another one, before there is a drawer. -/
def heirGame : Image := .rebuildLookup { healthGame with
  types := healthGame.types ++ [
    { name := "Heir", kind := .classType, flags := .isPublic,
      base := some (.named "Game" "Health/HealthCustomDrawer") }]
  roots := [0, 1, 2] }

def heirContext : Context := .ofImages heirGame [hostLibrary]

/-- The first pass injects the drawer, so that the base of the heir is resolved by the second pass. -/
theorem heirContext_again : heirGame.WellNested ∧ heirGame.validate = .ok () ∧ heirGame.Anchored ∧
    heirContext.PlainNames host.drawerPass.request ∧ ∃ c' x',
      (heirContext.injectCompanions 8 (Index.build heirGame) host.drawerPass.request).result =
        .done (c', x', [3]) ∧
      (heirContext.base? (.named "Game" "Heir")).bind heirContext.base? = none ∧
      (c'.base? (.named "Game" "Heir")).bind c'.base? =
        some (.generic (.named "Host" "Drawer`1") [.named "Game" "Health"]) ∧
      ∃ n, ∀ m ≥ n,
        (c'.injectCompanions m x' host.drawerPass.request).result = .done (c', x', []) := by
  have nested : heirGame.WellNested := Image.wellNested_of_flat (by decide) (by decide)
  have accepted : heirGame.validate = .ok () := by rfl
  have anchored : heirGame.Anchored := .rebuildLookup _
  have names : heirContext.PlainNames host.drawerPass.request :=
    ⟨by decide +kernel, by decide +kernel, by decide⟩
  have named : ∀ contract ∈ host.drawerPass.request.contracts, ∃ s f, contract = .named s f := by
    intro contract listed
    simp only [Contracts.drawerPass, List.mem_cons, List.not_mem_nil, or_false] at listed
    rcases listed with rfl | rfl
    · exact ⟨_, _, rfl⟩
    · exact ⟨_, _, rfl⟩
  obtain ⟨c', x', first, unknown, known, checks⟩ : ∃ c' x',
      (heirContext.injectCompanions 8 (Index.build heirGame) host.drawerPass.request).result =
        .done (c', x', [3]) ∧
      (heirContext.base? (.named "Game" "Heir")).bind heirContext.base? = none ∧
      (c'.base? (.named "Game" "Heir")).bind c'.base? =
        some (.generic (.named "Host" "Drawer`1") [.named "Game" "Health"]) ∧
      host.drawerPass.request.contracts.map (c'.assignable? 8 (c'.target.referenceTo 3)) =
        [some { holds := false }, some { holds := false }] := ⟨_, _, by rfl, by rfl, by rfl, by rfl⟩
  have check : ∀ id ∈ [3], ∀ contract ∈ host.drawerPass.request.contracts,
      c'.assignable? 8 (c'.target.referenceTo id) contract = some { holds := false } := by
    refine List.forall_mem_singleton.mpr fun contract listed => ?_
    have mem := List.mem_map_of_mem (f := c'.assignable? 8 (c'.target.referenceTo 3)) listed
    rw [checks] at mem
    simpa using mem
  have foreign : ∀ id ∈ [3], ∀ contract ∈ host.drawerPass.request.contracts,
      ¬ c'.Assignable (c'.target.referenceTo id) contract := by
    intro id new contract listed
    exact Unassignable.not ⟨8, { holds := false }, check id new contract listed, rfl⟩
  obtain ⟨-, again, ends⟩ := injectCompanions_again nested accepted anchored names named first foreign
  have ended := ends.mpr fun id new contract listed => ⟨8, _, check id new contract listed⟩
  exact ⟨nested, accepted, anchored, names, c', x', first, unknown, known, again ended⟩

/-! ## A companion whose check does not end -/

/-- A library with a template above which nodes stand in ever longer arrays. -/
def nodeLibrary : Image := .rebuildLookup {
  identity := { name := "Game" }
  types := [
    { name := "Node`1", kind := .classType, flags := .isPublic, genericParams := ["T"],
      base := some (node (.array (.param 0 "T"))),
      methods := [.constructor [] (.named "System" "System.Void")] }]
  roots := [0] }

def modGame : Image := .rebuildLookup {
  identity := { name := "Mod" }
  types := [
    { name := "A", kind := .classType, flags := .isPublic, interfaces := [.named "Game" "Other"] }]
  roots := [0] }

def modContext : Context := .ofImages modGame [nodeLibrary]

/-- Nodes for what can be used as a `Game.Other`. -/
def nodePass : CompanionRequest where
  suffix := "Node"
  template := .named "Game" "Node`1"
  contracts := [.named "Game" "Other"]

/-- The first pass injects a node, which is not assignable to the contract; but the second pass asks
whether it is, and gets no answer. -/
theorem modContext_never : modGame.WellNested ∧ modGame.validate = .ok () ∧ modGame.Anchored ∧
    modContext.PlainNames nodePass ∧ (∀ contract ∈ nodePass.contracts, ∃ s f, contract = .named s f) ∧
    ∃ c' x',
      (modContext.injectCompanions 8 (Index.build modGame) nodePass).result = .done (c', x', [1]) ∧
      (∀ id ∈ [1], ∀ contract ∈ nodePass.contracts,
        ¬ c'.Assignable (c'.target.referenceTo id) contract) ∧
      ∀ n, (c'.injectCompanions n x' nodePass).result = .unfinished := by
  obtain ⟨c', x', first, rows, above, name, unrolls⟩ : ∃ c' x',
      (modContext.injectCompanions 8 (Index.build modGame) nodePass).result = .done (c', x', [1]) ∧
      x'.ids = [0, 1] ∧ c'.next (c'.target.referenceTo 1) = [node (.named "Mod" "A")] ∧
      c'.target.referenceTo 1 = .named "Mod" "A/ANode" ∧ c'.Unrolls :=
    ⟨_, _, by rfl, by rfl, by rfl, by rfl, fun _ => rfl⟩
  have never (n : Nat) :
      c'.assignable? n (c'.target.referenceTo 1) (.named "Game" "Other") = none := by
    rw [name] at above ⊢
    exact unrolls.never_below rfl above (by decide) (by decide +kernel) n
  have foreign : ∀ id ∈ [1], ∀ contract ∈ nodePass.contracts,
      ¬ c'.Assignable (c'.target.referenceTo id) contract := by
    intro id new contract listed
    obtain rfl := List.mem_singleton.mp new
    obtain rfl := List.mem_singleton.mp listed
    rintro ⟨n, v, check, -⟩
    cases (never n).symm.trans check
  have accepted : modGame.validate = .ok () := by rfl
  have names : modContext.PlainNames nodePass := ⟨by decide +kernel, by decide +kernel, by decide⟩
  have named : ∀ contract ∈ nodePass.contracts, ∃ s f, contract = .named s f :=
    List.forall_mem_singleton.mpr ⟨_, _, rfl⟩
  refine ⟨Image.wellNested_of_flat (by decide) (by decide), accepted, .rebuildLookup _, names, named,
    c', x', first, foreign, fun n => ?_⟩
  by_contra ends
  obtain ⟨k, v, check, -⟩ := unassignable_of_ends ends
    (List.forall_mem_singleton.mpr ⟨1, by rw [rows]; decide, rfl⟩) foreign 1 List.mem_cons_self _
    List.mem_cons_self
  cases (never k).symm.trans check

end Context
end Companions
