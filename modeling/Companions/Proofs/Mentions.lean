import Companions.Proofs.Account
import Companions.Proofs.Image.Scopes
/-!
What a run makes its image mention. The assemblies of templates and of markers are referred to when
something is injected, and the types that are accompanied are the image's own. Three things are
copied from elsewhere, and nothing is referred to for them: the components that fields store, what
the constructor of a template returns, and the signature of the constructor of a marker.
-/
namespace Companions

namespace Context

/-- Images are known under their names. -/
def Named (c : Context) : Prop := ∀ name m, c.references.get? name = some m → m.name = name

theorem Named.addReference {c : Context} (h : c.Named) (m : Image) : (c.addReference m).Named := by
  intro name m' found
  rw [Context.addReference, Table.get?_insertNew] at found
  split at found
  · next same =>
      obtain rfl := Option.some.inj found
      cases known : c.references.get? m.name with
      | none => exact same.symm
      | some m'' => exact (h m.name m'' known).trans same.symm
  · exact h name m' found

/-- What a host type resolves to is in its assembly. -/
theorem Named.resolve? {c : Context} (h : c.Named) {t : HostType} {r : Resolved}
    (found : c.resolve? t.ref = some r) : r.image.name = t.assembly := by
  rw [HostType.ref, Context.resolve?] at found
  simp only [Option.bind_eq_bind, Option.bind_eq_some_iff, Option.pure_def, Option.some.injEq] at found
  obtain ⟨m, image, id, -, d, -, rfl⟩ := found
  rw [image?] at image
  split at image
  · next own =>
      obtain rfl := Option.some.inj image
      exact own.symm
  · exact h t.assembly m image

theorem Named.grafted {n : Nat} {c c' : Context} (h : c.Named) (grafted : c.Grafted n c') :
    c'.Named := by
  intro name m found
  rw [grafted.references] at found
  exact h name m found

end Context

/-- Template and marker of the pass are types that the host declares. -/
structure CompanionPass.Hosted (p : CompanionPass) : Prop where
  template : ∃ t : HostType, p.request.template = t.ref
  marker : ∀ marker ∈ p.marker, ∃ t : HostType, marker = t.ref

theorem Config.passes_hosted (config : Config) : ∀ p ∈ config.passes, p.Hosted := by
  have marked {request : CompanionRequest} {t u : HostType} (template : request.template = t.ref) :
      CompanionPass.Hosted ⟨request, some u.ref⟩ := by
    refine ⟨⟨t, template⟩, ?_⟩
    rintro _ ⟨⟩
    exact ⟨u, rfl⟩
  intro p hp
  rw [passes, Contracts.passes] at hp
  rcases List.mem_append.mp hp with first | last
  · rcases List.mem_cons.mp first with rfl | editor
    · exact marked rfl
    · split at editor
      · obtain rfl := List.mem_singleton.mp editor
        exact marked rfl
      · cases editor
  · obtain rfl := List.mem_singleton.mp last
    exact ⟨⟨_, rfl⟩, nofun⟩

namespace Context
variable {c c' : Context} {budget : Nat} {x x' : Index} {t : HostType}

/-! ## One pass -/

theorem injectCompanions_covers {q : CompanionRequest} {ids : List TypeId} (named : c.Named)
    (template : q.template = t.ref)
    (h : (c.injectCompanions budget x q).result = .done (c', x', ids)) (hx : x.Within c.target)
    (some : ids ≠ []) : c'.target.Covers q.template := by
  obtain ⟨-, -, -, rfl⟩ | ⟨unused, base, assembly, _, demand, -, found, rfl, rfl, -, -⟩ :=
    injectCompanions_eq_done.mp h
  · exact absurd rfl some
  · obtain ⟨r, resolved, rfl, -⟩ := templateConstructor_done found
    rw [template] at resolved ⊢
    have same : (c.target.addReference r.image.identity).size = c.target.size :=
      Image.size_addReference ..
    have grafted := injectAll_grafted (c := { c with target := c.target.addReference r.image.identity })
      0 x q base fun s hs => same.symm ▸ hx s.1 (companionless_mem demand s hs).1
    apply grafted.target.hosts.extends.covers
    rw [HostType.ref, Image.covers_named, ← named.resolve? resolved]
    exact Image.refers_addReference ..

theorem attach_covers {owner : TypeId} {arguments : List TypeRef} (named : c.Named)
    (h : (c.attach budget owner t.ref arguments).result = .done c') : c'.target.Covers t.ref := by
  obtain ⟨k, assembly, found, -, rfl⟩ := attach_eq_done.mp h
  obtain ⟨r, resolved, rfl, -⟩ := markerConstructor_done found
  rw [HostType.ref, Image.covers_named, ← named.resolve? resolved]
  exact Image.refers_addReference ..

theorem runCompanionPass_covers {p : CompanionPass} {i : Injected} (named : c.Named)
    (hosted : p.Hosted) (h : (c.runCompanionPass budget x p).result = .done (c', x', i))
    (hx : x.Within c.target) (some : i.types ≠ []) :
    c'.target.Covers p.request.template ∧ ∀ marker ∈ p.marker, c'.target.Covers marker := by
  obtain ⟨c₁, ids, injected, marked, rfl⟩ := runCompanionPass_eq_done.mp h
  have some : ids ≠ [] := by
    rintro rfl
    exact some rfl
  obtain ⟨grafted, k, rfl, size⟩ := injectCompanions_grafted injected hx 0
  obtain ⟨t, template⟩ := hosted.template
  constructor
  · have marks := markWith_grafted (n := 0) marked fun _ _ => Nat.zero_le _
    exact marks.target.hosts.extends.covers (injectCompanions_covers named template injected hx some)
  · intro marker prescribed
    obtain ⟨u, rfl⟩ := hosted.marker marker prescribed
    rw [prescribed] at marked
    -- the first of the companions is marked, and that refers to the assembly
    obtain ⟨k, rfl⟩ : ∃ n, k = n + 1 := Nat.exists_eq_succ_of_ne_zero (by rintro rfl; exact some rfl)
    obtain ⟨base, parent, -, -, companion⟩ := injectCompanions_companions injected hx
      (Nat.le_refl _) (size.symm ▸ Nat.lt_add_of_pos_right (Nat.succ_pos k))
    obtain ⟨c₂, one, rest⟩ := markWith_cons_eq_done.mp (List.range'_succ ▸ marked)
    rw [markOne, accompaniedType?_companion companion] at one
    have others := markWith_grafted (n := 0) rest fun _ _ => Nat.zero_le _
    have attached := attach_covers (named.grafted grafted) (Attempt.mapError_eq_done.mp one)
    exact others.target.hosts.extends.covers attached

/-! ## All passes -/

theorem runCompanionPasses_covers {ps : List CompanionPass} {injected : List Injected}
    (named : c.Named) (hosted : ∀ p ∈ ps, p.Hosted)
    (h : (c.runCompanionPasses budget x ps).result = .done (c', injected)) (hx : x.Within c.target) :
    ∀ p name, (p, name) ∈ reported ps injected →
      c'.target.Covers p.request.template ∧ ∀ marker ∈ p.marker, c'.target.Covers marker := by
  induction ps generalizing c x injected with
  | nil =>
      intro p name entry
      obtain ⟨-, rfl⟩ := runCompanionPasses_nil_eq_done.mp h
      cases entry
  | cons q ps ih =>
      obtain ⟨own, others⟩ := List.forall_mem_cons.mp hosted
      obtain ⟨c₁, x₁, i, later, first, rest, rfl⟩ := runCompanionPasses_cons_eq_done.mp h
      have grafted := runCompanionPass_grafted (n := 0) first hx (Nat.zero_le _)
      have within := (runCompanionPass_grows first hx).2.1
      intro p name entry
      rw [reported_cons] at entry
      rcases List.mem_append.mp entry with here | there
      · obtain ⟨_, listed, ⟨rfl, rfl⟩⟩ := List.mem_map.mp here
        obtain ⟨template, marker⟩ :=
          runCompanionPass_covers named own first hx (List.ne_nil_of_mem listed)
        have more := (runCompanionPasses_grafted (n := 0) rest within (Nat.zero_le _)).target.hosts.extends
        exact ⟨more.covers template, fun m prescribed => more.covers (marker m prescribed)⟩
      · exact ih (named.grafted grafted) others rest within p name there

theorem postProcess_covers {config : Config} {image : Image} {fields : List AuthoringField}
    {injected : List Injected} {difference : Difference} (named : c.Named)
    (h : (c.postProcess budget config).result = .done (image, fields, injected, difference)) :
    ∀ p name, (p, name) ∈ reported config.passes injected →
      image.Covers p.request.template ∧ ∀ marker ∈ p.marker, image.Covers marker := by
  obtain ⟨fs, c', -, passes, rfl, -, -⟩ := postProcess_eq_done.mp h
  have fielded : (c.applyFields fs).1.Named := by
    intro name m found
    rw [applyFields_references] at found
    exact named name m found
  have within := (Index.build_within c.target).grows (applyFields_grows c fs).1
  exact runCompanionPasses_covers fielded config.passes_hosted passes within

end Context

/-! ## What a companion mentions -/

theorem mem_typeRefs_markerOf {marker source t : TypeRef} {k : Method}
    (h : t ∈ (markerOf marker k [source]).typeRefs) :
    t = marker ∨ t = source ∨ t ∈ k.returnType :: k.parameters.map (·.type) := by
  rcases List.mem_append.mp h with constructor | arguments
  · rcases List.mem_cons.mp constructor with declared | signature
    · exact .inl declared
    · exact .inr (.inr signature)
  · obtain ⟨_, listed, used⟩ := List.mem_flatMap.mp arguments
    obtain ⟨⟨parameter, a⟩, paired, rfl⟩ := List.mem_map.mp listed
    obtain ⟨declared, given⟩ := List.of_mem_zip paired
    rcases List.mem_cons.mp used with rfl | value
    · exact .inr (.inr (List.mem_cons_of_mem _ (List.mem_map_of_mem declared)))
    · obtain rfl := List.mem_singleton.mp given
      exact .inr (.inl (List.mem_singleton.mp value))

/-- The bound template, the type that is accompanied, the marker, and what the node borrows. -/
theorem Image.Accompanies.mem_typeRefs {m : Image} {p : CompanionPass} {source : TypeRef}
    {parent id : TypeId} (h : m.Accompanies p source parent id) {d : TypeDef}
    (node : m.get? id = some d) {t : TypeRef} (mentioned : t ∈ d.typeRefs) :
    t = .generic p.request.template [source] ∨ t = source ∨ p.marker = some t ∨
      t ∈ d.borrowed := by
  obtain ⟨base, attributes, empty, marked, host, nested, -, -, node'⟩ := h
  obtain rfl := Option.some.inj (node.symm.trans node')
  rcases List.mem_append.mp mentioned with own | attached
  · -- the base, and the constructor with its call of the template's
    have built : t = .generic p.request.template [source] ∨ t = base.returnType := by
      simpa [companionOf, TypeDef.ofKind, Method.callingBase, Method.typeRefs,
        Instruction.typeRefs, MethodRef.typeRefs, Method.reference, empty, or_comm, or_left_comm]
        using own
    rcases built with bound | returned
    · exact .inl bound
    · exact .inr (.inr (.inr (List.mem_append_left _ (List.mem_singleton.mpr returned))))
  · unfold CompanionPass.Marks at marked
    split at marked
    · obtain rfl := marked
      cases attached
    · next marker prescribed =>
        obtain ⟨k, -, rfl⟩ := marked
        obtain ⟨a, listed, used⟩ := List.mem_flatMap.mp attached
        obtain rfl := List.mem_singleton.mp listed
        rcases mem_typeRefs_markerOf used with rfl | same | signature
        · exact .inr (.inr (.inl prescribed))
        · exact .inr (.inl same)
        · refine .inr (.inr (.inr (List.mem_append_right _ ?_)))
          exact List.mem_flatMap.mpr ⟨_, List.mem_cons_self, signature⟩

/-! ## Runs -/

namespace Context
variable {c : Context} {budget : Nat} {config : Config} {image : Image}
  {fields : List AuthoringField} {injected : List Injected} {difference : Difference}

/-- What a new node mentions is in an assembly that is referred to, or borrowed. -/
theorem postProcess_mentions (named : c.Named)
    (h : (c.postProcess budget config).result = .done (image, fields, injected, difference))
    {id : TypeId} {d : TypeDef} (new : c.target.size ≤ id) (node : image.get? id = some d)
    {t : TypeRef} (mentioned : t ∈ d.typeRefs) : image.Covers t ∨ t ∈ d.borrowed := by
  obtain ⟨fielded, -, shape, -, injects, -, -⟩ := postProcess_injects h
  have size : fielded.size = c.target.size := Image.size_of_shape shape
  obtain ⟨k, rfl⟩ := Nat.exists_eq_add_of_le new
  have there := Image.lt_of_get? node
  rw [injects.size_eq, size, Nat.add_lt_add_iff_left] at there
  obtain ⟨⟨p, name⟩, entry⟩ : ∃ e, (reported config.passes injected)[k]? = some e :=
    ⟨_, List.getElem?_eq_getElem there⟩
  obtain ⟨template, marker⟩ := postProcess_covers named h p name (List.mem_of_getElem? entry)
  obtain ⟨before, after, parent, -, pass, late, -, -, -, -, accompanies⟩ := injects.account entry
  have source : image.Covers (before.referenceTo parent) :=
    late.hosts.extends.covers (pass.hosts.extends.covers (before.covers_referenceTo parent))
  rw [size] at accompanies
  rcases accompanies.mem_typeRefs node mentioned with rfl | rfl | prescribed | borrowed
  · exact .inl (Image.covers_generic.mpr ⟨template, List.forall_mem_singleton.mpr source⟩)
  · exact .inl source
  · exact .inl (marker t prescribed)
  · exact .inr borrowed

/-- A pass over a complete image leaves it complete exactly if the assemblies of the components that
got a field are referred to, and those of what the companions borrow from templates and markers. -/
theorem postProcess_complete_iff (named : c.Named) (complete : c.target.ReferenceComplete)
    (h : (c.postProcess budget config).result = .done (image, fields, injected, difference)) :
    image.ReferenceComplete ↔ (∀ f ∈ fields, image.Covers f.component) ∧
      ∀ id d, c.target.size ≤ id → image.get? id = some d → ∀ t ∈ d.borrowed, image.Covers t := by
  obtain ⟨extended, owned⟩ := postProcess_extends h
  rw [← complete.old_iff extended owned]
  constructor
  · intro all
    have node (id) (d) (there : image.get? id = some d) := all d (List.mem_of_getElem? there)
    refine ⟨fun id _ d there => node id d there, fun id d _ there t borrowed => ?_⟩
    exact node id d there t (TypeDef.mem_typeRefs_of_borrowed borrowed)
  · rintro ⟨old, new⟩ d hd t mentioned
    obtain ⟨id, node⟩ := Image.mem_types_iff.mp hd
    rcases Nat.lt_or_ge id c.target.size with inside | outside
    · exact old id inside d node t mentioned
    · exact (postProcess_mentions named h outside node mentioned).elim (fun covered => covered)
        (new id d outside node t)

end Context

namespace Processor

variable {σ : Type} [FileSystem σ]

theorem opened_named (p : Processor) (m : Image) (references : List Path) :
    (p.opened m references).Ensures fun x => ∀ c, x.2 = .ok c → c.Named :=
  opened_keeps (P := Context.Named) (fun _ m named => named.addReference m) p nofun references

/-- A run over a complete image ends in a complete one exactly if the components that got a field,
what the constructors of templates return and the signatures of the constructors of markers are in
assemblies that the outcome refers to. Nothing else that a run adds mentions others. -/
theorem run_complete_iff {p p' : Processor} {budget : Nat} {m : Image} {references : List Path}
    {s : σ} {o : Outcome} (complete : m.ReferenceComplete)
    (ran : ((p.run budget m references).run s).value = (p', .done o)) :
    o.image.ReferenceComplete ↔ (∀ f ∈ o.fields, o.image.Covers f.component) ∧
      ∀ id d, m.size ≤ id → o.image.get? id = some d → ∀ t ∈ d.borrowed, o.image.Covers t := by
  obtain ⟨r, c, opened, -, rfl, result⟩ := done_of_run ran
  have named := (opened_named p c.target references).run s c (by rw [opened])
  exact Context.postProcess_complete_iff named complete result

/-- The interface, a template of authoring types that has it, and the template of bakers. -/
def bakingLibrary : Image := .rebuildLookup {
  identity := { name := "Ecs.Authoring" }
  references := [{ name := "System" }]
  types := [
    { space := "Ecs.Authoring", name := "IGenericComponentAuthoring", kind := .interfaceType,
      flags := .union .isPublic .isAbstract },
    { space := "Ecs.Authoring", name := "GenericComponentAuthoring`1", kind := .classType,
      flags := .isPublic, genericParams := ["T"],
      interfaces := [.named "Ecs.Authoring" "Ecs.Authoring.IGenericComponentAuthoring"] },
    { space := "Ecs.Authoring", name := "GenericBaker`1", kind := .classType, flags := .isPublic,
      genericParams := ["T"], methods := [.constructor [] void] }]
  roots := [0, 1, 2] }

def hull : TypeDef := { name := "Hull", kind := .structType, flags := .isPublic }

def shapeLibrary : Image := .rebuildLookup {
  identity := { name := "Shapes" }
  types := [hull]
  roots := [0] }

/-- A base class of ships, whose hulls are those of the library at `home`. -/
def shipLibrary (home : String) : Image := .rebuildLookup {
  identity := { name := "Lib" }
  references := [{ name := "Ecs.Authoring" }, { name := "Shapes" }]
  types := [
    { name := "ShipBase", kind := .classType, flags := .isPublic,
      base := some (.generic (.named "Ecs.Authoring" "Ecs.Authoring.GenericComponentAuthoring`1")
        [.named home "Hull"]) },
    hull]
  roots := [0, 1] }

/-- An authoring type whose component is found above the base that it is declared with. -/
def shipGame : Image := .rebuildLookup {
  identity := { name := "Game" }
  references := [{ name := "System" }, { name := "Lib" }, { name := "Ecs.Authoring" }]
  types := [
    { name := "Ship", kind := .classType, flags := .isPublic,
      base := some (.named "Lib" "ShipBase") }]
  roots := [0] }

def shipyard (home : String) : Processor where
  cache := [bakingLibrary, shapeLibrary, shipLibrary home].foldl Cache.insert {}

/-- The game with the field and the baker that a run adds. -/
def shippedGame (home : String) : Image :=
  let fielded := shipGame.update 0 fun d =>
    { d with fields := [.ofPublic "Value" (.named home "Hull")] }
  fielded.addNestedType 0 (companionOf (Contracts.bakerPass {}).request (.constructor [] void)
    "ShipBaker" (.named "Game" "Ship"))

def shipContext (home : String) : Context :=
  .ofImages shipGame [shipLibrary home, bakingLibrary, shapeLibrary]

def shipField (home : String) : AuthoringField := ⟨0, "Value", .named home "Hull", .single⟩

theorem shipGame_run (s : σ) {home : String} (known : home = "Lib" ∨ home = "Shapes") :
    ∃ o, (((shipyard home).run 8 shipGame []).run s).value = (shipyard home, .done o) ∧
      o.fields = [shipField home] ∧ o.image = shippedGame home := by
  obtain ⟨r, opened, cache⟩ : ∃ r, (((shipyard home).opened shipGame []).run s).value =
      (r, .ok (shipContext home)) ∧ r.cache = (shipyard home).cache := by
    rcases known with rfl | rfl
    · exact ⟨_, by rfl, by rfl⟩
    · exact ⟨_, by rfl, by rfl⟩
  have planned : (shipContext home).plannedFor 8 {} = .done [shipField home] := by
    rcases known with rfl | rfl <;> rfl
  have passes : (((shipContext home).applyFields [shipField home]).1.runCompanionPasses 8
      (Index.build shipGame) (Contracts.passes {} false)).result =
      .done ({ shipContext home with target := shippedGame home },
        [⟨"CustomDrawer", []⟩, ⟨"Baker", ["Ship/ShipBaker"]⟩]) := by
    rcases known with rfl | rfl <;> rfl
  have added : ((shipContext home).applyFields [shipField home]).2.map (·.1) = [shipField home] := by
    rcases known with rfl | rfl <;> rfl
  obtain ⟨o, ran, image, fields, -⟩ :=
    run_of_done opened (Context.postProcess_of_passes planned passes)
  refine ⟨o, ?_, fields.trans added, image⟩
  rw [ran, cache]

/-- With a hull of the library that the game refers to, the outcome is complete. -/
theorem shipGame_complete :
    shipGame.ReferenceComplete ∧
    ∃ o, (((shipyard "Lib").run 8 shipGame []).run ({} : Disk)).value = (shipyard "Lib", .done o) ∧
      o.image.ReferenceComplete := by
  have complete : shipGame.ReferenceComplete := by decide
  obtain ⟨o, ran, fields, image⟩ := shipGame_run ({} : Disk) (.inl rfl)
  refine ⟨complete, o, ran, (run_complete_iff complete ran).mpr ⟨?_, fun id d _ node => ?_⟩⟩
  · rw [fields, image]
    decide
  · rw [image] at node ⊢
    have borrows : ∀ d ∈ (shippedGame "Lib").types, ∀ t ∈ d.borrowed, (shippedGame "Lib").Covers t := by
      decide
    exact borrows d (List.mem_of_getElem? node)

/-- With a hull of a library that only the other one refers to, it is not: the field has the type
that the base class is bound to. -/
theorem shipGame_incomplete :
    shipGame.ReferenceComplete ∧
    ∃ o, (((shipyard "Shapes").run 8 shipGame []).run ({} : Disk)).value =
      (shipyard "Shapes", .done o) ∧ ¬ o.image.ReferenceComplete := by
  have complete : shipGame.ReferenceComplete := by decide
  obtain ⟨o, ran, -, image⟩ := shipGame_run ({} : Disk) (.inr rfl)
  have lacks : ¬ (shippedGame "Shapes").ReferenceComplete := by decide
  exact ⟨complete, o, ran, image ▸ lacks⟩

end Processor
end Companions
