import Companions.File.Disk
import Companions.Proofs.Resolver
import Companions.Proofs.Additions
/-!
The same run once more, on the image of the first run and with its processor. The second run adds
nothing exactly if all that it plans is in that image. All that the first run planned is; so a second
run that plans nothing else adds nothing.
-/
namespace Companions

namespace Context

/-- The checks of a pass end, the templates that it needs resolve, and the fields and the names of
companions that it plans are among the given ones. -/
structure PlansOnly (c : Context) (budget : Nat) (config : Config) (field : TypeId → String → Prop)
    (name : String → Prop) : Prop where
  fields : ∃ fs, c.plannedFor budget config = .done fs ∧ ∀ f ∈ fs, field f.owner f.name
  companions : ∀ p ∈ config.contracts.passes config.injectInspectorEditors, ∃ unused,
    (c.companionless budget (Index.build c.target) p.request).result = .done unused ∧
    (unused ≠ [] → ∃ k, (c.templateConstructor p.request).result = .done k) ∧
    ∀ s ∈ unused, name (c.companionName p.request s)

theorem PlansOnly.mono {c : Context} {budget : Nat} {config : Config}
    {field field' : TypeId → String → Prop} {name name' : String → Prop}
    (h : c.PlansOnly budget config field name) (fields : ∀ id f, field id f → field' id f)
    (names : ∀ n, name n → name' n) : c.PlansOnly budget config field' name' := by
  obtain ⟨⟨fs, planned, among⟩, companions⟩ := h
  refine ⟨⟨fs, planned, fun f hf => fields _ _ (among f hf)⟩, fun p hp => ?_⟩
  obtain ⟨unused, demand, template, among⟩ := companions p hp
  exact ⟨unused, demand, template, fun s hs => names _ (among s hs)⟩

theorem hasField_iff_bears {m : Image} {f : AuthoringField} (h : f.owner < m.types.length) :
    m.HasField f ↔ m.Bears f.owner f.name := by
  obtain ⟨d, node⟩ := Image.exists_get? h
  constructor
  · exact fun has => ⟨d, node, has d node⟩
  · rintro ⟨d', node', has⟩ d'' node''
    rw [node'] at node''
    cases node''
    exact has

theorem exists_idleInjection_iff {c : Context} {budget : Nat} {x : Index} {q : CompanionRequest} :
    (∃ c', c.IdleInjection budget x q c') ↔ ∃ unused,
      (c.companionless budget x q).result = .done unused ∧
      (unused ≠ [] → ∃ k, (c.templateConstructor q).result = .done k) ∧
      ∀ s ∈ unused, c.Taken q s := by
  constructor
  · rintro ⟨c', h⟩
    cases h with
    | nothing demand => exact ⟨[], demand, fun h => absurd rfl h, by simp⟩
    | taken demand some template taken => exact ⟨_, demand, fun _ => ⟨_, template⟩, taken⟩
  · rintro ⟨unused, demand, template, taken⟩
    by_cases none : unused = []
    · subst none
      exact ⟨c, .nothing demand⟩
    · obtain ⟨⟨base, assembly⟩, template⟩ := template none
      exact ⟨_, .taken demand none template taken⟩

/-- A pass is idle exactly if all that it plans is there. -/
theorem idle_iff_plansOnly {c : Context} {budget : Nat} {config : Config} :
    c.Idle budget config ↔
      c.PlansOnly budget config c.target.Bears fun name => (c.target.find? name).isSome := by
  have within := Index.build_within c.target
  constructor
  · rintro ⟨⟨fs, planned, fields⟩, companions⟩
    refine ⟨⟨fs, planned, fun f hf => ?_⟩, fun p hp => exists_idleInjection_iff.mp (companions p hp)⟩
    exact (hasField_iff_bears (within _ (planned_owner planned f hf))).mp (fields f hf)
  · rintro ⟨⟨fs, planned, fields⟩, companions⟩
    refine ⟨⟨fs, planned, fun f hf => ?_⟩, fun p hp => exists_idleInjection_iff.mpr (companions p hp)⟩
    exact (hasField_iff_bears (within _ (planned_owner planned f hf))).mpr (fields f hf)

end Context

/-- An outcome without additions. -/
structure Outcome.Idle (o : Outcome) : Prop where
  fields : o.fields = []
  injected : ∀ i ∈ o.injected, i.types = []
  difference : o.difference = ⟨[], []⟩

namespace Processor

variable {σ : Type} [FileSystem σ]

/-- The run ends in an outcome without additions. -/
def RunsIdle (p : Processor) (budget : Nat) (m : Image) (references : List Path) (s : σ) : Prop :=
  ∃ p' o, ((p.run budget m references).run s).value = (p', .done o) ∧ o.Idle

theorem runsIdle_iff {p : Processor} {budget : Nat} {m : Image} {references : List Path} {s : σ}
    {r : Resolver} {c : Context} (opened : ((p.opened m references).run s).value = (r, .ok c)) :
    p.RunsIdle budget m references s ↔ c.Idle budget p.config := by
  rw [← Context.postProcess_idle_iff]
  constructor
  · rintro ⟨p', o, ran, fields, injected, -⟩
    obtain ⟨r', c', opened', -, -, result⟩ := done_of_run ran
    rw [opened] at opened'
    cases opened'
    rw [fields] at result
    exact ⟨_, _, _, result, injected⟩
  · rintro ⟨image, injected, difference, result, none⟩
    obtain ⟨o, ran, -, fields, rfl, differs⟩ := run_of_done opened result
    exact ⟨_, o, ran, fields, none, differs.trans (Context.postProcess_idle result none).1⟩

/-- The run once more, where the reference files are found under the paths of the first run. All that the
first run planned is in its image. The second run gets a context again, and with any budget it is idle
exactly if all that it plans is there; so it is idle if it plans nothing but what the first run planned. -/
theorem rerun_idle_iff {p p' : Processor} {budget : Nat} {m : Image} {references : List Path}
    {s s' : σ} {o : Outcome} (first : ((p.run budget m references).run s).value = (p', .done o))
    (valid : m.validate = .ok ())
    (unchanged : ∀ path ∈ references, FileSystem.canonical s' path = FileSystem.canonical s path) :
    ∃ r c r' c', ((p.opened m references).run s).value = (r, .ok c) ∧
      ((p'.opened o.image references).run s').value = (r', .ok c') ∧
      let tasks := c.tasks budget p.config
      tasks.DoneIn o.image ∧ ∀ n,
        (p'.RunsIdle n o.image references s' ↔ c'.PlansOnly n p.config o.image.Bears
          fun name => (o.image.find? name).isSome) ∧
        (c'.PlansOnly n p.config (fun id name => (id, name) ∈ tasks.fields) (· ∈ tasks.names) →
          p'.RunsIdle n o.image references s') := by
  obtain ⟨r, c, opened, rfl, rfl, result⟩ := done_of_run first
  have known : ∀ path ∈ references, (r.cache.atPath? (Cache.keyOf s' path)).isSome := by
    intro path hp
    rw [Cache.keyOf, unchanged path hp]
    exact opened_known opened path hp
  obtain ⟨r', c', again⟩ := opened_of_known (p := { p with cache := r.cache }) o.image known
  have target := (opened_target _ o.image references).run s' c' (by rw [again])
  have done := Context.postProcess_done result (Image.linked_of_validate valid)
  have idle_iff (n : Nat) :
      ({ p with cache := r.cache } : Processor).RunsIdle n o.image references s' ↔
        c'.PlansOnly n p.config o.image.Bears fun name => (o.image.find? name).isSome := by
    rw [runsIdle_iff again, Context.idle_iff_plansOnly, target]
  refine ⟨r, c, r', c', opened, again, done, fun n => ⟨idle_iff n, fun old => (idle_iff n).mpr ?_⟩⟩
  exact old.mono (fun id name task => done.fields (id, name) task) done.names

/-- The interface of authoring components. -/
def authoringInterface : TypeRef := (Contracts.authoringInterface {}).ref

/-- A library with the template of bakers, which implements the given interfaces itself. -/
def bakerLibrary (interfaces : List TypeRef) : Image := Image.rebuildLookup {
  identity := { name := "Ecs.Authoring" }
  types := [
    { space := "Ecs.Authoring", name := "IGenericComponentAuthoring", kind := .interfaceType,
      flags := .union .isPublic .isAbstract },
    { space := "Ecs.Authoring", name := "GenericBaker`1", kind := .classType,
      flags := .isPublic, genericParams := ["T"], interfaces := interfaces,
      methods := [.constructor [] (.named "System" "System.Void")] }]
  roots := [0, 1] }

def withBakers (interfaces : List TypeRef) : Processor where
  cache := Cache.insert {} (bakerLibrary interfaces)

def unbakedGame : Image := Image.rebuildLookup {
  identity := { name := "Game" }
  references := [{ name := "Ecs.Authoring" }]
  types := [
    { name := "Health", kind := .classType, flags := .isPublic,
      interfaces := [authoringInterface] }]
  roots := [0] }

/-- The game with the baker that the first run adds. -/
def bakedGame : Image :=
  unbakedGame.addNestedType 0 (companionOf (Contracts.bakerPass {}).request
    (.constructor [] (.named "System" "System.Void")) "HealthBaker" (.named "Game" "Health"))

/-- What a processor with the library sees of an image. -/
def bakerContext (interfaces : List TypeRef) (m : Image) : Context :=
  .ofImages m [bakerLibrary interfaces]

theorem withBakers_opened (interfaces : List TypeRef) {m : Image} (s : σ)
    (refers : m.references = [{ name := "Ecs.Authoring" }]) (name : m.name = "Game") :
    ∃ r, (((withBakers interfaces).opened m []).run s).value =
      (r, .ok (bakerContext interfaces m)) ∧ r.cache = (withBakers interfaces).cache := by
  refine opened_cached s refers rfl ?_ rfl ?_
  · rw [name]
    exact fun h => absurd h (by decide : "Ecs.Authoring" ≠ "Game")
  · rw [Cache.get?, withBakers, Cache.insert, Table.get?_insertNew, if_pos rfl]
    rfl

/-- The first run adds the baker, whatever the template implements. -/
theorem unbakedGame_run (interfaces : List TypeRef) (s : σ) :
    ∃ o, (((withBakers interfaces).run 8 unbakedGame []).run s).value =
      (withBakers interfaces, .done o) ∧ o.image = bakedGame := by
  obtain ⟨r, opened, cache⟩ := withBakers_opened interfaces s (m := unbakedGame) rfl rfl
  have planned : (bakerContext interfaces unbakedGame).plannedFor 8 {} = .done [] := by rfl
  have passes : ((bakerContext interfaces unbakedGame).runCompanionPasses 8
      (Index.build unbakedGame) (Contracts.passes {} false)).result =
      .done (bakerContext interfaces bakedGame,
        [⟨"CustomDrawer", []⟩, ⟨"Baker", ["Health/HealthBaker"]⟩]) := by
    rfl
  obtain ⟨o, ran, image, -⟩ := run_of_done opened (Context.postProcess_of_passes planned passes)
  refine ⟨o, ?_, image⟩
  rw [ran, cache]

/-- A template that is no source type: the second run finds the baker and adds nothing. -/
theorem bakedGame_idle :
    let first := ((withBakers []).run 8 unbakedGame []).run ({} : Disk)
    ∃ p' o, first.value = (p', .done o) ∧ o.image = bakedGame ∧
      p'.RunsIdle 8 o.image [] first.files := by
  intro first
  obtain ⟨o, ran, image⟩ := unbakedGame_run [] ({} : Disk)
  have unchanged : ∀ path ∈ ([] : List Path),
      FileSystem.canonical first.files path = FileSystem.canonical ({} : Disk) path := by
    simp
  obtain ⟨r, c, r', c', -, again, -, idle⟩ := rerun_idle_iff ran (by rfl) unchanged
  obtain ⟨r'', opened, -⟩ := withBakers_opened [] first.files (m := bakedGame) rfl rfl
  rw [image, opened] at again
  cases again
  obtain ⟨-, idle⟩ := idle 8
  refine ⟨_, o, ran, image, idle ⟨⟨[], by rfl, by simp⟩, fun p hp => ⟨[], ?_, by simp, by simp⟩⟩⟩
  rcases List.mem_cons.mp hp with rfl | hp
  · rfl
  · obtain rfl := List.mem_singleton.mp hp
    rfl

/-- The template is a source type itself, so the baker of the first run is one as well. -/
theorem bakedGame_baked :
    let first := ((withBakers [authoringInterface]).run 8 unbakedGame []).run ({} : Disk)
    unbakedGame.validate = .ok () ∧ ∃ p' o p'' o', first.value = (p', .done o) ∧
      ((p'.run 8 o.image []).run first.files).value = (p'', .done o') ∧
      o'.injected = [⟨"CustomDrawer", []⟩, ⟨"Baker", ["Health/HealthBaker/HealthBakerBaker"]⟩] := by
  intro first
  obtain ⟨o, ran, image⟩ := unbakedGame_run [authoringInterface] ({} : Disk)
  obtain ⟨r, opened, -⟩ :=
    withBakers_opened [authoringInterface] first.files (m := bakedGame) rfl rfl
  have planned : (bakerContext [authoringInterface] bakedGame).plannedFor 8 {} = .done [] := by rfl
  obtain ⟨c, passes⟩ : ∃ c, ((bakerContext [authoringInterface] bakedGame).runCompanionPasses 8
      (Index.build bakedGame) (Contracts.passes {} false)).result = .done (c,
        [⟨"CustomDrawer", []⟩, ⟨"Baker", ["Health/HealthBaker/HealthBakerBaker"]⟩]) :=
    ⟨_, by rfl⟩
  obtain ⟨o', second, -, -, injected, -⟩ :=
    run_of_done opened (Context.postProcess_of_passes planned passes)
  rw [← image] at second
  exact ⟨by rfl, _, o, _, o', ran, second, injected⟩

end Processor
end Companions
