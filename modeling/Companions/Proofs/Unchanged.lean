import Companions.File.Disk
import Companions.Proofs.Run
import Companions.Proofs.Idle
/-!
What a run without additions leaves of its image. It reports no change, but it flags the components
it met and refers to the templates it looked for: the image is left as it was exactly if all of
that was in place before.
-/
namespace Companions

namespace Context

/-- A companion pass has something to do and needs a template from the named assembly. -/
def Needs (c : Context) (budget : Nat) (x : Index) (q : CompanionRequest) (name : String) : Prop :=
  ∃ unused base assembly, (c.companionless budget x q).result = .done unused ∧ unused ≠ [] ∧
    (c.templateConstructor q).result = .done (base, assembly) ∧ assembly.name = name

/-- Whatever a pass over the context would flag is flagged, and whatever it would refer to is
referred to. -/
structure Settled (c : Context) (budget : Nat) (config : Config) : Prop where
  flagged : ∀ fs, c.plannedFor budget config = .done fs →
    ∀ f ∈ fs, c.declaredInTarget f.component → c.target.Flagged f.component
  refers : ∀ p ∈ config.contracts.passes config.injectInspectorEditors, ∀ name,
    c.Needs budget (Index.build c.target) p.request name → c.target.Refers name

theorem Needs.congr {c d : Context} {budget : Nat} {x : Index} {q : CompanionRequest}
    {name : String} (h : c.Needs budget x q name) (same : c.shape = d.shape) :
    d.Needs budget x q name := by
  obtain ⟨unused, base, assembly, demand, some, template, eq⟩ := h
  refine ⟨unused, base, assembly, ?_, some, ?_, eq⟩
  · rw [← companionless_congr same, demand]
  · rw [← templateConstructor_congr same, template]

theorem IdleInjection.refers {c c' : Context} {budget : Nat} {x : Index} {q : CompanionRequest}
    (h : c.IdleInjection budget x q c') {name : String} (needs : c.Needs budget x q name) :
    c'.target.Refers name := by
  obtain ⟨unused, base, assembly, demand, some, template, rfl⟩ := needs
  cases h with
  | nothing demand' =>
      rw [demand] at demand'
      exact absurd (Attempt.done.inj demand') some
  | taken _ _ template' _ =>
      rw [template] at template'
      obtain ⟨-, rfl⟩ := Prod.mk.inj (Attempt.done.inj template')
      exact Image.refers_addReference ..

theorem IdleInjection.eq_self {c c' : Context} {budget : Nat} {x : Index} {q : CompanionRequest}
    (h : c.IdleInjection budget x q c')
    (refers : ∀ name, c.Needs budget x q name → c.target.Refers name) : c' = c := by
  cases h with
  | nothing => rfl
  | taken demand some template taken =>
      rw [Image.addReference_eq_self (refers _ ⟨_, _, _, demand, some, template, rfl⟩)]

theorem IdlePasses.refers {c c' : Context} {budget : Nat} {x : Index} {ps : List CompanionPass}
    (h : IdlePasses budget x c ps c') {p : CompanionPass} (hp : p ∈ ps) {name : String}
    (needs : c.Needs budget x p.request name) : c'.target.Refers name := by
  induction h with
  | nil => cases hp
  | cons first rest ih =>
      rcases List.mem_cons.mp hp with rfl | hp
      · exact rest.touched.target.refers (first.refers needs)
      · exact ih hp (needs.congr first.touched.shape.symm)

theorem IdlePasses.eq_self {c c' : Context} {budget : Nat} {x : Index} {ps : List CompanionPass}
    (h : IdlePasses budget x c ps c')
    (refers : ∀ p ∈ ps, ∀ name, c.Needs budget x p.request name → c.target.Refers name) : c' = c := by
  induction h with
  | nil => rfl
  | cons first rest ih =>
      obtain ⟨head, tail⟩ := List.forall_mem_cons.mp refers
      obtain rfl := first.eq_self head
      exact ih tail

/-- A pass that adds nothing leaves the target as it is exactly if the context is settled. -/
theorem postProcess_image_iff {c : Context} {budget : Nat} {config : Config} {image : Image}
    {injected : List Injected} {difference : Difference}
    (h : (c.postProcess budget config).result = .done (image, [], injected, difference))
    (none : ∀ i ∈ injected, i.types = []) : image = c.target ↔ c.Settled budget config := by
  obtain ⟨-, fs, c', planned, fields, idle, rfl⟩ := postProcess_idle h none
  obtain ⟨touched, flagged⟩ := applyFields_touched fields
  constructor
  · intro same
    constructor
    · intro fs' planned' f hf own
      rw [planned] at planned'
      obtain rfl := Attempt.done.inj planned'
      exact same ▸ idle.touched.target.flagged (flagged f hf own)
    · intro p hp name needs
      exact same ▸ idle.refers hp (needs.congr touched.shape.symm)
  · intro settled
    rw [applyFields_eq_self fields (settled.flagged fs planned)] at idle
    rw [idle.eq_self settled.refers]

end Context

namespace Processor

/-- The context that a run opens for the image is settled. -/
def SettledAt {σ : Type} [FileSystem σ] (p : Processor) (budget : Nat) (m : Image)
    (references : List Path) (s : σ) : Prop :=
  ∃ r c, ((p.opened m references).run s).value = (r, .ok c) ∧ c.Settled budget p.config

variable {σ : Type} [FileSystem σ]

theorem additions_of_unchanged {o : Outcome} (h : o.changed = false) :
    o.fields = [] ∧ ∀ i ∈ o.injected, i.types = [] := by
  simpa [Outcome.changed] using h

theorem run_image_iff {p p' : Processor} {budget : Nat} {m : Image} {references : List Path} {s : σ}
    {o : Outcome} (h : ((p.run budget m references).run s).value = (p', .done o))
    (quiet : o.changed = false) : o.image = m ↔ p.SettledAt budget m references s := by
  obtain ⟨r, c, opened, -, rfl, result⟩ := done_of_run h
  obtain ⟨fields, none⟩ := additions_of_unchanged quiet
  rw [fields] at result
  rw [Context.postProcess_image_iff result none]
  constructor
  · exact fun settled => ⟨r, c, opened, settled⟩
  · rintro ⟨r', c', opened', settled⟩
    rw [opened] at opened'
    cases opened'
    exact settled

/-- An assembly that is not ignored and not rewritten was loaded, and its run reported no change. -/
theorem processPath_false {p p' : Processor} {budget : Nat} {path : Path} {references : List Path}
    {s : σ} (h : ((p.processPath budget path references).run s).value = (p', .done false))
    (wanted : p.config.shouldProcess path.assemblyName) :
    ∃ m o, ((Image.load path).run s).value = .ok m ∧
      ((p.run budget m references).run s).value = (p', .done o) ∧ o.changed = false := by
  rw [processPath, if_neg (by simpa using wanted), Script.value_bind,
    (Image.asks_load path).files] at h
  generalize ((Image.load path).run s).value = loaded at h ⊢
  cases loaded with
  | error e => cases h
  | ok m =>
      obtain ⟨o, ran, quiet⟩ :
          ∃ o, ((p.run budget m references).run s).value = (p', .done o) ∧ o.changed = false := by
        simp only [Script.value_bind] at h
        generalize (p.run budget m references).run s = run at h ⊢
        obtain ⟨⟨p₁, attempt⟩, s₁, j⟩ := run
        cases attempt with
        | failed e => cases h
        | unfinished => cases h
        | done o =>
            cases changed : o.changed with
            | false =>
                simp only [changed] at h
                cases h
                exact ⟨o, rfl, changed⟩
            | true =>
                simp only [changed, Bool.not_true, Bool.false_eq_true, if_false,
                  Script.value_bind] at h
                generalize (o.image.save path).run s₁ = saved at h
                obtain ⟨e | u, s₂, j₂⟩ := saved <;> cases h
      exact ⟨m, o, rfl, ran, quiet⟩

/-- Where no change is reported, the image is as it was exactly if the context was settled; and an
assembly that is left alone as unchanged is one of these cases. -/
theorem unchanged_iff (p : Processor) (budget : Nat) (references : List Path) (s : σ) :
    (∀ m p' o, ((p.run budget m references).run s).value = (p', .done o) → o.changed = false →
      (o.image = m ↔ p.SettledAt budget m references s)) ∧
    ∀ path p', ((p.processPath budget path references).run s).value = (p', .done false) →
      p.config.shouldProcess path.assemblyName →
      ∃ m o, ((Image.load path).run s).value = .ok m ∧
        ((p.run budget m references).run s).value = (p', .done o) ∧ o.changed = false ∧
        (o.image = m ↔ p.SettledAt budget m references s) := by
  refine ⟨fun m p' o ran quiet => run_image_iff ran quiet, fun path p' h wanted => ?_⟩
  obtain ⟨m, o, loaded, ran, quiet⟩ := processPath_false h wanted
  exact ⟨m, o, loaded, ran, quiet, run_image_iff ran quiet⟩

/-- An authoring library with the template for one component. -/
def authoringLibrary : Image := Image.rebuildLookup {
  identity := { name := "Ecs.Authoring" }
  types := [
    { space := "Ecs.Authoring", name := "GenericComponentAuthoring`1", kind := .classType,
      flags := .isPublic, genericParams := ["T"] }]
  roots := [0] }

/-- A component, and its authoring type with the field in place. -/
def authoredGame (component : TypeFlags) : Image := Image.rebuildLookup {
  identity := { name := "Game" }
  references := [{ name := "Ecs.Authoring" }]
  types := [
    { name := "Health", kind := .structType, flags := component },
    { name := "HealthAuthoring", kind := .classType, flags := .isPublic,
      base := some (.generic (.named "Ecs.Authoring" "Ecs.Authoring.GenericComponentAuthoring`1")
        [.named "Game" "Health"]),
      fields := [.ofPublic "Value" (.named "Game" "Health")] }]
  roots := [0, 1] }

def withLibrary : Processor where
  cache := Cache.insert {} authoringLibrary

/-- What a processor with the library sees of the game. -/
def authoredContext (component : TypeFlags) : Context :=
  .ofImages (authoredGame component) [authoringLibrary]

theorem authoredContext_planned (component : TypeFlags) :
    (authoredContext component).plannedFor 8 {} =
      .done [⟨1, "Value", .named "Game" "Health", .single⟩] := by rfl

theorem authoredContext_companionless (component : TypeFlags) {p : CompanionPass}
    (hp : p ∈ Contracts.passes {} false) : ((authoredContext component).companionless 8
      (Index.build (authoredGame component)) p.request).result = .done [] := by
  rcases List.mem_cons.mp hp with rfl | hp
  · rfl
  · obtain rfl := List.mem_singleton.mp hp
    rfl

theorem authoredContext_idle (component : TypeFlags) : (authoredContext component).Idle 8 {} := by
  refine ⟨⟨_, authoredContext_planned component, ?_⟩,
    fun p hp => ⟨_, .nothing (authoredContext_companionless component hp)⟩⟩
  intro f hf d hd
  obtain rfl := List.mem_singleton.mp hf
  cases hd
  rfl

theorem withLibrary_opened (component : TypeFlags) :
    ∃ r, ((withLibrary.opened (authoredGame component) []).run ({} : Disk)).value =
      (r, .ok (authoredContext component)) := ⟨_, by rfl⟩

theorem authoredGame_run (component : TypeFlags) :
    ∃ p' o, ((withLibrary.run 8 (authoredGame component) []).run ({} : Disk)).value = (p', .done o) ∧
      o.changed = false := by
  obtain ⟨r, opened⟩ := withLibrary_opened component
  obtain ⟨image, injected, difference, result, none⟩ :=
    Context.postProcess_idle_iff.mpr (authoredContext_idle component)
  obtain ⟨o, ran, -, fields, rfl, -⟩ := run_of_done opened result
  exact ⟨_, o, ran, by simpa [Outcome.changed, fields] using none⟩

/-- With the component flagged before, the image stays as it was. -/
theorem flagged_unchanged :
    let game := authoredGame (.union .isPublic .serializable)
    ∃ p' o, ((withLibrary.run 8 game []).run ({} : Disk)).value = (p', .done o) ∧
      o.changed = false ∧ o.image = game := by
  intro game
  obtain ⟨p', o, ran, quiet⟩ := authoredGame_run (.union .isPublic .serializable)
  obtain ⟨r, opened⟩ := withLibrary_opened (.union .isPublic .serializable)
  refine ⟨p', o, ran, quiet, ?_⟩
  refine ((unchanged_iff withLibrary 8 [] ({} : Disk)).1 game p' o ran quiet).mpr ⟨r, _, opened, ?_, ?_⟩
  · intro fs planned f hf _ id d found node
    obtain rfl := Attempt.done.inj ((authoredContext_planned _).symm.trans planned)
    obtain rfl := List.mem_singleton.mp hf
    cases found
    cases node
    decide
  · rintro p hp name ⟨unused, base, assembly, demand, some, -⟩
    have nothing := (authoredContext_companionless _ hp).symm.trans demand
    exact absurd (Attempt.done.inj nothing).symm some

/-- The field is there, so no change is reported, but the component is flagged on the way. -/
theorem flagged_unreported :
    ∃ p' o, ((withLibrary.run 8 (authoredGame .isPublic) []).run ({} : Disk)).value = (p', .done o) ∧
      o.changed = false ∧ o.image ≠ authoredGame .isPublic := by
  obtain ⟨p', o, ran, quiet⟩ := authoredGame_run .isPublic
  refine ⟨p', o, ran, quiet, fun same => ?_⟩
  obtain ⟨r, c, opened, settled⟩ := (run_image_iff ran quiet).mp same
  obtain ⟨r', opened'⟩ := withLibrary_opened .isPublic
  rw [opened'] at opened
  cases opened
  have flagged := settled.flagged _ (authoredContext_planned .isPublic) _ List.mem_cons_self
    (by rfl) 0 _ rfl rfl
  exact absurd flagged (by decide)

end Processor
end Companions
