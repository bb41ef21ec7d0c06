import Companions.File.Disk
import Companions.Proofs.Frame
import Companions.Proofs.Resolver
import Companions.Proofs.Image.Lookup
/-!
Runs keep images sound. Every change that a pass makes does: a flag, a field whose name the owner
does not have, a reference, a companion under a free name, an attribute.
-/
namespace Companions

namespace Context

theorem applyField_sound {c : Context} (h : c.target.Sound) (f : AuthoringField) :
    (c.applyField f).1.target.Sound := by
  have marked : (c.marked f).target.Sound := by
    unfold marked
    split
    · exact h.markSerializable f.component
    · exact h
  rw [Context.marked] at marked
  rw [applyField]
  split
  · exact marked
  · next added => exact marked.addAuthoringField added

theorem applyFields_sound {c : Context} (h : c.target.Sound) (fs : List AuthoringField) :
    (c.applyFields fs).1.target.Sound := by
  induction fs generalizing c with
  | nil => exact h
  | cons f fs ih => exact ih (applyField_sound h f)

theorem postProcess_sound {c : Context} {budget : Nat} {config : Config} {image : Image}
    {fields : List AuthoringField} {injected : List Injected} {difference : Difference}
    (sound : c.target.Sound)
    (h : (c.postProcess budget config).result = .done (image, fields, injected, difference)) :
    image.Sound := by
  obtain ⟨fs, c', -, passes, rfl, -, -⟩ := postProcess_eq_done.mp h
  have within := (Index.build_within c.target).grows (applyFields_grows c fs).1
  have grafted := runCompanionPasses_grafted (n := 0) passes within (Nat.zero_le _)
  exact grafted.target.sound (applyFields_sound sound fs)

end Context

namespace Processor

variable {σ : Type} [FileSystem σ]

/-- A run over a well-nested image that validation accepts ends in such an image, which is written
therefore. The table of names is to be current, as it is in an image that was read and in an accepted
one that was built node by node, and it is so afterwards. -/
theorem run_sound {p p' : Processor} {budget : Nat} {m : Image} {references : List Path} {s : σ}
    {o : Outcome} (nested : m.WellNested) (accepted : m.validate = .ok ()) (current : m.Current)
    (ran : ((p.run budget m references).run s).value = (p', .done o)) :
    o.image.WellNested ∧ o.image.validate = .ok () ∧ o.image.Current ∧
      o.image.write = .ok o.image.encode := by
  obtain ⟨r, c, -, -, rfl, result⟩ := done_of_run ran
  have sound := Context.postProcess_sound ⟨nested, Image.validate_ok_iff.mp accepted, current⟩ result
  exact ⟨sound.nested, Image.validate_ok_iff.mpr sound.valid, sound.current,
    Image.write_ok_iff.mpr ⟨sound.valid, rfl⟩⟩

/-- Everything that the host declares, in one library. -/
def host : Contracts where
  componentData := ⟨"Host", "IData"⟩
  authoringInterface := ⟨"Host", "IAuthoring"⟩
  authoringTemplates := [⟨"Host", "Authoring`1"⟩]
  genericBaker := ⟨"Host", "Baker`1"⟩
  genericDrawer := ⟨"Host", "Drawer`1"⟩
  propertyDrawerAttribute := ⟨"Host", "Draws"⟩

def void : TypeRef := .named "System" "System.Void"

def hostLibrary : Image := .rebuildLookup {
  identity := { name := "Host" }
  types := [
    { name := "IData", kind := .interfaceType, flags := .isPublic },
    { name := "IAuthoring", kind := .interfaceType, flags := .isPublic },
    { name := "Authoring`1", kind := .classType, flags := .isPublic, genericParams := ["T"] },
    { name := "Baker`1", kind := .classType, flags := .isPublic, genericParams := ["T"],
      methods := [.constructor [] void] },
    { name := "Drawer`1", kind := .classType, flags := .isPublic, genericParams := ["T"],
      methods := [.constructor [] void] },
    { name := "Draws", kind := .classType, flags := .isPublic,
      methods := [.constructor [⟨"type", .named "System" "System.Type"⟩] void] }]
  roots := [0, 1, 2, 3, 4, 5] }

def hosted : Processor where
  config := { contracts := host }
  cache := Cache.insert {} hostLibrary

/-- A component and its authoring type. -/
def healthGame : Image := .rebuildLookup {
  identity := { name := "Game" }
  references := [{ name := "Host" }]
  types := [
    { name := "Health", kind := .structType, flags := .isPublic,
      interfaces := [.named "Host" "IData"] },
    { name := "HealthAuthoring", kind := .classType, flags := .isPublic,
      base := some (.generic (.named "Host" "Authoring`1") [.named "Game" "Health"]),
      interfaces := [.named "Host" "IAuthoring"] }]
  roots := [0, 1] }

/-- What the processor sees of the game. -/
def healthContext : Context := .ofImages healthGame [hostLibrary]

def healthField : AuthoringField := ⟨1, "Value", .named "Game" "Health", .single⟩

/-- A field, a marked drawer and a baker. -/
theorem healthGame_run (s : σ) :
    ∃ o, ((hosted.run 8 healthGame []).run s).value = (hosted, .done o) ∧
      o.fields = [healthField] ∧ o.injected = [⟨"CustomDrawer", ["Health/HealthCustomDrawer"]⟩,
        ⟨"Baker", ["HealthAuthoring/HealthAuthoringBaker"]⟩] := by
  have loaded : hosted.cache.get? hostLibrary.identity = some hostLibrary := by
    rw [Cache.get?, hosted, Cache.insert, Table.get?_insertNew, if_pos rfl]
    rfl
  obtain ⟨r, opened, cache⟩ :=
    opened_cached (m := healthGame) s rfl rfl (by decide) rfl loaded
  have planned : healthContext.plannedFor 8 hosted.config = .done [healthField] := by rfl
  obtain ⟨c, passes⟩ : ∃ c, ((healthContext.applyFields [healthField]).1.runCompanionPasses 8
      (Index.build healthGame) (Contracts.passes host false)).result =
      .done (c, [⟨"CustomDrawer", ["Health/HealthCustomDrawer"]⟩,
        ⟨"Baker", ["HealthAuthoring/HealthAuthoringBaker"]⟩]) := ⟨_, by rfl⟩
  obtain ⟨o, ran, -, fields, injected, -⟩ :=
    run_of_done opened (Context.postProcess_of_passes planned passes)
  refine ⟨o, ?_, fields, injected⟩
  rw [ran, cache]

theorem healthGame_wellNested : healthGame.WellNested :=
  Image.wellNested_of_flat (by decide) (by decide)

theorem healthGame_current : healthGame.Current := by
  have all : ∀ id < healthGame.size, healthGame.find? (healthGame.fullName id) = some id := by
    decide +kernel
  exact all

/-- The outcome of the run over the game is sound and is written. -/
theorem healthGame_sound : healthGame.WellNested ∧ healthGame.validate = .ok () ∧
    healthGame.Current ∧ ∃ o, ((hosted.run 8 healthGame []).run ({} : Disk)).value = (hosted, .done o) ∧
      o.image.WellNested ∧ o.image.validate = .ok () ∧ o.image.Current ∧
      o.image.write = .ok o.image.encode := by
  have accepted : healthGame.validate = .ok () := by rfl
  obtain ⟨o, ran, -⟩ := healthGame_run ({} : Disk)
  exact ⟨healthGame_wellNested, accepted, healthGame_current, o, ran,
    run_sound healthGame_wellNested accepted healthGame_current ran⟩

end Processor
end Companions
