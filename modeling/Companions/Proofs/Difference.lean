import Companions.Proofs.Account
/-!
The difference of a run. In a sound image the index has a row for every node, under its full name
and the name of the assembly. Names stay what they are while nodes are nested, so the rows that an
outcome has and its target has not are those of the companions, under the names that are reported.
-/
namespace Companions

namespace Image.Sound
variable {m m' : Image} (sound : m.Sound)
include sound

theorem mem_typeIds {id : TypeId} : id ∈ m.typeIds ↔ id < m.size := by
  constructor
  · exact lt_of_mem_typeIds
  · intro inside
    exact mem_typeIds_iff.mpr (sound.valid.reached_of_rooted (sound.nested.rooted id inside))

theorem mem_names_build {name : String} :
    name ∈ (Index.build m).names ↔ ∃ id < m.size, m.uniqueName id = name := by
  rw [sound.valid.names_build, List.mem_map]
  simp only [sound.mem_typeIds]

theorem mem_new_names (after : m'.Sound) (hosts : m.Hosts m.size m') {name : String} :
    name ∈ (Index.build m').names.filter (fun n => !(Index.build m).contains n) ↔
      ∃ id, m.size ≤ id ∧ id < m'.size ∧ m'.uniqueName id = name := by
  have contained : (Index.build m).contains name ↔ ∃ id < m.size, m.uniqueName id = name :=
    Table.contains_iff.trans sound.mem_names_build
  rw [List.mem_filter, after.mem_names_build, Bool.not_eq_true', ← Bool.not_eq_true, contained]
  constructor
  · rintro ⟨⟨id, inside, rfl⟩, fresh⟩
    refine ⟨id, ?_, inside, rfl⟩
    by_contra old
    rw [Nat.not_le] at old
    exact fresh ⟨id, old, (sound.grounded.uniqueName_hosts hosts old).symm⟩
  · rintro ⟨id, new, inside, rfl⟩
    refine ⟨⟨id, inside, rfl⟩, ?_⟩
    rintro ⟨i, old, same⟩
    rw [← sound.grounded.uniqueName_hosts hosts old] at same
    obtain rfl := after.valid.uniqueName_inj (Nat.lt_of_lt_of_le old hosts.size) inside same
    exact Nat.not_lt.mpr new old

/-- The index loses no row and gains those of the new nodes. -/
theorem diff_hosts (after : m'.Sound) (hosts : m.Hosts m.size m') :
    (Index.diff (Index.build m) (Index.build m')).removed = [] ∧
    (Index.diff (Index.build m) (Index.build m')).added.Perm ((m.newIds m').map m'.uniqueName) := by
  constructor
  · have none : (Index.build m).names.filter (fun n => !(Index.build m').contains n) = [] := by
      apply List.filter_eq_nil_iff.mpr
      intro name known
      obtain ⟨id, inside, rfl⟩ := sound.mem_names_build.mp known
      have kept : m.uniqueName id ∈ (Index.build m').names :=
        after.mem_names_build.mpr
          ⟨id, Nat.lt_of_lt_of_le inside hosts.size, sound.grounded.uniqueName_hosts hosts inside⟩
      rw [Index.contains, Table.contains_iff.mpr kept]
      decide
    rw [Index.diff, none, List.mergeSort_nil]
  · have unsorted : (Index.diff (Index.build m) (Index.build m')).added.Perm
        ((Index.build m').names.filter fun n => !(Index.build m).contains n) :=
      List.mergeSort_perm ..
    refine unsorted.trans ((List.perm_ext_iff_of_nodup ?_ ?_).mpr ?_)
    · exact after.valid.nodup_names_build.filter _
    · refine List.Nodup.map_on ?_ (nodup_newIds m m')
      intro i hi j hj same
      exact after.valid.uniqueName_inj (hosts.mem_newIds.mp hi).2 (hosts.mem_newIds.mp hj).2 same
    · intro name
      rw [sound.mem_new_names after hosts, List.mem_map]
      simp only [hosts.mem_newIds, and_assoc]

end Image.Sound

/-- The reported names are the full names of the new nodes. -/
theorem Injects.names {m m' : Image} {ps : List CompanionPass} {is : List Injected}
    (h : Injects m ps is m') (sound : m.Sound) :
    is.flatMap (·.types) = (m.newIds m').map m'.fullName := by
  induction h with
  | nil m => simp [Image.newIds]
  | @cons m m₁ m' p ps i is first rest ih =>
      have sound₁ := first.grafts.sound sound
      have kept : (m.newIds m₁).map m'.fullName = (m.newIds m₁).map m₁.fullName := by
        apply List.map_congr_left
        intro id new
        have inside := (first.grafts.hosts.mem_newIds.mp new).2
        exact sound₁.grounded.fullName_hosts rest.grafts.hosts inside
      rw [List.flatMap_cons, ih sound₁, first.types, ← kept, ← List.map_append,
        first.grafts.hosts.newIds_append rest.grafts.hosts]

/-- What a pass prescribes about the attributes of a companion: one instance of its marker, with the
type that is accompanied for its only argument, or none. -/
theorem CompanionPass.Marks.attributes {p : CompanionPass} {source : TypeRef}
    {attributes : List CustomAttribute} (h : p.Marks source attributes) :
    (p.marker = none → attributes = []) ∧
    ∀ marker ∈ p.marker, ∃ a type, attributes = [a] ∧ a.type = marker ∧
      a.arguments = [⟨type, .type source⟩] := by
  unfold Marks at h
  split at h
  · next none =>
      rw [none]
      exact ⟨fun _ => h, nofun⟩
  · next marker some =>
      obtain ⟨k, single, rfl⟩ := h
      obtain ⟨parameter, only⟩ := List.length_eq_one_iff.mp single
      rw [some]
      refine ⟨nofun, ?_⟩
      rintro _ ⟨⟩
      refine ⟨_, parameter.type, rfl, rfl, ?_⟩
      rw [markerOf, only]
      rfl

/-- In a sound image a reported name is the full name of its node to the end, and the companion
accompanies the node that it is nested in. -/
theorem Injects.companion {m m' : Image} {ps : List CompanionPass} {is : List Injected}
    (h : Injects m ps is m') (sound : m.Sound) {k : Nat} {p : CompanionPass} {name : String}
    (entry : (reported ps is)[k]? = some (p, name)) :
    ∃ id parent d, m'.get? id = some d ∧ m'.fullName id = name ∧ d.declaring = some parent ∧
      d.base = some (.generic p.request.template [m'.referenceTo parent]) ∧
      (p.marker = none → d.attributes = []) ∧
      ∀ marker ∈ p.marker, ∃ a type, d.attributes = [a] ∧ a.type = marker ∧
        a.arguments = [⟨type, .type (m'.referenceTo parent)⟩] := by
  obtain ⟨before, after, parent, early, pass, late, inside, -, there, named, companion⟩ :=
    h.account entry
  have sound₁ := early.sound sound
  have sound₂ := pass.sound sound₁
  have source : m'.referenceTo parent = before.referenceTo parent := by
    rw [sound₂.grounded.referenceTo_hosts late.hosts (Nat.lt_of_lt_of_le inside pass.hosts.size),
      sound₁.grounded.referenceTo_hosts pass.hosts inside]
  obtain ⟨base, attributes, -, marked, host, nested, -, -, node⟩ := companion
  refine ⟨m.size + k, parent, _, node, ?_, rfl, ?_, ?_⟩
  · rw [sound₂.grounded.fullName_hosts late.hosts there, named]
  · rw [source]
    rfl
  · rw [source]
    exact marked.attributes

namespace Processor

variable {σ : Type} [FileSystem σ]

/-- The difference of a run over a sound image is what it reports as injected, each name once, and
each companion has the one attribute that its pass prescribes, made from the type that it
accompanies, or none. -/
theorem run_difference {p p' : Processor} {budget : Nat} {m : Image} {references : List Path}
    {s : σ} {o : Outcome} (nested : m.WellNested) (accepted : m.validate = .ok ())
    (current : m.Current) (ran : ((p.run budget m references).run s).value = (p', .done o)) :
    o.difference.removed = [] ∧
    o.difference.added.Perm
      ((o.injected.flatMap (·.types)).map fun name => name ++ "/" ++ m.name) ∧
    (o.injected.flatMap (·.types)).Nodup ∧
    o.injected.length = p.config.passes.length ∧
    ∀ pass i, (pass, i) ∈ p.config.passes.zip o.injected → ∀ name ∈ i.types,
      ∃ id parent d, o.image.get? id = some d ∧ o.image.fullName id = name ∧
        d.declaring = some parent ∧
        d.base = some (.generic pass.request.template [o.image.referenceTo parent]) ∧
        (pass.marker = none → d.attributes = []) ∧
        ∀ marker ∈ pass.marker, ∃ a type, d.attributes = [a] ∧ a.type = marker ∧
          a.arguments = [⟨type, .type (o.image.referenceTo parent)⟩] := by
  obtain ⟨r, c, -, -, rfl, result⟩ := done_of_run ran
  have target : c.target.Sound := ⟨nested, Image.validate_ok_iff.mp accepted, current⟩
  obtain ⟨fielded, added, shape, keep, injects, -, differs⟩ := Context.postProcess_injects result
  have before := keep target
  have hosts := injects.grafts.hosts
  have after := injects.grafts.sound before
  have names := injects.names before
  have same : Index.build c.target = Index.build fielded := by
    rw [← Index.build_shape c.target, ← shape, Index.build_shape]
  rw [same] at differs
  obtain ⟨removed, gained⟩ := before.diff_hosts after hosts
  rw [← differs] at removed gained
  have count : o.injected.length = p.config.passes.length := by
    simpa using congrArg List.length injects.suffixes
  refine ⟨removed, ?_, ?_, count, ?_⟩
  · have name : o.image.name = c.target.name := by
      rw [Image.name, Image.name, hosts.identity, added.identity]
    rw [names, List.map_map, ← name]
    exact gained
  · rw [names]
    refine List.Nodup.map_on ?_ (fielded.nodup_newIds o.image)
    intro i hi j hj equal
    exact after.valid.fullName_inj (hosts.mem_newIds.mp hi).2 (hosts.mem_newIds.mp hj).2 equal
  · intro pass i paired name listed
    have entry : (pass, name) ∈ reported p.config.passes o.injected :=
      List.mem_flatMap.mpr ⟨(pass, i), paired, List.mem_map_of_mem listed⟩
    obtain ⟨k, entry⟩ := List.mem_iff_getElem?.mp entry
    exact injects.companion before entry

/-- The drawer of the game is marked and its baker is not. -/
theorem healthGame_difference :
    healthGame.WellNested ∧ healthGame.validate = .ok () ∧ healthGame.Current ∧
    ∃ o, ((hosted.run 8 healthGame []).run ({} : Disk)).value = (hosted, .done o) ∧
      o.difference.removed = [] ∧
      o.difference.added.Perm
        ["Health/HealthCustomDrawer/Game", "HealthAuthoring/HealthAuthoringBaker/Game"] ∧
      (∃ id d a, o.image.get? id = some d ∧ o.image.fullName id = "Health/HealthCustomDrawer" ∧
        d.attributes = [a] ∧ a.type = .named "Host" "Draws") ∧
      ∃ id d, o.image.get? id = some d ∧
        o.image.fullName id = "HealthAuthoring/HealthAuthoringBaker" ∧ d.attributes = [] := by
  have accepted : healthGame.validate = .ok () := by rfl
  refine ⟨healthGame_wellNested, accepted, healthGame_current, ?_⟩
  obtain ⟨o, ran, -, injected⟩ := healthGame_run ({} : Disk)
  obtain ⟨removed, added, -, -, companions⟩ :=
    run_difference healthGame_wellNested accepted healthGame_current ran
  rw [injected] at added companions
  refine ⟨o, ran, removed, added, ?_, ?_⟩
  · obtain ⟨id, parent, d, node, named, -, -, -, marked⟩ := companions host.drawerPass
      ⟨"CustomDrawer", ["Health/HealthCustomDrawer"]⟩ List.mem_cons_self _ List.mem_cons_self
    obtain ⟨a, -, only, type, -⟩ := marked host.propertyDrawerAttribute.ref rfl
    exact ⟨id, d, a, node, named, only, type⟩
  · obtain ⟨id, parent, d, node, named, -, -, unmarked, -⟩ := companions host.bakerPass
      ⟨"Baker", ["HealthAuthoring/HealthAuthoringBaker"]⟩
      (List.mem_cons_of_mem _ List.mem_cons_self) _ List.mem_cons_self
    exact ⟨id, d, node, named, unmarked rfl⟩

end Processor
end Companions
