import Companions.Proofs.Difference
import Companions.Proofs.Image.Assembled
/-!
The index between passes. A companion pass enters what it injects into the index that it was given.
That index has a row for every node and no other, so building it anew, from the top level down,
gives the same rows, if in another order.
-/
namespace Companions

/-- The index has a row for each node of the image, under its unique name, and no other row. -/
def Index.Mirrors (x : Index) (m : Image) : Prop :=
  x.types.entries.Perm ((List.range m.size).map fun id => (m.uniqueName id, id))

namespace Index.Mirrors
variable {m m' : Image} {x : Index}

theorem mem_iff (h : x.Mirrors m) {name : String} {id : TypeId} :
    (name, id) ∈ x.types.entries ↔ id < m.size ∧ m.uniqueName id = name := by
  rw [List.Perm.mem_iff h, List.mem_map]
  constructor
  · rintro ⟨i, hi, row⟩
    obtain ⟨rfl, rfl⟩ := Prod.mk.inj row
    exact ⟨List.mem_range.mp hi, rfl⟩
  · rintro ⟨inside, rfl⟩
    exact ⟨id, List.mem_range.mpr inside, rfl⟩

theorem within (h : x.Mirrors m) : x.Within m := by
  intro id listed
  obtain ⟨⟨name, i⟩, row, rfl⟩ := List.mem_map.mp listed
  exact (h.mem_iff.mp row).1

theorem of_shape (h : x.Mirrors m) (same : m'.shape = m.shape) : x.Mirrors m' := by
  have names : m'.uniqueName = m.uniqueName := by
    funext id
    rw [← Image.uniqueName_shape, same, Image.uniqueName_shape]
  rw [Mirrors, Image.size_of_shape same, names]
  exact h

end Index.Mirrors

namespace Image.Sound
variable {m m' : Image} {x : Index}

theorem mirrors_build (sound : m.Sound) : (Index.build m).Mirrors m := by
  rw [Index.Mirrors, sound.valid.entries_build]
  exact sound.nested.perm_typeIds.map _

theorem nodup_keys (sound : m.Sound) (mirrors : x.Mirrors m) : x.types.keys.Nodup := by
  apply (mirrors.map Prod.fst).nodup_iff.mpr
  rw [List.map_map]
  apply List.Nodup.map_on _ List.nodup_range
  intro i hi j hj same
  exact sound.valid.uniqueName_inj (List.mem_range.mp hi) (List.mem_range.mp hj) same

/-- A row more for a node more, under a name that no row has. -/
theorem mirrors_addNestedType (sound : m.Sound) (mirrors : x.Mirrors m) {parent : TypeId}
    {d : TypeDef} (bare : d.Bare) (inside : parent < m.size)
    (free : m.find? (Name.nest (m.fullName parent) d.name) = none) :
    (x.add (m.addNestedType parent d) m.size).Mirrors (m.addNestedType parent d) := by
  have after : (m.addNestedType parent d).Sound := Graft.sound (n := 0) (.nest bare inside free) sound
  have size := size_addNestedType m parent d
  have more : m.size < (m.addNestedType parent d).size := by
    rw [size]
    exact Nat.lt_succ_self _
  have kept (id : TypeId) (old : id < m.size) :
      (m.addNestedType parent d).uniqueName id = m.uniqueName id :=
    sound.grounded.uniqueName_hosts (hosts_addNestedType m.size m parent d) old
  have fresh : x.types.get? ((m.addNestedType parent d).uniqueName m.size) = none := by
    by_contra known
    obtain ⟨id, found⟩ := Option.ne_none_iff_exists'.mp known
    obtain ⟨old, same⟩ := mirrors.mem_iff.mp (Table.mem_entries found)
    rw [← kept id old] at same
    exact Nat.ne_of_lt old (after.valid.uniqueName_inj (Nat.lt_trans old more) more same)
  have rows : (List.range m.size).map (fun id => ((m.addNestedType parent d).uniqueName id, id)) =
      (List.range m.size).map fun id => (m.uniqueName id, id) := by
    apply List.map_congr_left
    intro id hid
    rw [kept id (List.mem_range.mp hid)]
  rw [Index.Mirrors, Index.add, Table.entries_insertNew fresh, size, List.range_succ,
    List.map_append, rows]
  exact mirrors.append_right _

end Image.Sound

namespace Context
variable {c c' : Context} {budget : Nat} {x x' : Index} {q : CompanionRequest}

theorem injectOne_mirrors (sound : c.target.Sound) (mirrors : x.Mirrors c.target)
    (q : CompanionRequest) (base : Method) {s : TypeId × TypeRef} (inside : s.1 < c.target.size) :
    (c.injectOne x q base s).context.target.Sound ∧
      (c.injectOne x q base s).index.Mirrors (c.injectOne x q base s).context.target := by
  have grafted := injectOne_grafted 0 x q base inside
  constructor
  · exact grafted.target.sound sound
  · by_cases taken : c.Taken q s
    · obtain ⟨context, index, -⟩ := injectOne_taken x base taken
      rw [context, index]
      exact mirrors
    · obtain ⟨name, context, index, -, key, -⟩ := injectOne_free x base taken
      have free : c.target.find? (c.companionName q s) = none := by simpa [Taken] using taken
      rw [key] at free
      rw [context, index]
      exact sound.mirrors_addNestedType mirrors (companionOf_bare q base name s.2) inside free

theorem injectAll_mirrors (sound : c.target.Sound) (mirrors : x.Mirrors c.target)
    (q : CompanionRequest) (base : Method) {ss : List (TypeId × TypeRef)}
    (inside : ∀ s ∈ ss, s.1 < c.target.size) :
    (c.injectAll x q base ss).2.1.Mirrors (c.injectAll x q base ss).1.target := by
  induction ss generalizing c x with
  | nil => exact mirrors
  | cons s ss ih =>
      obtain ⟨own, others⟩ := List.forall_mem_cons.mp inside
      obtain ⟨sound₁, mirrors₁⟩ := injectOne_mirrors sound mirrors q base own
      have size := (injectOne_grafted 0 x q base own).target.hosts.size
      apply ih sound₁ mirrors₁
      intro t ht
      exact Nat.lt_of_lt_of_le (others t ht) size

theorem injectCompanions_mirrors {ids : List TypeId}
    (h : (c.injectCompanions budget x q).result = .done (c', x', ids)) (sound : c.target.Sound)
    (mirrors : x.Mirrors c.target) : c'.target.Sound ∧ x'.Mirrors c'.target := by
  constructor
  · exact (injectCompanions_grafted h mirrors.within 0).1.target.sound sound
  · obtain ⟨-, rfl, rfl, -⟩ | ⟨unused, base, assembly, _, demand, -, -, rfl, rfl, rfl, -⟩ :=
      injectCompanions_eq_done.mp h
    · exact mirrors
    · have refers : c.target.Grafts 0 (c.target.addReference assembly) := .single (.refer _ assembly)
      have same := Image.shape_addReference c.target assembly
      apply injectAll_mirrors (refers.sound sound) (mirrors.of_shape same)
      intro s hs
      rw [Image.size_of_shape same]
      exact mirrors.within s.1 (companionless_mem demand s hs).1

/-! ## Requests -/

/-- A pass that fails has changed nothing yet: it was in search of sources or of a constructor. -/
theorem injectCompanions_failed {e : SynthesisError}
    (h : (c.injectCompanions budget x q).result = .failed ⟨(c', x'), e⟩) : c' = c ∧ x' = x := by
  rw [injectCompanions_result] at h
  obtain ⟨_, -, same⟩ := Attempt.mapError_eq_failed.mp h
  cases same
  exact ⟨rfl, rfl⟩

/-- Companion passes one after the other, one for each request. What a pass leaves, be it served or
refused, is what the next one finds. -/
inductive Asked : Context → Index → List CompanionRequest → Context → Index → Prop where
  | nil {c : Context} {x : Index} : Asked c x [] c x
  | done {c c₁ c' : Context} {x x₁ x' : Index} {q : CompanionRequest} {qs : List CompanionRequest}
      {budget : Nat} {ids : List TypeId}
      (pass : (c.injectCompanions budget x q).result = .done (c₁, x₁, ids))
      (rest : Asked c₁ x₁ qs c' x') : Asked c x (q :: qs) c' x'
  | failed {c c₁ c' : Context} {x x₁ x' : Index} {q : CompanionRequest}
      {qs : List CompanionRequest} {budget : Nat} {e : SynthesisError}
      (pass : (c.injectCompanions budget x q).result = .failed ⟨(c₁, x₁), e⟩)
      (rest : Asked c₁ x₁ qs c' x') : Asked c x (q :: qs) c' x'

theorem Asked.mirrors {qs : List CompanionRequest} (h : c.Asked x qs c' x')
    (sound : c.target.Sound) (mirrors : x.Mirrors c.target) :
    c'.target.Sound ∧ x'.Mirrors c'.target := by
  induction h with
  | nil => exact ⟨sound, mirrors⟩
  | done pass rest ih =>
      obtain ⟨sound₁, mirrors₁⟩ := injectCompanions_mirrors pass sound mirrors
      exact ih sound₁ mirrors₁
  | failed pass rest ih =>
      obtain ⟨rfl, rfl⟩ := injectCompanions_failed pass
      exact ih sound mirrors

/-- Over an accepted image whose nodes form a forest and whose table is current, an index that goes
with any requests, served or refused, has the rows that it would have if it were built anew, and finds
what that one would find. -/
theorem asked_rebuilt {c c' : Context} {x' : Index} {qs : List CompanionRequest}
    (nested : c.target.WellNested) (accepted : c.target.validate = .ok ())
    (current : c.target.Current) (h : c.Asked (Index.build c.target) qs c' x') :
    x'.types.entries.Perm (Index.build c'.target).types.entries ∧
      ∀ identity, x'.lookup? identity = (Index.build c'.target).lookup? identity := by
  have sound : c.target.Sound := ⟨nested, Image.validate_ok_iff.mp accepted, current⟩
  obtain ⟨after, live⟩ := h.mirrors sound sound.mirrors_build
  have rebuilt := live.trans after.mirrors_build.symm
  constructor
  · exact rebuilt
  · intro identity
    exact Table.get?_congr_of_perm (after.nodup_keys live) rebuilt identity

open Processor (healthContext healthGame host healthGame_wellNested healthGame_current) in
/-- A drawer, a request that is refused for want of its template, and a baker. -/
theorem healthContext_rebuilt : healthGame.WellNested ∧ healthGame.validate = .ok () ∧
    healthGame.Current ∧ ∃ c' x',
      healthContext.Asked (Index.build healthGame) [host.drawerPass.request,
        { host.drawerPass.request with template := .named "Host" "Missing" },
        host.bakerPass.request] c' x' ∧
      x'.names = ["Health/Game", "HealthAuthoring/Game", "Health/HealthCustomDrawer/Game",
        "HealthAuthoring/HealthAuthoringBaker/Game"] ∧
      x'.types.entries.Perm (Index.build c'.target).types.entries := by
  have accepted : healthGame.validate = .ok () := by rfl
  obtain ⟨c₁, x₁, c', x', first, second, third, names⟩ : ∃ c₁ x₁ c' x',
      (healthContext.injectCompanions 8 (Index.build healthGame) host.drawerPass.request).result =
        .done (c₁, x₁, [2]) ∧
      (c₁.injectCompanions 8 x₁
        { host.drawerPass.request with template := .named "Host" "Missing" }).result =
        .failed ⟨(c₁, x₁), .unresolvedType "Missing" "companion template"⟩ ∧
      (c₁.injectCompanions 8 x₁ host.bakerPass.request).result = .done (c', x', [3]) ∧
      x'.names = ["Health/Game", "HealthAuthoring/Game", "Health/HealthCustomDrawer/Game",
        "HealthAuthoring/HealthAuthoringBaker/Game"] :=
    ⟨_, _, _, _, by rfl, by rfl, by rfl, by rfl⟩
  have asked : healthContext.Asked (Index.build healthGame) [host.drawerPass.request,
      { host.drawerPass.request with template := .named "Host" "Missing" },
      host.bakerPass.request] c' x' := .done first (.failed second (.done third .nil))
  obtain ⟨rebuilt, -⟩ := asked_rebuilt healthGame_wellNested accepted healthGame_current asked
  exact ⟨healthGame_wellNested, accepted, healthGame_current, c', x', asked, names, rebuilt⟩

end Context
end Companions
