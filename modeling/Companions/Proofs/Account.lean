import Companions.Proofs.Integrity
/-!
The account that a run gives of its companions. The nodes behind the old ones are what the companion
passes injected, in the order in which the run reports it: each of them is nested in the type that it
accompanies and carries the attribute that its pass prescribes.
-/
namespace Companions

/-- The attributes that a pass leaves on the companion of a type: an instance of its marker, made
from the type by a constructor with one parameter, or none. -/
def CompanionPass.Marks (p : CompanionPass) (source : TypeRef) (attributes : List CustomAttribute) :
    Prop :=
  match p.marker with
  | none => attributes = []
  | some marker => ∃ c : Method, c.parameters.length = 1 ∧ attributes = [markerOf marker c [source]]

namespace Image
variable {m m' : Image} {q : CompanionRequest} {base : Method} {source : TypeRef}
  {attributes : List CustomAttribute} {parent id : TypeId}

/-- The node `id` is nested in `parent` and called after it: the companion of `source` that the
request asks for, with these attributes and whatever is nested in it. -/
def Companion (m : Image) (q : CompanionRequest) (base : Method) (source : TypeRef)
    (attributes : List CustomAttribute) (parent id : TypeId) : Prop :=
  ∃ host nested, m.get? parent = some host ∧ id ∈ host.nested ∧
    m.get? id = some { companionOf q base (host.name ++ q.suffix) source with
      declaring := some parent, nested := nested, attributes := attributes }

/-- Nodes that are nested in the two leave the one a companion of the other. -/
theorem Companion.hosts {n : Nat} (h : m.Companion q base source attributes parent id)
    (hosts : m.Hosts n m') (outer : parent < n) (inner : id < n) :
    m'.Companion q base source attributes parent id := by
  obtain ⟨host, nested, there, listed, node⟩ := h
  obtain ⟨host', there', hosting⟩ := hosts.nodes parent outer host there
  obtain ⟨d', node', nesting⟩ := hosts.nodes id inner _ node
  have name : host'.name = host.name := by rw [hosting.same]
  refine ⟨host', d'.nested, there', hosting.nested.subset listed, ?_⟩
  rw [node', name, nesting.same]

theorem companion_addNestedType (inside : parent < m.size) {host : TypeDef}
    (there : m.get? parent = some host) :
    (m.addNestedType parent (companionOf q base (host.name ++ q.suffix) source)).Companion q base
      source [] parent m.size := by
  refine ⟨{ host with nested := host.nested ++ [m.size] }, [], ?_,
    List.mem_append_right _ List.mem_cons_self, get?_addNestedType_new _ inside⟩
  rw [get?_addNestedType_old _ inside, there, Option.map_some, if_pos rfl]

/-- An attribute on another node. -/
theorem Companion.attach_other (h : m.Companion q base source attributes parent id) {owner : TypeId}
    (other : owner ≠ id) (a : CustomAttribute) :
    (m.update owner fun d => { d with attributes := d.attributes ++ [a] }).Companion q base source
      attributes parent id := by
  obtain ⟨host, nested, there, listed, node⟩ := h
  have node' := (get?_update m owner (fun d => { d with attributes := d.attributes ++ [a] }) id)
  rw [if_neg other, node] at node'
  by_cases own : owner = parent
  · refine ⟨{ host with attributes := host.attributes ++ [a] }, nested, ?_, listed, node'⟩
    rw [get?_update, if_pos own, there]
    rfl
  · refine ⟨host, nested, ?_, listed, node'⟩
    rw [get?_update, if_neg own, there]

theorem Companion.lt (h : m.Companion q base source attributes parent id) :
    parent < m.size ∧ id < m.size := by
  obtain ⟨host, nested, there, -, node⟩ := h
  exact ⟨lt_of_get? there, lt_of_get? node⟩

theorem Companion.addReference (h : m.Companion q base source attributes parent id) (i : Identity) :
    (m.addReference i).Companion q base source attributes parent id :=
  h.hosts (hosts_addReference m.size m i) h.lt.1 h.lt.2

theorem Companion.attach (h : m.Companion q base source attributes parent id) (other : parent ≠ id)
    (a : CustomAttribute) :
    (m.update id fun d => { d with attributes := d.attributes ++ [a] }).Companion q base source
      (attributes ++ [a]) parent id := by
  obtain ⟨host, nested, there, listed, node⟩ := h
  refine ⟨host, nested, ?_, listed, ?_⟩
  · rw [get?_update, if_neg (Ne.symm other), there]
  · rw [get?_update, if_pos rfl, node]
    rfl

/-- The node is the companion that the pass makes for the type, marked as the pass prescribes. -/
def Accompanies (m : Image) (p : CompanionPass) (source : TypeRef) (parent id : TypeId) : Prop :=
  ∃ base attributes, base.parameters = [] ∧ p.Marks source attributes ∧
    m.Companion p.request base source attributes parent id

theorem Accompanies.hosts {p : CompanionPass} {n : Nat} (h : m.Accompanies p source parent id)
    (hosts : m.Hosts n m') (outer : parent < n) (inner : id < n) :
    m'.Accompanies p source parent id := by
  obtain ⟨base, attributes, empty, marked, companion⟩ := h
  exact ⟨base, attributes, empty, marked, companion.hosts hosts outer inner⟩

end Image

namespace Context
variable {c c' : Context} {budget : Nat} {x x' : Index} {q : CompanionRequest} {base : Method}

/-! ## One pass -/

theorem injectOne_companion (x : Index) (base : Method) {s : TypeId × TypeRef}
    (inside : s.1 < c.target.size) (free : ¬ c.Taken q s) :
    (c.injectOne x q base s).context.target.size = c.target.size + 1 ∧
      (c.injectOne x q base s).context.target.Companion q base s.2 [] s.1 c.target.size := by
  obtain ⟨name, context, -, -, -, named⟩ := injectOne_free x base free
  obtain ⟨host, found⟩ := Image.exists_get? inside
  rw [found] at named
  rw [context, named]
  exact ⟨Image.size_addNestedType .., Image.companion_addNestedType inside found⟩

theorem injectAll_companions (x : Index) (q : CompanionRequest) (base : Method)
    {ss : List (TypeId × TypeRef)} (inside : ∀ s ∈ ss, s.1 < c.target.size) {id : TypeId}
    (new : c.target.size ≤ id) (there : id < (c.injectAll x q base ss).1.target.size) :
    ∃ s ∈ ss, (c.injectAll x q base ss).1.target.Companion q base s.2 [] s.1 id := by
  induction ss generalizing c x with
  | nil => exact absurd there (Nat.not_lt.mpr new)
  | cons s ss ih =>
      obtain ⟨own, others⟩ := List.forall_mem_cons.mp inside
      have first := (injectOne_grafted c.target.size x q base own).target.hosts.size
      have later (t) (ht : t ∈ ss) := Nat.lt_of_lt_of_le (others t ht) first
      rw [injectAll_cons_context] at there ⊢
      by_cases old : (c.injectOne x q base s).context.target.size ≤ id
      · obtain ⟨t, ht, companion⟩ := ih _ later old there
        exact ⟨t, List.mem_cons_of_mem s ht, companion⟩
      · refine ⟨s, List.mem_cons_self, ?_⟩
        have rest := (injectAll_grafted (c.injectOne x q base s).context.target.size
          (c.injectOne x q base s).index q base later).target.hosts
        obtain ⟨size, companion⟩ := injectOne_companion x base own fun taken => old <| by
          rw [(injectOne_taken x base taken).1]
          exact new
        rw [size, Nat.not_le, Nat.lt_succ_iff] at old
        obtain rfl := Nat.le_antisymm old new
        exact companion.hosts rest companion.lt.1 companion.lt.2

theorem accompaniedType?_companion {source : TypeRef} {attributes : List CustomAttribute}
    {parent id : TypeId} (companion : c.target.Companion q base source attributes parent id) :
    c.accompaniedType? id = some source := by
  obtain ⟨host, nested, -, -, node⟩ := companion
  rw [accompaniedType?, node]
  rfl

theorem markOne_own {marker : TypeRef} {id : TypeId}
    (h : (c.markOne budget marker id).result = .done c') {source : TypeRef}
    {attributes : List CustomAttribute} {parent : TypeId} (other : parent ≠ id)
    (companion : c.target.Companion q base source attributes parent id) :
    ∃ k : Method, k.parameters.length = 1 ∧
      c'.target.Companion q base source (attributes ++ [markerOf marker k [source]]) parent id := by
  rw [markOne, accompaniedType?_companion companion] at h
  obtain ⟨k, assembly, found, -, rfl⟩ := attach_eq_done.mp (Attempt.mapError_eq_done.mp h)
  obtain ⟨r, -, -, -, single⟩ := markerConstructor_done found
  exact ⟨k, single, (companion.attach other _).addReference assembly⟩

theorem markWith_other {marker : Option TypeRef} {ids : List TypeId} {i : TypeId}
    (h : (c.markWith budget marker ids).result = .done c') (other : i ∉ ids) {source : TypeRef}
    {attributes : List CustomAttribute} {parent : TypeId}
    (companion : c.target.Companion q base source attributes parent i) :
    c'.target.Companion q base source attributes parent i := by
  refine markWith_keeps (P := fun d => d.target.Companion q base source attributes parent i) h
    companion ?_
  intro id listed d d' marker arguments kept one
  obtain ⟨k, assembly, -, -, rfl⟩ := attach_eq_done.mp one
  have differs : id ≠ i := by
    rintro rfl
    exact other listed
  exact (kept.attach_other differs _).addReference assembly

/-- Each of the nodes gets one attribute. -/
theorem markWith_own {marker : TypeRef} {ids : List TypeId} {id : TypeId}
    (h : (c.markWith budget (some marker) ids).result = .done c') (distinct : ids.Nodup) (mem : id ∈ ids)
    {source : TypeRef} {attributes : List CustomAttribute} {parent : TypeId} (other : parent ≠ id)
    (companion : c.target.Companion q base source attributes parent id) :
    ∃ k : Method, k.parameters.length = 1 ∧
      c'.target.Companion q base source (attributes ++ [markerOf marker k [source]]) parent id := by
  induction ids generalizing c with
  | nil => cases mem
  | cons i ids ih =>
      obtain ⟨once, apart⟩ := List.nodup_cons.mp distinct
      obtain ⟨c₁, one, rest⟩ := markWith_cons_eq_done.mp h
      rcases List.mem_cons.mp mem with rfl | later
      · obtain ⟨k, single, marked⟩ := markOne_own one other companion
        exact ⟨k, single, markWith_other rest once marked⟩
      · have differs : id ∉ [i] := by
          intro same
          exact once (List.mem_singleton.mp same ▸ later)
        have alone : (c.markWith budget (some marker) [i]).result = .done c₁ :=
          markWith_cons_eq_done.mpr ⟨c₁, one, markWith_nil ..⟩
        exact ih rest apart later (markWith_other alone differs companion)

theorem markWith_marks {p : CompanionPass} {ids : List TypeId}
    (h : (c.markWith budget p.marker ids).result = .done c') (distinct : ids.Nodup)
    {source : TypeRef} {parent id : TypeId} (mem : id ∈ ids) (other : parent ≠ id)
    (companion : c.target.Companion q base source [] parent id) :
    ∃ attributes, p.Marks source attributes ∧
      c'.target.Companion q base source attributes parent id := by
  unfold CompanionPass.Marks
  cases marker : p.marker with
  | none =>
      rw [marker] at h
      obtain rfl := Attempt.done.inj h
      exact ⟨[], rfl, companion⟩
  | some marker =>
      rw [marker] at h
      obtain ⟨k, single, marked⟩ := markWith_own h distinct mem other companion
      exact ⟨_, ⟨k, single, rfl⟩, marked⟩

theorem markWith_shape {marker : Option TypeRef} {ids : List TypeId}
    (h : (c.markWith budget marker ids).result = .done c') : c'.target.shape = c.target.shape := by
  refine markWith_keeps (P := fun d => d.target.shape = c.target.shape) h rfl ?_
  intro id _ d d' marker arguments same one
  obtain ⟨k, assembly, -, -, rfl⟩ := attach_eq_done.mp one
  refine Eq.trans ?_ same
  exact (Image.shape_addReference ..).trans (Image.shape_update _ _ fun _ => rfl)

theorem injectCompanions_companions {ids : List TypeId}
    (h : (c.injectCompanions budget x q).result = .done (c', x', ids)) (hx : x.Within c.target)
    {id : TypeId} (new : c.target.size ≤ id) (there : id < c'.target.size) :
    ∃ base parent, base.parameters = [] ∧ parent < c.target.size ∧
      c'.target.Companion q base (c.target.referenceTo parent) [] parent id := by
  obtain ⟨-, rfl, -, -⟩ | ⟨unused, base, assembly, _, demand, -, template, rfl, rfl, -, -⟩ :=
    injectCompanions_eq_done.mp h
  · exact absurd there (Nat.not_lt.mpr new)
  · obtain ⟨r, -, -, -, empty⟩ := templateConstructor_done template
    have same : (c.target.addReference assembly).size = c.target.size := Image.size_addReference ..
    have inside (s) (hs : s ∈ unused) : s.1 < c.target.size :=
      hx s.1 (companionless_mem demand s hs).1
    obtain ⟨s, hs, companion⟩ := injectAll_companions x q base
      (c := { c with target := c.target.addReference assembly })
      (fun s hs => same.symm ▸ inside s hs) (same.symm ▸ new) there
    rw [(companionless_mem demand s hs).2] at companion
    exact ⟨base, s.1, empty, inside s hs, companion⟩

end Context

/-- What a pass does that reports so: the nodes behind those it found are companions, and it reports
their full names in order. -/
structure CompanionPass.Injects (p : CompanionPass) (m : Image) (i : Injected) (m' : Image) : Prop where
  grafts : m.Grafts m.size m'
  suffix : i.suffix = p.request.suffix
  types : i.types = (m.newIds m').map m'.fullName
  nodes : ∀ id, m.size ≤ id → id < m'.size →
    ∃ parent < m.size, m'.Accompanies p (m.referenceTo parent) parent id

namespace Context
variable {c c' : Context} {budget : Nat} {x x' : Index}

theorem runCompanionPass_injects {p : CompanionPass} {i : Injected}
    (h : (c.runCompanionPass budget x p).result = .done (c', x', i)) (hx : x.Within c.target) :
    p.Injects c.target i c'.target := by
  have grafted := runCompanionPass_grafted h hx (Nat.le_refl _)
  obtain ⟨c₁, ids, injected, marked, rfl⟩ := runCompanionPass_eq_done.mp h
  obtain ⟨-, k, rfl, size⟩ := injectCompanions_grafted injected hx 0
  have marks : c'.target.size = c₁.target.size := Image.size_of_shape (markWith_shape marked)
  refine ⟨grafted.target, rfl, ?_, fun id new there => ?_⟩
  · rw [Image.newIds, marks, size, Nat.add_sub_cancel_left]
  · rw [marks] at there
    obtain ⟨base, parent, empty, inside, companion⟩ := injectCompanions_companions injected hx new there
    have mem : id ∈ List.range' c.target.size k :=
      List.mem_range'_1.mpr ⟨new, size ▸ there⟩
    have other : parent ≠ id := Nat.ne_of_lt (Nat.lt_of_lt_of_le inside new)
    obtain ⟨attributes, marked, companion⟩ :=
      markWith_marks marked List.nodup_range' mem other companion
    exact ⟨parent, inside, base, attributes, empty, marked, companion⟩

end Context

/-! ## All passes -/

/-- What passes do one after the other that report so. -/
inductive Injects : Image → List CompanionPass → List Injected → Image → Prop
  | nil (m : Image) : Injects m [] [] m
  | cons {m m₁ m' : Image} {p : CompanionPass} {ps : List CompanionPass} {i : Injected}
      {is : List Injected} (first : p.Injects m i m₁) (rest : Injects m₁ ps is m') :
      Injects m (p :: ps) (i :: is) m'

theorem Context.runCompanionPasses_injects {c c' : Context} {budget : Nat} {x : Index}
    {ps : List CompanionPass} {injected : List Injected}
    (h : (c.runCompanionPasses budget x ps).result = .done (c', injected))
    (hx : x.Within c.target) : Injects c.target ps injected c'.target := by
  induction ps generalizing c x injected with
  | nil =>
      obtain ⟨rfl, rfl⟩ := runCompanionPasses_nil_eq_done.mp h
      exact .nil c'.target
  | cons p ps ih =>
      obtain ⟨c₁, x₁, i, others, first, rest, rfl⟩ := runCompanionPasses_cons_eq_done.mp h
      exact .cons (runCompanionPass_injects first hx) (ih rest (runCompanionPass_grows first hx).2.1)

/-- The reported names, each with the pass that reports it. -/
def reported (ps : List CompanionPass) (is : List Injected) : List (CompanionPass × String) :=
  (ps.zip is).flatMap fun (p, i) => i.types.map (p, ·)

theorem reported_cons (p : CompanionPass) (ps : List CompanionPass) (i : Injected)
    (is : List Injected) :
    reported (p :: ps) (i :: is) = i.types.map (p, ·) ++ reported ps is := rfl

namespace Injects
variable {m m' : Image} {ps : List CompanionPass} {is : List Injected}

theorem grafts (h : Injects m ps is m') : m.Grafts m.size m' := by
  induction h with
  | nil m => exact .refl
  | cons first rest ih => exact first.grafts.trans (ih.mono first.grafts.hosts.size)

theorem suffixes (h : Injects m ps is m') : is.map (·.suffix) = ps.map (·.request.suffix) := by
  induction h with
  | nil m => rfl
  | cons first rest ih => rw [List.map_cons, List.map_cons, ih, first.suffix]

theorem size_eq (h : Injects m ps is m') : m'.size = m.size + (reported ps is).length := by
  induction h with
  | nil m => rfl
  | cons first rest ih =>
      have more := first.grafts.hosts.size
      rw [ih, reported_cons, List.length_append, List.length_map, first.types, List.length_map,
        Image.length_newIds, ← Nat.add_assoc, Nat.add_sub_cancel' more]

/-- The node behind an entry of the report: what the pass of the entry found and left, and the
companion that is in the last image what it was when the pass left it. -/
theorem account (h : Injects m ps is m') {k : Nat} {p : CompanionPass} {name : String}
    (entry : (reported ps is)[k]? = some (p, name)) :
    ∃ before after parent, m.Grafts m.size before ∧ before.Grafts before.size after ∧
      after.Grafts after.size m' ∧ parent < before.size ∧ before.size ≤ m.size + k ∧
      m.size + k < after.size ∧ after.fullName (m.size + k) = name ∧
      m'.Accompanies p (before.referenceTo parent) parent (m.size + k) := by
  induction h generalizing k with
  | nil m => cases entry
  | @cons m m₁ m' q ps i is first rest ih =>
      have more := first.grafts.hosts.size
      have count : (i.types.map (q, ·)).length = m₁.size - m.size := by
        rw [List.length_map, first.types, List.length_map, Image.length_newIds]
      rw [reported_cons, List.getElem?_append, count] at entry
      split at entry
      · next own =>
          have there : m.size + k < m₁.size := by omega
          obtain ⟨parent, inside, companion⟩ := first.nodes _ (Nat.le_add_right _ k) there
          have kept := companion.hosts rest.grafts.hosts (Nat.lt_of_lt_of_le inside more) there
          rw [first.types, List.getElem?_map, List.getElem?_map, Image.newIds,
            List.getElem?_range' own, Nat.one_mul] at entry
          obtain ⟨rfl, rfl⟩ := Prod.mk.inj (Option.some.inj entry)
          exact ⟨m, m₁, parent, .refl, first.grafts, rest.grafts, inside, Nat.le_add_right _ k,
            there, rfl, kept⟩
      · next later =>
          have place : m₁.size + (k - (m₁.size - m.size)) = m.size + k := by omega
          obtain ⟨before, after, parent, early, pass, late, inside, old, there, named, companion⟩ :=
            ih entry
          rw [place] at old there named companion
          exact ⟨before, after, parent, first.grafts.trans (early.mono more), pass, late, inside, old,
            there, named, companion⟩

end Injects

/-! ## Runs -/

/-- The companion passes of a run. -/
def Config.passes (c : Config) : List CompanionPass := c.contracts.passes c.injectInspectorEditors

/-- A whole pass adds its fields first and then does what its companion passes report. -/
theorem Context.postProcess_injects {c : Context} {budget : Nat} {config : Config} {image : Image}
    {fields : List AuthoringField} {injected : List Injected} {difference : Difference}
    (h : (c.postProcess budget config).result = .done (image, fields, injected, difference)) :
    ∃ fielded : Image, c.target.Extends c.target.size fields fielded ∧
      fielded.shape = c.target.shape ∧ (c.target.Sound → fielded.Sound) ∧
      Injects fielded config.passes injected image ∧
      (∀ f ∈ fields, ∃ k, f.name = AuthoringField.nameAt k) ∧
      difference = Index.diff (Index.build c.target) (Index.build image) := by
  obtain ⟨fs, c', planned, passes, rfl, rfl, rfl⟩ := postProcess_eq_done.mp h
  have within := (Index.build_within c.target).grows (applyFields_grows c fs).1
  refine ⟨(c.applyFields fs).1.target, applyFields_extends _ c fs, applyFields_shape c fs, ?_,
    runCompanionPasses_injects passes within, ?_, rfl⟩
  · intro sound
    exact applyFields_sound sound fs
  · intro f hf
    exact (planned_mem planned f (applyFields_subset f hf)).2

/-- The node `id` of the outcome is the companion that the pass reports under the name. The pass
found the image `before`, in which the fields had been added, nested the node in one of its nodes,
and left the image `after`, in which the node has that full name. -/
def Outcome.Accounts (m : Image) (o : Outcome) (p : CompanionPass) (name : String) (id : TypeId) :
    Prop :=
  ∃ before after parent, m.Extends m.size o.fields before ∧ before.Hosts before.size after ∧
    after.Hosts after.size o.image ∧ parent < before.size ∧ before.size ≤ id ∧ id < after.size ∧
    after.fullName id = name ∧ o.image.Accompanies p (before.referenceTo parent) parent id

namespace Processor

variable {σ : Type} [FileSystem σ]

/-- A run extends its image. Identity and top level stay as they are, references are put behind the
old ones, an old node gains public fields with the names of authoring fields, nested nodes and the
serializable flag at most, and the nodes behind the old ones are the companions that are reported. -/
theorem run_conservative {p p' : Processor} {budget : Nat} {m : Image} {references : List Path}
    {s : σ} {o : Outcome} (ran : ((p.run budget m references).run s).value = (p', .done o)) :
    o.image.identity = m.identity ∧ o.image.roots = m.roots ∧
    m.references <+: o.image.references ∧
    (∀ id < m.size, ∃ d d' added, m.get? id = some d ∧ o.image.get? id = some d' ∧
      d.Extends added d' ∧ ∀ f ∈ added, f.isPublic ∧ ∃ k, f.name = AuthoringField.nameAt k) ∧
    o.injected.map (·.suffix) = p.config.passes.map (·.request.suffix) ∧
    o.image.size = m.size + (reported p.config.passes o.injected).length ∧
    ∀ (k : Nat) (pass : CompanionPass) (name : String),
      (reported p.config.passes o.injected)[k]? = some (pass, name) →
      o.Accounts m pass name (m.size + k) := by
  obtain ⟨r, c, -, -, rfl, result⟩ := done_of_run ran
  obtain ⟨extended, -⟩ := Context.postProcess_extends result
  obtain ⟨fielded, added, shape, -, injects, named, -⟩ := Context.postProcess_injects result
  have size : fielded.size = c.target.size := Image.size_of_shape shape
  refine ⟨extended.identity, extended.roots, extended.references, fun id old => ?_,
    injects.suffixes, ?_, fun k pass name entry => ?_⟩
  · obtain ⟨d, d', node, node', grown⟩ := extended.old old
    refine ⟨d, d', _, node, node', grown, fun g hg => ?_⟩
    obtain ⟨f, hf, -, rfl⟩ := AuthoringField.mem_declarations.mp hg
    exact ⟨f.isPublic_declaration, named f hf⟩
  · rw [injects.size_eq, size]
  · obtain ⟨before, after, parent, early, pass, late, inside, old, there, same, companion⟩ :=
      injects.account entry
    rw [size] at early old there same companion
    exact ⟨before, after, parent, added.before early.hosts.extends, pass.hosts, late.hosts, inside,
      old, there, same, companion⟩

/-- The run over the game adds a drawer and a baker, in this order. -/
theorem healthGame_accounts :
    ∃ o, ((hosted.run 8 healthGame []).run ({} : Disk)).value = (hosted, .done o) ∧
      o.image.size = healthGame.size + 2 ∧
      o.Accounts healthGame host.drawerPass "Health/HealthCustomDrawer" healthGame.size ∧
      o.Accounts healthGame host.bakerPass "HealthAuthoring/HealthAuthoringBaker"
        (healthGame.size + 1) := by
  obtain ⟨o, ran, -, injected⟩ := healthGame_run ({} : Disk)
  obtain ⟨-, -, -, -, -, size, accounts⟩ := run_conservative ran
  rw [injected] at size accounts
  refine ⟨o, ran, size, ?_, ?_⟩
  · exact accounts 0 host.drawerPass "Health/HealthCustomDrawer" rfl
  · exact accounts 1 host.bakerPass "HealthAuthoring/HealthAuthoringBaker" rfl

end Processor
end Companions
