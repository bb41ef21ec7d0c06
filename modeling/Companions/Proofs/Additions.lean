import Companions.Proofs.Idle
import Companions.Proofs.Image.Growth
import Companions.Proofs.Image.Traversal
/-!
What a pass has done when it ends in a value: every field that it planned is there, and every
companion that it wanted has its name taken.
-/
namespace Companions

/-! ## Fields -/

namespace Context

theorem marked_grows (c : Context) (f : AuthoringField) : c.target.Grows (c.marked f).target := by
  unfold marked
  split
  · exact Image.grows_markSerializable ..
  · exact .refl _

theorem applyField_grows (c : Context) (f : AuthoringField) :
    c.target.Grows (c.applyField f).1.target ∧ (f.owner < c.target.types.length →
      (c.applyField f).1.target.Bears f.owner f.name) := by
  have marks := marked_grows c f
  by_cases has : c.target.HasField f
  · rw [applyField_none has]
    refine ⟨marks, fun inside => ?_⟩
    obtain ⟨d, node⟩ := Image.exists_get? (Nat.lt_of_lt_of_le inside marks.size)
    exact ⟨d, node, (hasField_marked c f f).mpr has d node⟩
  · cases added : (c.marked f).target.addAuthoringField? f with
    | none => exact absurd ((hasField_marked c f f).mp (Image.addAuthoringField?_eq_none.mp added)) has
    | some found =>
        obtain ⟨m, owner⟩ := found
        obtain ⟨grows, bears⟩ := Image.grows_addAuthoringField added
        have applied : (c.applyField f).1.target = m := by
          rw [marked] at added
          rw [applyField, added]
        rw [applied]
        exact ⟨marks.trans grows, fun _ => bears⟩

theorem applyFields_grows (c : Context) (fs : List AuthoringField) :
    c.target.Grows (c.applyFields fs).1.target ∧ ∀ f ∈ fs, f.owner < c.target.types.length →
      (c.applyFields fs).1.target.Bears f.owner f.name := by
  induction fs generalizing c with
  | nil => exact ⟨.refl _, by simp⟩
  | cons f fs ih =>
      obtain ⟨first, bears⟩ := applyField_grows c f
      obtain ⟨rest, others⟩ := ih (c.applyField f).1
      unfold applyFields
      refine ⟨first.trans rest, List.forall_mem_cons.mpr ⟨fun inside => ?_, fun g hg inside => ?_⟩⟩
      · exact rest.fields _ _ (bears inside)
      · exact others g hg (Nat.lt_of_lt_of_le inside first.size)

end Context

/-! ## Companions -/

/-- Ids of the index lead to nodes of the image. -/
def Index.Within (x : Index) (m : Image) : Prop := ∀ id ∈ x.ids, id < m.types.length

theorem Index.Within.grows {x : Index} {m m' : Image} (h : x.Within m) (grows : m.Grows m') :
    x.Within m' := fun id hid => Nat.lt_of_lt_of_le (h id hid) grows.size

theorem Index.Within.add {x : Index} {m m' : Image} (h : x.Within m) {id : TypeId}
    (inside : id < m.types.length) : (x.add m' id).Within m := by
  intro i hi
  rcases Table.mem_values_insertNew hi with old | rfl
  · exact h i old
  · exact inside

namespace Context

/-- The names that companions are to have when they are injected one after the other. -/
def namesInTurn (c : Context) (x : Index) (q : CompanionRequest) (base : Method) :
    List (TypeId × TypeRef) → List String
  | [] => []
  | s :: ss => c.companionName q s ::
      (c.injectOne x q base s).context.namesInTurn (c.injectOne x q base s).index q base ss

/-- Under a free name the companion is nested in its source. -/
theorem injectOne_free {c : Context} (x : Index) {q : CompanionRequest} (base : Method)
    {s : TypeId × TypeRef} (h : ¬ c.Taken q s) :
    ∃ name, (c.injectOne x q base s).context =
        { c with target := c.target.addNestedType s.1 (companionOf q base name s.2) } ∧
      (c.injectOne x q base s).index =
        x.add (c.target.addNestedType s.1 (companionOf q base name s.2)) c.target.size ∧
      (c.injectOne x q base s).id = some c.target.size ∧
      c.companionName q s = Name.nest (c.target.fullName s.1) name ∧
      name = ((c.target.get? s.1).map (·.name)).getD "" ++ q.suffix := by
  rw [Taken, companionName] at h
  rw [injectOne, if_neg h]
  exact ⟨_, rfl, rfl, rfl, rfl, rfl⟩

/-- The constructor of a template is declared by it and takes nothing. -/
theorem templateConstructor_done {c : Context} {q : CompanionRequest} {m : Method}
    {assembly : Identity} (h : (c.templateConstructor q).result = .done (m, assembly)) :
    ∃ r, c.resolve? q.template = some r ∧ assembly = r.image.identity ∧ m ∈ r.node.constructors ∧
      m.parameters = [] := by
  rw [templateConstructor] at h
  split at h
  · cases h
  · next r found =>
      split at h
      · cases h
      · next k first =>
          obtain ⟨rfl, rfl⟩ := Prod.mk.inj (Attempt.done.inj h)
          have empty := List.find?_some first
          exact ⟨r, found, rfl, List.mem_of_find?_eq_some first, by simpa using empty⟩

theorem injectOne_grows {c : Context} {x : Index} (hx : x.Within c.target) (q : CompanionRequest)
    (base : Method) {s : TypeId × TypeRef} (hs : s.1 < c.target.types.length) :
    c.target.Grows (c.injectOne x q base s).context.target ∧
      (c.injectOne x q base s).index.Within (c.injectOne x q base s).context.target ∧
      (c.target.Linked →
        ((c.injectOne x q base s).context.target.find? (c.companionName q s)).isSome) := by
  by_cases taken : c.Taken q s
  · obtain ⟨context, index, -⟩ := injectOne_taken x base taken
    rw [context, index]
    exact ⟨.refl _, hx, fun _ => taken⟩
  · obtain ⟨name, context, index, -, key, -⟩ := injectOne_free x base taken
    obtain ⟨grows, entered⟩ := Image.grows_addNestedType (companionOf q base name s.2) hs
    rw [context, index, key]
    have inside : c.target.types.length <
        (c.target.addNestedType s.1 (companionOf q base name s.2)).types.length := by
      rw [Image.length_addNestedType]
      exact Nat.lt_succ_self _
    exact ⟨grows, (hx.grows grows).add inside, entered⟩

theorem injectAll_grows {c : Context} {x : Index} (hx : x.Within c.target) (q : CompanionRequest)
    (base : Method) {ss : List (TypeId × TypeRef)} (hs : ∀ s ∈ ss, s.1 < c.target.types.length) :
    c.target.Grows (c.injectAll x q base ss).1.target ∧
      (c.injectAll x q base ss).2.1.Within (c.injectAll x q base ss).1.target ∧
      (c.target.Linked → ∀ name ∈ c.namesInTurn x q base ss,
        ((c.injectAll x q base ss).1.target.find? name).isSome) := by
  induction ss generalizing c x with
  | nil => exact ⟨.refl _, hx, by simp [namesInTurn]⟩
  | cons s ss ih =>
      obtain ⟨hs, others⟩ := List.forall_mem_cons.mp hs
      obtain ⟨first, hx, known⟩ := injectOne_grows hx q base hs
      obtain ⟨rest, hx, names⟩ := ih hx fun t ht => Nat.lt_of_lt_of_le (others t ht) first.size
      rw [injectAll, namesInTurn]
      refine ⟨first.trans rest, hx, fun linked => List.forall_mem_cons.mpr ⟨?_, ?_⟩⟩
      · exact rest.names _ (known linked)
      · exact names (first.linked linked)

/-- The sources without companion are nodes of the index, as the target refers to them. -/
theorem companionless_mem {c : Context} {budget : Nat} {x : Index} {q : CompanionRequest}
    {unused : List (TypeId × TypeRef)}
    (h : (c.companionless budget x q).result = .done unused) :
    ∀ s ∈ unused, s.1 ∈ x.ids ∧ s.2 = c.target.referenceTo s.1 := by
  simp only [companionless, Pass.result_bind, Pass.result_say, Attempt.bind_done,
    Attempt.bind_eq_done] at h
  obtain ⟨found, sources, h⟩ := h
  have indexed (s) (hs : s ∈ found) : s.1 ∈ x.ids ∧ s.2 = c.target.referenceTo s.1 := by
    obtain ⟨id, hid, rfl⟩ := List.mem_map.mp (Pass.select_subset sources s hs)
    exact ⟨hid, rfl⟩
  split at h
  · cases h
    simp
  · rw [Pass.bind_eq_done] at h
    obtain ⟨taken, -, h⟩ := h
    simp only [Pass.result_say_bind, Pass.result_pure] at h
    obtain rfl := Attempt.done.inj h
    exact fun s hs => indexed s (List.mem_filter.mp hs).1

/-! ## Markers -/

/-- An attribute is attached if it has a constructor that takes the arguments, and if its owner is a
node. -/
theorem attach_eq_done {c c' : Context} {budget : Nat} {owner : TypeId} {marker : TypeRef}
    {arguments : List TypeRef} : (c.attach budget owner marker arguments).result = .done c' ↔
      ∃ m assembly, (c.markerConstructor budget marker arguments).result = .done (m, assembly) ∧
        owner < c.target.size ∧ c' = { c with
          target := (c.target.update owner fun d =>
            { d with attributes := d.attributes ++ [markerOf marker m arguments] }).addReference assembly } := by
  rw [attach, Pass.bind_eq_done]
  simp only [Pass.result_leaving, Attempt.mapError_eq_done]
  constructor
  · rintro ⟨⟨m, assembly⟩, found, h⟩
    dsimp only at h
    split at h
    · next inside =>
        rw [Pass.result_say_bind] at h
        exact ⟨m, assembly, found, inside, (Attempt.done.inj h).symm⟩
    · cases h
  · rintro ⟨m, assembly, found, inside, rfl⟩
    refine ⟨(m, assembly), found, ?_⟩
    dsimp only
    rw [if_pos inside, Pass.result_say_bind]
    rfl

/-- The marker on one companion, made from the type that it accompanies. -/
def markOne (c : Context) (budget : Nat) (marker : TypeRef) (id : TypeId) :
    Pass SynthesisError Context :=
  match c.accompaniedType? id with
  | none => pure c
  | some t => (c.attach budget id marker [t]).mapError (·.error)

theorem markWith_cons_eq_done {c c' : Context} {budget : Nat} {marker : TypeRef} {id : TypeId}
    {ids : List TypeId} : (c.markWith budget (some marker) (id :: ids)).result = .done c' ↔
      ∃ c₁, (c.markOne budget marker id).result = .done c₁ ∧
        (c₁.markWith budget (some marker) ids).result = .done c' := by
  simp only [markWith]
  rw [markAll, markOne]
  cases c.accompaniedType? id with
  | none =>
      constructor
      · exact fun h => ⟨c, rfl, h⟩
      · rintro ⟨c₁, same, h⟩
        obtain rfl := Attempt.done.inj same
        exact h
  | some t =>
      dsimp only
      rw [Pass.result_say_bind, Pass.bind_eq_done]

/-- The constructor of a marker is declared by it and has a parameter for each argument. -/
theorem markerConstructor_done {c : Context} {budget : Nat} {marker : TypeRef}
    {arguments : List TypeRef} {m : Method} {assembly : Identity}
    (h : (c.markerConstructor budget marker arguments).result = .done (m, assembly)) :
    ∃ r, c.resolve? marker = some r ∧ assembly = r.image.identity ∧ m ∈ r.node.constructors ∧
      m.parameters.length = arguments.length := by
  rw [markerConstructor] at h
  split at h
  · cases h
  · next r found =>
      obtain ⟨chosen, first, h⟩ := Pass.bind_eq_done.mp h
      cases chosen with
      | none => cases h
      | some k =>
          obtain ⟨rfl, rfl⟩ := Prod.mk.inj (Attempt.done.inj h)
          obtain ⟨mem, taken⟩ := Pass.first?_some first
          refine ⟨r, found, rfl, mem, ?_⟩
          rw [takes] at taken
          split at taken
          · assumption
          · cases taken

theorem attach_grows {c c' : Context} {budget : Nat} {owner : TypeId} {marker : TypeRef}
    {arguments : List TypeRef} (h : (c.attach budget owner marker arguments).result = .done c') :
    c.target.Grows c'.target := by
  obtain ⟨m, assembly, -, -, rfl⟩ := attach_eq_done.mp h
  have attributed := Image.grows_update c.target owner
    (f := fun d => { d with attributes := d.attributes ++ [markerOf marker m arguments] })
    (fun _ => rfl) fun _ _ h => h
  exact attributed.trans (Image.grows_addReference ..)

/-- What attaching to each of the nodes keeps is kept by marking them. -/
theorem markWith_keeps {P : Context → Prop} {c c' : Context} {budget : Nat} {marker : Option TypeRef}
    {ids : List TypeId} (h : (c.markWith budget marker ids).result = .done c') (start : P c)
    (step : ∀ id ∈ ids, ∀ d d' marker arguments, P d →
      (d.attach budget id marker arguments).result = .done d' → P d') : P c' := by
  cases marker with
  | none =>
      obtain rfl := Attempt.done.inj h
      exact start
  | some marker =>
      induction ids generalizing c with
      | nil =>
          obtain rfl := Attempt.done.inj h
          exact start
      | cons id ids ih =>
          obtain ⟨own, others⟩ := List.forall_mem_cons.mp step
          obtain ⟨c₁, one, rest⟩ := markWith_cons_eq_done.mp h
          refine ih ?_ others rest
          rw [markOne] at one
          split at one
          · obtain rfl := Attempt.done.inj one
            exact start
          · exact own c c₁ marker _ start (Attempt.mapError_eq_done.mp one)

theorem markWith_grows {c c' : Context} {budget : Nat} {marker : Option TypeRef}
    {ids : List TypeId} (h : (c.markWith budget marker ids).result = .done c') :
    c.target.Grows c'.target := by
  refine markWith_keeps (P := fun d => c.target.Grows d.target) h (.refl _) ?_
  intro id _ d d' marker arguments grown one
  exact grown.trans (attach_grows one)

/-! ## Passes -/

/-- The names that one companion pass wants to be taken. -/
def wantedBy (c : Context) (budget : Nat) (x : Index) (q : CompanionRequest) : List String :=
  match (c.companionless budget x q).result, (c.templateConstructor q).result with
  | .done unused, .done (base, assembly) =>
    { c with target := c.target.addReference assembly }.namesInTurn x q base unused
  | _, _ => []

theorem wantedBy_nil {c : Context} {budget : Nat} {x : Index} {q : CompanionRequest}
    (demand : (c.companionless budget x q).result = .done []) : c.wantedBy budget x q = [] := by
  rw [wantedBy, demand]
  cases (c.templateConstructor q).result <;> rfl

/-- The names that companion passes want one after the other. -/
def wanted (c : Context) (budget : Nat) (x : Index) : List CompanionPass → List String
  | [] => []
  | p :: ps => c.wantedBy budget x p.request ++
    match (c.runCompanionPass budget x p).result with
    | .done (c', x', _) => c'.wanted budget x' ps
    | _ => []

theorem injectCompanions_grows {c c' : Context} {budget : Nat} {x x' : Index}
    {q : CompanionRequest} {ids : List TypeId}
    (h : (c.injectCompanions budget x q).result = .done (c', x', ids)) (hx : x.Within c.target) :
    c.target.Grows c'.target ∧ x'.Within c'.target ∧ (c.target.Linked →
      ∀ name ∈ c.wantedBy budget x q, (c'.target.find? name).isSome) := by
  obtain ⟨demand, rfl, rfl, -⟩ | ⟨unused, base, assembly, _, demand, -, template, rfl, rfl, rfl, -⟩ :=
    injectCompanions_eq_done.mp h
  · refine ⟨.refl _, hx, fun _ name hname => ?_⟩
    rw [wantedBy_nil demand] at hname
    cases hname
  · have refers := Image.grows_addReference c.target assembly
    have inside (s) (hs : s ∈ unused) : s.1 < (c.target.addReference assembly).types.length :=
      (hx.grows refers) s.1 (companionless_mem demand s hs).1
    obtain ⟨grows, within, names⟩ := injectAll_grows
      (c := { c with target := c.target.addReference assembly }) (hx.grows refers) q base inside
    refine ⟨refers.trans grows, within, fun linked name hname => ?_⟩
    rw [wantedBy, demand, template] at hname
    exact names (refers.linked linked) name hname

theorem runCompanionPass_eq_done {c c' : Context} {budget : Nat} {x x' : Index}
    {p : CompanionPass} {i : Injected} :
    (c.runCompanionPass budget x p).result = .done (c', x', i) ↔
      ∃ c₁ ids, (c.injectCompanions budget x p.request).result = .done (c₁, x', ids) ∧
        (c₁.markWith budget p.marker ids).result = .done c' ∧
        i = ⟨p.request.suffix, ids.map c'.target.fullName⟩ := by
  rw [runCompanionPass_result, Attempt.bind_eq_done]
  simp only [Attempt.mapError_eq_done]
  constructor
  · rintro ⟨⟨c₁, x₁, ids⟩, injected, h⟩
    obtain ⟨c₂, marked, h⟩ := Attempt.bind_eq_done.mp h
    simp only [Attempt.done.injEq, Prod.mk.injEq] at h
    obtain ⟨rfl, rfl, rfl⟩ := h
    exact ⟨c₁, ids, injected, marked, rfl⟩
  · rintro ⟨c₁, ids, injected, marked, rfl⟩
    exact ⟨(c₁, x', ids), injected, Attempt.bind_eq_done.mpr ⟨c', marked, rfl⟩⟩

theorem runCompanionPasses_nil_eq_done {c c' : Context} {budget : Nat} {x : Index}
    {injected : List Injected} :
    (c.runCompanionPasses budget x []).result = .done (c', injected) ↔ c' = c ∧ injected = [] := by
  rw [runCompanionPasses, Pass.result_pure, Attempt.done.injEq, Prod.mk.injEq]
  exact and_congr eq_comm eq_comm

theorem runCompanionPasses_cons_eq_done {c c' : Context} {budget : Nat} {x : Index}
    {p : CompanionPass} {ps : List CompanionPass} {injected : List Injected} :
    (c.runCompanionPasses budget x (p :: ps)).result = .done (c', injected) ↔
      ∃ c₁ x₁ i others, (c.runCompanionPass budget x p).result = .done (c₁, x₁, i) ∧
        (c₁.runCompanionPasses budget x₁ ps).result = .done (c', others) ∧
        injected = i :: others := by
  rw [runCompanionPasses, Pass.bind_eq_done]
  constructor
  · rintro ⟨⟨c₁, x₁, i⟩, first, h⟩
    obtain ⟨⟨c₂, others⟩, rest, h⟩ := Pass.bind_eq_done.mp h
    obtain ⟨rfl, rfl⟩ := Prod.mk.inj (Attempt.done.inj h)
    exact ⟨c₁, x₁, i, others, first, rest, rfl⟩
  · rintro ⟨c₁, x₁, i, others, first, rest, rfl⟩
    exact ⟨(c₁, x₁, i), first, Pass.bind_eq_done.mpr ⟨(c', others), rest, rfl⟩⟩

theorem runCompanionPass_grows {c c' : Context} {budget : Nat} {x x' : Index} {p : CompanionPass}
    {i : Injected} (h : (c.runCompanionPass budget x p).result = .done (c', x', i))
    (hx : x.Within c.target) :
    c.target.Grows c'.target ∧ x'.Within c'.target ∧ (c.target.Linked →
      ∀ name ∈ c.wantedBy budget x p.request, (c'.target.find? name).isSome) := by
  obtain ⟨c₁, ids, injected, marked, -⟩ := runCompanionPass_eq_done.mp h
  obtain ⟨grows, within, names⟩ := injectCompanions_grows injected hx
  have marks := markWith_grows marked
  refine ⟨grows.trans marks, within.grows marks, fun linked name hname => ?_⟩
  exact marks.names name (names linked name hname)

theorem runCompanionPasses_grows {c c' : Context} {budget : Nat} {x : Index}
    {ps : List CompanionPass} {injected : List Injected}
    (h : (c.runCompanionPasses budget x ps).result = .done (c', injected))
    (hx : x.Within c.target) : c.target.Grows c'.target ∧ (c.target.Linked →
      ∀ name ∈ c.wanted budget x ps, (c'.target.find? name).isSome) := by
  induction ps generalizing c x injected with
  | nil =>
      obtain ⟨rfl, -⟩ := runCompanionPasses_nil_eq_done.mp h
      exact ⟨.refl _, by simp [wanted]⟩
  | cons p ps ih =>
      obtain ⟨c₁, x₁, i, others, first, rest, -⟩ := runCompanionPasses_cons_eq_done.mp h
      obtain ⟨grows, within, names⟩ := runCompanionPass_grows first hx
      obtain ⟨grows', names'⟩ := ih rest within
      refine ⟨grows.trans grows', fun linked name hname => ?_⟩
      rw [wanted, first] at hname
      rcases List.mem_append.mp hname with own | later
      · exact grows'.names name (names linked name own)
      · exact names' (grows.linked linked) name later

end Context

/-! ## Whole passes -/

theorem Index.build_within (m : Image) : (Index.build m).Within m := by
  have adds {x : Index} (hx : x.Within m) {ids : List TypeId} (h : ∀ id ∈ ids, id < m.types.length) :
      (ids.foldl (fun x id => x.add m id) x).Within m := by
    induction ids generalizing x with
    | nil => exact hx
    | cons id ids ih =>
        obtain ⟨first, others⟩ := List.forall_mem_cons.mp h
        exact ih (hx.add first) others
  exact adds (by simp [Within, ids, Table.values]) fun _ => Image.lt_of_mem_typeIds

namespace Context

section planned

variable {ε : Type} {c : Context} {budget : Nat} {rules : List ContractRule}

theorem authoringTypes_mem {templates : List TypeRef} {x : Index} {found : List (TypeId × TypeRef)}
    (h : (c.authoringTypes templates x : Pass ε _).result = .done found) :
    ∀ a ∈ found, a.1 ∈ x.ids := by
  rw [authoringTypes, Pass.bind_eq_done] at h
  obtain ⟨bounds, each, h⟩ := h
  obtain rfl := Attempt.done.inj h
  intro a ha
  obtain ⟨bound, mem, same⟩ := List.mem_filterMap.mp ha
  obtain ⟨id, hid, result⟩ := Pass.forAll_mem each bound mem
  rw [Pass.bind_eq_done] at result
  obtain ⟨b, -, result⟩ := result
  obtain rfl := Attempt.done.inj result
  obtain ⟨b, -, rfl⟩ := Option.map_eq_some_iff.mp same
  exact hid

theorem plannedFields_mem {owner : TypeId} {bound : TypeRef} {fs : List AuthoringField}
    (h : (c.plannedFields budget rules owner bound : Pass ε _).result = .done fs) :
    ∀ f ∈ fs, f.owner = owner ∧ ∃ k, f.name = AuthoringField.nameAt k := by
  intro f hf
  obtain ⟨a, -, result⟩ := Pass.forAll_mem h f hf
  rw [Pass.bind_eq_done] at result
  obtain ⟨storage, -, result⟩ := result
  obtain rfl := Attempt.done.inj result
  exact ⟨rfl, a.2, rfl⟩

/-- A planned field belongs to a node of the index and is named by its place. -/
theorem planned_mem {x : Index} {templates : List TypeRef} {fs : List AuthoringField}
    (h : (c.planned budget x templates rules : Pass ε _).result = .done fs) :
    ∀ f ∈ fs, f.owner ∈ x.ids ∧ ∃ k, f.name = AuthoringField.nameAt k := by
  rw [planned, Pass.bind_eq_done] at h
  obtain ⟨authoring, types, h⟩ := h
  rw [Pass.bind_eq_done] at h
  obtain ⟨fields, each, h⟩ := h
  obtain rfl := Attempt.done.inj h
  intro f hf
  obtain ⟨own, mem, hf⟩ := List.mem_flatten.mp hf
  obtain ⟨a, ha, result⟩ := Pass.forAll_mem each own mem
  obtain ⟨owner, name⟩ := plannedFields_mem result f hf
  rw [owner]
  exact ⟨authoringTypes_mem types a ha, name⟩

theorem planned_owner {x : Index} {templates : List TypeRef} {fs : List AuthoringField}
    (h : (c.planned budget x templates rules : Pass ε _).result = .done fs) :
    ∀ f ∈ fs, f.owner ∈ x.ids := fun f hf => (planned_mem h f hf).1

end planned

/-- What a pass plans: fields by owner and name, and the full names of companions. -/
structure Tasks where
  fields : List (TypeId × String)
  names : List String

def tasks (c : Context) (budget : Nat) (config : Config) : Tasks :=
  match c.plannedFor budget config with
  | .done fs => ⟨fs.map fun f => (f.owner, f.name),
      (c.applyFields fs).1.wanted budget (Index.build c.target)
        (config.contracts.passes config.injectInspectorEditors)⟩
  | _ => ⟨[], []⟩

/-- The tasks are done in the image. -/
structure Tasks.DoneIn (t : Tasks) (m : Image) : Prop where
  fields : ∀ f ∈ t.fields, m.Bears f.1 f.2
  names : ∀ name ∈ t.names, (m.find? name).isSome

/-- A pass that ends in a value has done what it planned. -/
theorem postProcess_done {c : Context} {budget : Nat} {config : Config} {image : Image}
    {fields : List AuthoringField} {injected : List Injected} {difference : Difference}
    (h : (c.postProcess budget config).result = .done (image, fields, injected, difference))
    (linked : c.target.Linked) : (c.tasks budget config).DoneIn image := by
  rw [postProcess_result, Attempt.bind_eq_done] at h
  obtain ⟨fs, planned, h⟩ := h
  obtain ⟨⟨c', injected'⟩, passes, h⟩ := Attempt.bind_eq_done.mp h
  obtain ⟨rfl, -⟩ := Prod.mk.inj (Attempt.done.inj h)
  have within := Index.build_within c.target
  obtain ⟨grows, bears⟩ := applyFields_grows c fs
  obtain ⟨grows', names⟩ := runCompanionPasses_grows passes (within.grows grows)
  rw [tasks, planned]
  refine ⟨?_, names (grows.linked linked)⟩
  intro f hf
  obtain ⟨g, hg, rfl⟩ := List.mem_map.mp hf
  exact grows'.fields _ _ (bears g hg (within _ (planned_owner planned g hg)))

end Context
end Companions
