import Companions.Proofs.Additions
import Companions.Proofs.Image.Graft
/-!
The frame of a pass: what it leaves of its target. Fields are added to old nodes, and then each
companion pass grafts: it nests nodes and puts attributes on these. So identity and top level stay
as they are, references are put behind the old ones, and an old node gains no more than the fields
that the pass reports, nested nodes and the serializable flag.
-/
namespace Companions

theorem companionOf_bare (q : CompanionRequest) (base : Method) (name : String) (source : TypeRef) :
    (companionOf q base name source).Bare where
  nested := rfl
  fields := rfl
  returns c hc := by
    obtain rfl := List.mem_singleton.mp (List.mem_filter.mp hc).1
    rfl

namespace Context
open Image (Extends)

/-! ## Fields -/

theorem applyField_extends (n : Nat) (c : Context) (f : AuthoringField) :
    Extends n c.target ((c.applyField f).2.toList.map (·.1)) (c.applyField f).1.target := by
  have marks : c.target.Extends n [] (c.marked f).target := by
    unfold marked
    split
    · exact Image.extends_markSerializable ..
    · exact .refl ..
  rw [marked] at marks
  rw [applyField]
  split
  · exact marks
  · next added => exact (Image.extends_addAuthoringField added).after marks

theorem applyFields_extends (n : Nat) (c : Context) (fs : List AuthoringField) :
    Extends n c.target ((c.applyFields fs).2.map (·.1)) (c.applyFields fs).1.target := by
  induction fs generalizing c with
  | nil => exact .refl n c.target
  | cons f fs ih =>
      rw [applyFields, List.map_append]
      exact (applyField_extends n c f).trans (ih (c.applyField f).1)

theorem applyField_shape (c : Context) (f : AuthoringField) :
    (c.applyField f).1.target.shape = c.target.shape := by
  have marks : (c.marked f).target.shape = c.target.shape := (touched_marked c f).target.shape
  rw [marked] at marks
  rw [applyField]
  split
  · exact marks
  · next added => exact (Image.shape_addAuthoringField added).trans marks

theorem applyFields_shape (c : Context) (fs : List AuthoringField) :
    (c.applyFields fs).1.target.shape = c.target.shape := by
  induction fs generalizing c with
  | nil => rfl
  | cons f fs ih => exact (ih (c.applyField f).1).trans (applyField_shape c f)

theorem applyField_references (c : Context) (f : AuthoringField) :
    (c.applyField f).1.references = c.references := by
  rw [applyField]
  split
  · rfl
  · rfl

theorem applyFields_references (c : Context) (fs : List AuthoringField) :
    (c.applyFields fs).1.references = c.references := by
  induction fs generalizing c with
  | nil => rfl
  | cons f fs ih => exact (ih (c.applyField f).1).trans (applyField_references c f)

theorem applyFields_subset {c : Context} {fs : List AuthoringField} :
    ∀ f ∈ (c.applyFields fs).2.map (·.1), f ∈ fs := by
  induction fs generalizing c with
  | nil => simp [applyFields]
  | cons f fs ih =>
      intro g hg
      rw [applyFields, List.map_append] at hg
      rcases List.mem_append.mp hg with own | later
      · rw [applyField] at own
        split at own
        · cases own
        · obtain rfl := List.mem_singleton.mp own
          exact List.mem_cons_self
      · exact List.mem_cons_of_mem f (ih g later)

/-! ## Companions -/

/-- A context with the same references to whose target was grafted. -/
structure Grafted (n : Nat) (c c' : Context) : Prop where
  references : c'.references = c.references
  target : c.target.Grafts n c'.target

theorem Grafted.refl (n : Nat) (c : Context) : c.Grafted n c := ⟨rfl, .refl⟩

theorem Grafted.trans {n : Nat} {c c' c'' : Context} (h : c.Grafted n c') (h' : c'.Grafted n c'') :
    c.Grafted n c'' :=
  ⟨h'.references.trans h.references, h.target.trans h'.target⟩

theorem grafted_addReference (n : Nat) (c : Context) (i : Identity) :
    c.Grafted n { c with target := c.target.addReference i } :=
  ⟨rfl, .single (.refer c.target i)⟩

section inject

variable {n : Nat} {c c' : Context} {budget : Nat} {x x' : Index} {q : CompanionRequest}
  {base : Method}

theorem injectOne_grafted (n : Nat) (x : Index) (q : CompanionRequest) (base : Method)
    {s : TypeId × TypeRef} (inside : s.1 < c.target.size) :
    c.Grafted n (c.injectOne x q base s).context := by
  by_cases taken : c.Taken q s
  · rw [(injectOne_taken x base taken).1]
    exact .refl n c
  · obtain ⟨name, context, -, -, key, -⟩ := injectOne_free x base taken
    have free : c.target.find? (c.companionName q s) = none := by simpa [Taken] using taken
    rw [key] at free
    rw [context]
    exact ⟨rfl, .single (.nest (companionOf_bare q base name s.2) inside free)⟩

theorem injectAll_cons_context (c : Context) (x : Index) (q : CompanionRequest) (base : Method)
    (s : TypeId × TypeRef) (ss : List (TypeId × TypeRef)) :
    (c.injectAll x q base (s :: ss)).1 =
      ((c.injectOne x q base s).context.injectAll (c.injectOne x q base s).index q base ss).1 := rfl

theorem injectAll_cons_index (c : Context) (x : Index) (q : CompanionRequest) (base : Method)
    (s : TypeId × TypeRef) (ss : List (TypeId × TypeRef)) :
    (c.injectAll x q base (s :: ss)).2.1 =
      ((c.injectOne x q base s).context.injectAll (c.injectOne x q base s).index q base ss).2.1 := rfl

theorem injectAll_cons_ids (c : Context) (x : Index) (q : CompanionRequest) (base : Method)
    (s : TypeId × TypeRef) (ss : List (TypeId × TypeRef)) :
    (c.injectAll x q base (s :: ss)).2.2.1 = (c.injectOne x q base s).id.toList ++
      ((c.injectOne x q base s).context.injectAll (c.injectOne x q base s).index q base ss).2.2.1 := rfl

theorem injectAll_grafted (n : Nat) (x : Index) (q : CompanionRequest) (base : Method)
    {ss : List (TypeId × TypeRef)} (inside : ∀ s ∈ ss, s.1 < c.target.size) :
    c.Grafted n (c.injectAll x q base ss).1 := by
  induction ss generalizing c x with
  | nil => exact .refl n c
  | cons s ss ih =>
      obtain ⟨own, others⟩ := List.forall_mem_cons.mp inside
      have first := injectOne_grafted n x q base own
      rw [injectAll_cons_context]
      exact first.trans
        (ih _ fun t ht => Nat.lt_of_lt_of_le (others t ht) first.target.hosts.size)

/-- The ids of what is injected are those behind the old ones. -/
theorem injectAll_ids (c : Context) (x : Index) (q : CompanionRequest) (base : Method)
    (ss : List (TypeId × TypeRef)) :
    ∃ k, (c.injectAll x q base ss).2.2.1 = List.range' c.target.size k ∧
      (c.injectAll x q base ss).1.target.size = c.target.size + k := by
  induction ss generalizing c x with
  | nil => exact ⟨0, rfl, rfl⟩
  | cons s ss ih =>
      obtain ⟨k, ids, size⟩ := ih (c.injectOne x q base s).context (c.injectOne x q base s).index
      rw [injectAll_cons_context, injectAll_cons_ids, ids, size]
      by_cases taken : c.Taken q s
      · obtain ⟨context, -, id⟩ := injectOne_taken x base taken
        exact ⟨k, by rw [id, context]; rfl, by rw [context]⟩
      · obtain ⟨name, context, -, id, -, -⟩ := injectOne_free x base taken
        rw [id, context, Image.size_addNestedType]
        exact ⟨k + 1, List.range'_succ.symm, by omega⟩

theorem injectCompanions_grafted {ids : List TypeId}
    (h : (c.injectCompanions budget x q).result = .done (c', x', ids)) (hx : x.Within c.target)
    (n : Nat) : c.Grafted n c' ∧
      ∃ k, ids = List.range' c.target.size k ∧ c'.target.size = c.target.size + k := by
  obtain ⟨-, rfl, -, rfl⟩ | ⟨unused, base, assembly, _, demand, -, -, rfl, rfl, -, rfl⟩ :=
    injectCompanions_eq_done.mp h
  · exact ⟨.refl n c', 0, rfl, rfl⟩
  · have refers := grafted_addReference n c assembly
    have same : (c.target.addReference assembly).size = c.target.size := Image.size_addReference ..
    have inside (s) (hs : s ∈ unused) : s.1 < (c.target.addReference assembly).size := by
      rw [same]
      exact hx s.1 (companionless_mem demand s hs).1
    have ids := injectAll_ids { c with target := c.target.addReference assembly } x q base unused
    rw [same] at ids
    exact ⟨refers.trans (injectAll_grafted n x q base inside), ids⟩

theorem attach_grafted {owner : TypeId} {marker : TypeRef} {arguments : List TypeRef}
    (h : (c.attach budget owner marker arguments).result = .done c') (new : n ≤ owner) :
    c.Grafted n c' := by
  obtain ⟨m, assembly, -, -, rfl⟩ := attach_eq_done.mp h
  exact ⟨rfl, .tail (.single (.attach c.target _ new)) (.refer _ assembly)⟩

theorem markWith_grafted {marker : Option TypeRef} {ids : List TypeId}
    (h : (c.markWith budget marker ids).result = .done c') (new : ∀ id ∈ ids, n ≤ id) :
    c.Grafted n c' := by
  refine markWith_keeps (P := fun d => c.Grafted n d) h (.refl n c) ?_
  intro id listed d d' marker arguments grafted one
  exact grafted.trans (attach_grafted one (new id listed))

theorem runCompanionPass_grafted {p : CompanionPass} {i : Injected}
    (h : (c.runCompanionPass budget x p).result = .done (c', x', i)) (hx : x.Within c.target)
    (old : n ≤ c.target.size) : c.Grafted n c' := by
  obtain ⟨c₁, ids, injected, marked, -⟩ := runCompanionPass_eq_done.mp h
  obtain ⟨grafted, k, rfl, -⟩ := injectCompanions_grafted injected hx n
  refine grafted.trans (markWith_grafted marked fun id hid => ?_)
  exact Nat.le_trans old (List.mem_range'_1.mp hid).1

theorem runCompanionPasses_grafted {ps : List CompanionPass} {injected : List Injected}
    (h : (c.runCompanionPasses budget x ps).result = .done (c', injected)) (hx : x.Within c.target)
    (old : n ≤ c.target.size) : c.Grafted n c' := by
  induction ps generalizing c x injected with
  | nil =>
      obtain ⟨rfl, -⟩ := runCompanionPasses_nil_eq_done.mp h
      exact .refl n c'
  | cons p ps ih =>
      obtain ⟨c₁, x₁, i, others, first, rest, -⟩ := runCompanionPasses_cons_eq_done.mp h
      have grafted := runCompanionPass_grafted first hx old
      exact grafted.trans
        (ih rest (runCompanionPass_grows first hx).2.1 (Nat.le_trans old grafted.target.hosts.size))

end inject

/-! ## Whole passes -/

/-- A pass that ends in a value has added fields and then run the companion passes. -/
theorem postProcess_eq_done {c : Context} {budget : Nat} {config : Config} {image : Image}
    {fields : List AuthoringField} {injected : List Injected} {difference : Difference} :
    (c.postProcess budget config).result = .done (image, fields, injected, difference) ↔
      ∃ fs c', c.plannedFor budget config = .done fs ∧
        ((c.applyFields fs).1.runCompanionPasses budget (Index.build c.target)
          (config.contracts.passes config.injectInspectorEditors)).result = .done (c', injected) ∧
        image = c'.target ∧ fields = (c.applyFields fs).2.map (·.1) ∧
        difference = Index.diff (Index.build c.target) (Index.build c'.target) := by
  rw [postProcess_result, Attempt.bind_eq_done]
  constructor
  · rintro ⟨fs, planned, h⟩
    obtain ⟨⟨c', injected'⟩, passes, h⟩ := Attempt.bind_eq_done.mp h
    simp only [Attempt.done.injEq, Prod.mk.injEq] at h
    obtain ⟨rfl, rfl, rfl, rfl⟩ := h
    exact ⟨fs, c', planned, passes, rfl, rfl, rfl⟩
  · rintro ⟨fs, c', planned, passes, rfl, rfl, rfl⟩
    exact ⟨fs, planned, Attempt.bind_eq_done.mpr ⟨(c', injected), passes, rfl⟩⟩

/-- A whole pass extends its target by the fields that it reports, all of them on old nodes. -/
theorem postProcess_extends {c : Context} {budget : Nat} {config : Config} {image : Image}
    {fields : List AuthoringField} {injected : List Injected} {difference : Difference}
    (h : (c.postProcess budget config).result = .done (image, fields, injected, difference)) :
    Extends c.target.size c.target fields image ∧ ∀ f ∈ fields, f.owner < c.target.size := by
  obtain ⟨fs, c', planned, passes, rfl, rfl, -⟩ := postProcess_eq_done.mp h
  have applied := applyFields_extends c.target.size c fs
  have within := (Index.build_within c.target).grows (applyFields_grows c fs).1
  have grafted := runCompanionPasses_grafted passes within applied.size
  refine ⟨applied.before grafted.target.hosts.extends, fun f hf => ?_⟩
  exact Index.build_within c.target _ (planned_owner planned f (applyFields_subset f hf))

end Context
end Companions
