import Companions.PostProcess
import Companions.Proofs.Pass
import Companions.Proofs.Relation.Shape
import Companions.Proofs.Image.Edit
/-!
Idle passes: passes that add neither fields nor companions. They touch the target at most, so
each of them finds what the first one would find, and whether all are idle is decided by the
context they start in.
-/
namespace Companions

/-! ## Fields -/

namespace Image

/-- The owner, if there is one, has a field of that name. -/
def HasField (m : Image) (f : AuthoringField) : Prop :=
  ∀ d, m.get? f.owner = some d → (d.field? f.name).isSome

theorem addAuthoringField?_eq_none {m : Image} {f : AuthoringField} :
    m.addAuthoringField? f = none ↔ m.HasField f := by
  simp only [addAuthoringField?, HasField, Option.bind_eq_bind]
  cases m.get? f.owner with
  | none => simp
  | some d => simp [Option.isSome_iff_ne_none]

theorem hasField_markSerializable (m : Image) (component : TypeRef) (f : AuthoringField) :
    (m.markSerializable component).HasField f ↔ m.HasField f := by
  cases leads : component.fullName.bind m.find? with
  | none => rw [markSerializable_none leads]
  | some id =>
      simp only [HasField, markSerializable_some leads, get?_update]
      split
      · simp only [Option.map_eq_some_iff, forall_exists_index, and_imp,
          forall_apply_eq_imp_iff₂]
        rfl
      · rfl

end Image

namespace Context

variable {ε : Type}

/-- All fields that the authoring types of the index are to have. -/
def planned (c : Context) (budget : Nat) (x : Index) (templates : List TypeRef)
    (rules : List ContractRule) : Pass ε (List AuthoringField) := do
  let authoring ← c.authoringTypes templates x
  let fields ← Pass.forAll (fun (id, b) => c.plannedFields budget rules id b) authoring
  return fields.flatten

theorem addFields_result (c : Context) (budget : Nat) (x : Index) (templates : List TypeRef)
    (rules : List ContractRule) :
    (c.addFields budget x templates rules : Pass ε _).result =
      (c.planned budget x templates rules : Pass ε _).result.bind fun fs =>
        .done ((c.applyFields fs).1, (c.applyFields fs).2.map (·.1)) := by
  simp only [addFields, planned, Pass.result_within, Pass.result_bind, Pass.result_say,
    Attempt.bind_done, Attempt.bind_assoc, Pass.result_pure]

/-- A context with the same references whose target was touched. -/
structure Touched (c c' : Context) : Prop where
  references : c'.references = c.references
  target : Image.Touches c.target c'.target

theorem Touched.refl (c : Context) : c.Touched c := ⟨rfl, .refl⟩

theorem Touched.trans {c c' c'' : Context} (h : c.Touched c') (h' : c'.Touched c'') :
    c.Touched c'' :=
  ⟨h'.references.trans h.references, h.target.trans h'.target⟩

theorem Touched.shape {c c' : Context} (h : c.Touched c') : c'.shape = c.shape := by
  rw [Context.shape, Context.shape, h.target.shape, h.references]

theorem touched_addReference (c : Context) (i : Identity) :
    c.Touched { c with target := c.target.addReference i } :=
  ⟨rfl, .single (.refer c.target i)⟩

/-- The context in which a field is added: its component is flagged by then. -/
def marked (c : Context) (f : AuthoringField) : Context :=
  { c with target :=
      if c.declaredInTarget f.component then c.target.markSerializable f.component else c.target }

theorem touched_marked (c : Context) (f : AuthoringField) : c.Touched (c.marked f) := by
  refine ⟨rfl, ?_⟩
  unfold marked
  split
  · exact .single (.mark ..)
  · exact .refl

theorem hasField_marked (c : Context) (f g : AuthoringField) :
    (c.marked f).target.HasField g ↔ c.target.HasField g := by
  unfold marked
  split
  · exact Image.hasField_markSerializable ..
  · exact Iff.rfl

theorem applyField_none {c : Context} {f : AuthoringField} (h : c.target.HasField f) :
    c.applyField f = (c.marked f, none) := by
  have none := Image.addAuthoringField?_eq_none.mpr ((hasField_marked c f f).mpr h)
  rw [marked] at none
  rw [applyField, none, marked]

theorem applyField_snd_eq_none {c : Context} {f : AuthoringField} :
    (c.applyField f).2 = none ↔ c.target.HasField f := by
  constructor
  · intro h
    rw [← hasField_marked c f f, ← Image.addAuthoringField?_eq_none, marked]
    rw [applyField] at h
    split at h
    · assumption
    · cases h
  · exact fun h => congrArg Prod.snd (applyField_none h)

theorem applyFields_snd_eq_nil {c : Context} {fs : List AuthoringField} :
    (c.applyFields fs).2 = [] ↔ ∀ f ∈ fs, c.target.HasField f := by
  induction fs generalizing c with
  | nil => simp [applyFields]
  | cons f fs ih =>
      simp only [applyFields, List.append_eq_nil_iff, Option.toList_eq_nil_iff, List.forall_mem_cons,
        applyField_snd_eq_none]
      refine and_congr_right fun has => ?_
      rw [applyField_none has, ih]
      exact forall₂_congr fun g _ => hasField_marked c f g

/-- Without new fields the target is touched, and every component that it declares is flagged. -/
theorem applyFields_touched {c : Context} {fs : List AuthoringField}
    (h : ∀ f ∈ fs, c.target.HasField f) :
    c.Touched (c.applyFields fs).1 ∧
      ∀ f ∈ fs, c.declaredInTarget f.component → (c.applyFields fs).1.target.Flagged f.component := by
  induction fs generalizing c with
  | nil => exact ⟨.refl c, by simp⟩
  | cons f fs ih =>
      obtain ⟨has, others⟩ := List.forall_mem_cons.mp h
      obtain ⟨touched, flagged⟩ := ih (c := c.marked f)
        fun g hg => (hasField_marked c f g).mpr (others g hg)
      rw [applyFields, applyField_none has]
      refine ⟨(touched_marked c f).trans touched, List.forall_mem_cons.mpr ⟨fun own => ?_, ?_⟩⟩
      · refine touched.target.flagged ?_
        rw [marked, if_pos own]
        exact Image.flagged_markSerializable c.target f.component
      · intro g hg own
        refine flagged g hg ?_
        rw [declaredInTarget_congr (touched_marked c f).shape]
        exact own

theorem applyFields_eq_self {c : Context} {fs : List AuthoringField}
    (h : ∀ f ∈ fs, c.target.HasField f)
    (flagged : ∀ f ∈ fs, c.declaredInTarget f.component → c.target.Flagged f.component) :
    (c.applyFields fs).1 = c := by
  induction fs with
  | nil => rfl
  | cons f fs ih =>
      obtain ⟨has, others⟩ := List.forall_mem_cons.mp h
      obtain ⟨first, rest⟩ := List.forall_mem_cons.mp flagged
      have same : c.marked f = c := by
        unfold marked
        split
        · next own => rw [Image.markSerializable_eq_self (first own)]
        · rfl
      rw [applyFields, applyField_none has, same]
      exact ih others rest

/-! ## Companions -/

/-- The full name that the companion of a source type is to have. -/
def companionName (c : Context) (q : CompanionRequest) (source : TypeId × TypeRef) : String :=
  Name.nest (c.target.fullName source.1)
    (((c.target.get? source.1).map (·.name)).getD "" ++ q.suffix)

/-- Some node has the full name already. -/
def Taken (c : Context) (q : CompanionRequest) (source : TypeId × TypeRef) : Prop :=
  (c.target.find? (c.companionName q source)).isSome

theorem companionName_shape (c : Context) (q : CompanionRequest) (source : TypeId × TypeRef) :
    c.shape.companionName q source = c.companionName q source := by
  simp only [companionName, shape_target, Image.fullName_shape, Image.get?_shape, Option.map_map,
    Function.comp_def, TypeDef.shape_name]

theorem taken_shape (c : Context) (q : CompanionRequest) (source : TypeId × TypeRef) :
    c.shape.Taken q source ↔ c.Taken q source := by
  rw [Taken, Taken, companionName_shape, shape_target, Image.find?_shape]

theorem taken_congr {c d : Context} (same : c.shape = d.shape) (q : CompanionRequest)
    (source : TypeId × TypeRef) : c.Taken q source ↔ d.Taken q source := by
  rw [← taken_shape, same, taken_shape]

theorem injectOne_taken {c : Context} (x : Index) {q : CompanionRequest} (base : Method)
    {source : TypeId × TypeRef} (h : c.Taken q source) :
    (c.injectOne x q base source).context = c ∧ (c.injectOne x q base source).index = x ∧
      (c.injectOne x q base source).id = none := by
  rw [Taken, companionName] at h
  rw [injectOne, if_pos h]
  exact ⟨rfl, rfl, rfl⟩

theorem injectOne_id_eq_none {c : Context} {x : Index} {q : CompanionRequest} {base : Method}
    {source : TypeId × TypeRef} :
    (c.injectOne x q base source).id = none ↔ c.Taken q source := by
  constructor
  · intro h
    rw [injectOne] at h
    split at h
    · assumption
    · cases h
  · exact fun h => (injectOne_taken x base h).2.2

/-- Nothing is injected exactly if every name is taken, and then nothing changes. -/
theorem injectAll_idle {c : Context} {x : Index} {q : CompanionRequest} {base : Method}
    {sources : List (TypeId × TypeRef)} :
    (c.injectAll x q base sources).2.2.1 = [] ↔ ∀ s ∈ sources, c.Taken q s := by
  induction sources generalizing c x with
  | nil => simp [injectAll]
  | cons s ss ih =>
      simp only [injectAll, List.append_eq_nil_iff, Option.toList_eq_nil_iff, List.forall_mem_cons,
        injectOne_id_eq_none]
      refine and_congr_right fun taken => ?_
      obtain ⟨context, index, -⟩ := injectOne_taken x base taken
      rw [context, index, ih]

theorem injectAll_taken {c : Context} (x : Index) {q : CompanionRequest} (base : Method)
    {sources : List (TypeId × TypeRef)} (h : ∀ s ∈ sources, c.Taken q s) :
    (c.injectAll x q base sources).1 = c ∧ (c.injectAll x q base sources).2.1 = x := by
  induction sources with
  | nil => exact ⟨rfl, rfl⟩
  | cons s ss ih =>
      obtain ⟨taken, others⟩ := List.forall_mem_cons.mp h
      obtain ⟨context, index, -⟩ := injectOne_taken x base taken
      simp only [injectAll, context, index]
      exact ih others

/-- What fails in a companion pass comes before all that changes something. -/
theorem injectCompanions_result (c : Context) (budget : Nat) (x : Index) (q : CompanionRequest) :
    (c.injectCompanions budget x q).result =
      ((c.companionless budget x q).result.bind fun unused =>
        if unused.isEmpty then .done (c, x, [])
        else (c.templateConstructor q).result.bind fun k =>
          let all := { c with target := c.target.addReference k.2 }.injectAll x q k.1 unused
          .done (all.1, all.2.1, all.2.2.1)).mapError fun e => ⟨(c, x), e⟩ := by
  rw [injectCompanions, Pass.result_within, Pass.result_bind, Pass.result_leaving,
    Attempt.mapError_bind]
  congr 1
  funext unused
  split
  · rfl
  · rw [Pass.result_bind, Pass.result_leaving, Attempt.mapError_bind]
    rfl

/-- A companion pass has nothing to do, or it refers to the assembly of the template and injects. -/
theorem injectCompanions_eq_done {c c' : Context} {budget : Nat} {x x' : Index}
    {q : CompanionRequest} {ids : List TypeId} :
    (c.injectCompanions budget x q).result = .done (c', x', ids) ↔
      (c.companionless budget x q).result = .done [] ∧ c' = c ∧ x' = x ∧ ids = [] ∨
      ∃ unused base assembly all, (c.companionless budget x q).result = .done unused ∧ unused ≠ [] ∧
        (c.templateConstructor q).result = .done (base, assembly) ∧
        { c with target := c.target.addReference assembly }.injectAll x q base unused = all ∧
        c' = all.1 ∧ x' = all.2.1 ∧ ids = all.2.2.1 := by
  rw [injectCompanions_result, Attempt.mapError_eq_done, Attempt.bind_eq_done]
  constructor
  · rintro ⟨unused, demand, h⟩
    cases unused with
    | nil =>
        cases h
        exact .inl ⟨demand, rfl, rfl, rfl⟩
    | cons s ss =>
        obtain ⟨⟨base, assembly⟩, template, h⟩ := Attempt.bind_eq_done.mp h
        simp only [Attempt.done.injEq, Prod.mk.injEq] at h
        obtain ⟨rfl, rfl, rfl⟩ := h
        exact .inr ⟨_, base, assembly, _, demand, by simp, template, rfl, rfl, rfl, rfl⟩
  · rintro (⟨demand, rfl, rfl, rfl⟩ |
      ⟨unused, base, assembly, _, demand, some, template, rfl, rfl, rfl, rfl⟩)
    · exact ⟨[], demand, rfl⟩
    · refine ⟨unused, demand, ?_⟩
      rw [if_neg (by simpa using some), template]
      rfl

/-- A companion pass that finds every name taken, and what it leaves. -/
inductive IdleInjection (c : Context) (budget : Nat) (x : Index) (q : CompanionRequest) :
    Context → Prop where
  | nothing (demand : (c.companionless budget x q).result = .done []) :
      IdleInjection c budget x q c
  | taken {unused : List (TypeId × TypeRef)} {base : Method} {assembly : Identity}
      (demand : (c.companionless budget x q).result = .done unused) (some : unused ≠ [])
      (template : (c.templateConstructor q).result = .done (base, assembly))
      (taken : ∀ s ∈ unused, c.Taken q s) :
      IdleInjection c budget x q { c with target := c.target.addReference assembly }

theorem IdleInjection.touched {c c' : Context} {budget : Nat} {x : Index} {q : CompanionRequest}
    (h : c.IdleInjection budget x q c') : c.Touched c' := by
  cases h with
  | nothing => exact .refl c
  | taken => exact touched_addReference ..

/-- Contexts of one shape are idle together. -/
theorem IdleInjection.congr {c c' d : Context} {budget : Nat} {x : Index} {q : CompanionRequest}
    (h : c.IdleInjection budget x q c') (same : c.shape = d.shape) :
    ∃ d', d.IdleInjection budget x q d' := by
  cases h with
  | nothing demand =>
      rw [companionless_congr same] at demand
      exact ⟨d, .nothing demand⟩
  | taken demand some template taken =>
      rw [companionless_congr same] at demand
      rw [templateConstructor_congr same] at template
      exact ⟨_, .taken demand some template fun s hs => (taken_congr same q s).mp (taken s hs)⟩

theorem injectCompanions_idle {c c' : Context} {budget : Nat} {x x' : Index}
    {q : CompanionRequest} :
    (c.injectCompanions budget x q).result = .done (c', x', []) ↔
      x' = x ∧ c.IdleInjection budget x q c' := by
  have same (i : Identity) : { c with target := c.target.addReference i }.shape = c.shape :=
    (touched_addReference c i).shape
  rw [injectCompanions_eq_done]
  constructor
  · rintro (⟨demand, rfl, rfl, -⟩ |
      ⟨unused, base, assembly, _, demand, some, template, rfl, rfl, rfl, ids⟩)
    · exact ⟨rfl, .nothing demand⟩
    · have taken := injectAll_idle.mp ids.symm
      obtain ⟨context, index⟩ := injectAll_taken x base taken
      rw [context, index]
      exact ⟨rfl, .taken demand some template fun t ht =>
        (taken_congr (same assembly) q t).mp (taken t ht)⟩
  · rintro ⟨rfl, h⟩
    cases h with
    | nothing demand => exact .inl ⟨demand, rfl, rfl, rfl⟩
    | @taken unused base assembly demand some template taken =>
        have taken' (s) (hs : s ∈ unused) := (taken_congr (same assembly) q s).mpr (taken s hs)
        obtain ⟨context, index⟩ := injectAll_taken x' base taken'
        exact .inr ⟨unused, base, assembly, _, demand, some, template, rfl, context.symm, index.symm,
          (injectAll_idle.mpr taken').symm⟩

/-- The marker, if there is one, on each of the nodes. -/
def markWith (c : Context) (budget : Nat) (marker : Option TypeRef) (ids : List TypeId) :
    Pass SynthesisError Context :=
  match marker with
  | none => pure c
  | some marker => c.markAll budget marker ids

theorem runCompanionPass_result (c : Context) (budget : Nat) (x : Index) (p : CompanionPass) :
    (c.runCompanionPass budget x p).result =
      ((c.injectCompanions budget x p.request).result.mapError (·.error)).bind fun (c, x, ids) =>
        (c.markWith budget p.marker ids).result.bind fun c =>
          .done (c, x, ⟨p.request.suffix, ids.map c.target.fullName⟩) := by
  rw [runCompanionPass, Pass.result_bind, Pass.result_mapError]
  congr 1
  funext ⟨c, x, ids⟩
  cases p.marker with
  | none => rfl
  | some marker => exact Pass.result_bind ..

@[simp] theorem markWith_nil (c : Context) (budget : Nat) (marker : Option TypeRef) :
    (c.markWith budget marker []).result = .done c := by
  cases marker <;> rfl

theorem runCompanionPass_idle {c c' : Context} {budget : Nat} {x x' : Index} {p : CompanionPass}
    {i : Injected} :
    (c.runCompanionPass budget x p).result = .done (c', x', i) ∧ i.types = [] ↔
      x' = x ∧ i = ⟨p.request.suffix, []⟩ ∧ c.IdleInjection budget x p.request c' := by
  rw [runCompanionPass_result, Attempt.bind_eq_done]
  simp only [Attempt.mapError_eq_done]
  constructor
  · rintro ⟨⟨⟨c₁, x₁, ids⟩, injected, marking⟩, none⟩
    obtain ⟨c₂, marked, h⟩ := Attempt.bind_eq_done.mp marking
    simp only [Attempt.done.injEq, Prod.mk.injEq] at h
    obtain ⟨rfl, rfl, rfl⟩ := h
    obtain rfl := List.map_eq_nil_iff.mp none
    obtain rfl := Attempt.done.inj ((markWith_nil ..).symm.trans marked)
    obtain ⟨rfl, idle⟩ := injectCompanions_idle.mp injected
    exact ⟨rfl, rfl, idle⟩
  · rintro ⟨rfl, rfl, idle⟩
    exact ⟨⟨(c', x', []), injectCompanions_idle.mpr ⟨rfl, idle⟩, by simp⟩, rfl⟩

/-- Companion passes that are idle one after the other. -/
inductive IdlePasses (budget : Nat) (x : Index) : Context → List CompanionPass → Context → Prop where
  | nil (c : Context) : IdlePasses budget x c [] c
  | cons {c c' c'' : Context} {p : CompanionPass} {ps : List CompanionPass}
      (first : c.IdleInjection budget x p.request c') (rest : IdlePasses budget x c' ps c'') :
      IdlePasses budget x c (p :: ps) c''

theorem runCompanionPasses_idle {c c' : Context} {budget : Nat} {x : Index}
    {ps : List CompanionPass} :
    (∃ injected, (c.runCompanionPasses budget x ps).result = .done (c', injected) ∧
      ∀ i ∈ injected, i.types = []) ↔ IdlePasses budget x c ps c' := by
  induction ps generalizing c with
  | nil =>
      constructor
      · rintro ⟨injected, h, -⟩
        cases h
        exact .nil _
      · rintro ⟨⟩
        exact ⟨[], rfl, by simp⟩
  | cons p ps ih =>
      simp only [runCompanionPasses, Pass.result_bind, Attempt.bind_eq_done, Pass.result_pure]
      constructor
      · rintro ⟨injected, ⟨⟨c₁, x₁, i⟩, first, ⟨c₂, rest⟩, others, h⟩, idle⟩
        simp only [Attempt.done.injEq, Prod.mk.injEq] at h
        obtain ⟨rfl, rfl⟩ := h
        obtain ⟨none, idle⟩ := List.forall_mem_cons.mp idle
        obtain ⟨rfl, -, injection⟩ := runCompanionPass_idle.mp ⟨first, none⟩
        exact .cons injection (ih.mp ⟨rest, others, idle⟩)
      · intro h
        cases h with
        | cons first rest =>
            obtain ⟨injected, others, idle⟩ := ih.mpr rest
            obtain ⟨run, none⟩ := runCompanionPass_idle.mpr ⟨rfl, rfl, first⟩
            exact ⟨_, ⟨_, run, _, others, rfl⟩, List.forall_mem_cons.mpr ⟨none, idle⟩⟩

theorem IdlePasses.touched {c c' : Context} {budget : Nat} {x : Index} {ps : List CompanionPass}
    (h : IdlePasses budget x c ps c') : c.Touched c' := by
  induction h with
  | nil c => exact .refl c
  | cons first _ ih => exact first.touched.trans ih

/-- As idle passes keep the shape, each of them is idle in the context they start in. -/
theorem idlePasses_iff {c : Context} {budget : Nat} {x : Index} {ps : List CompanionPass} :
    (∃ c', IdlePasses budget x c ps c') ↔ ∀ p ∈ ps, ∃ c', c.IdleInjection budget x p.request c' := by
  induction ps generalizing c with
  | nil => exact ⟨fun _ => by simp, fun _ => ⟨c, .nil c⟩⟩
  | cons p ps ih =>
      rw [List.forall_mem_cons]
      constructor
      · rintro ⟨_, h⟩
        cases h with
        | cons first rest =>
            refine ⟨⟨_, first⟩, fun p hp => ?_⟩
            obtain ⟨_, idle⟩ := ih.mp ⟨_, rest⟩ p hp
            exact idle.congr first.touched.shape
      · rintro ⟨⟨c', first⟩, others⟩
        have idle (p) (hp : p ∈ ps) : ∃ d, c'.IdleInjection budget x p.request d := by
          obtain ⟨_, idle⟩ := others p hp
          exact idle.congr first.touched.shape.symm
        obtain ⟨_, rest⟩ := ih.mpr idle
        exact ⟨_, .cons first rest⟩

/-! ## Whole passes -/

/-- The fields that a whole pass over the context plans. -/
def plannedFor (c : Context) (budget : Nat) (config : Config) :
    Attempt SynthesisError (List AuthoringField) :=
  (c.planned budget (Index.build c.target) config.contracts.templates config.contracts.rules).result

theorem postProcess_result (c : Context) (budget : Nat) (config : Config) :
    (c.postProcess budget config).result =
      (c.plannedFor budget config).bind fun fs =>
      ((c.applyFields fs).1.runCompanionPasses budget (Index.build c.target)
        (config.contracts.passes config.injectInspectorEditors)).result.bind fun (c', injected) =>
      .done (c'.target, (c.applyFields fs).2.map (·.1), injected,
        Index.diff (Index.build c.target) (Index.build c'.target)) := by
  simp only [postProcess, plannedFor, Pass.result_bind, Pass.result_say, Pass.result_pure, Attempt.bind_done,
    addFields_result, Attempt.bind_assoc]

theorem postProcess_of_passes {c c' : Context} {budget : Nat} {config : Config}
    {fs : List AuthoringField} {injected : List Injected}
    (planned : c.plannedFor budget config = .done fs)
    (passes : ((c.applyFields fs).1.runCompanionPasses budget (Index.build c.target)
      (config.contracts.passes config.injectInspectorEditors)).result = .done (c', injected)) :
    (c.postProcess budget config).result = .done (c'.target, (c.applyFields fs).2.map (·.1),
      injected, Index.diff (Index.build c.target) (Index.build c'.target)) := by
  rw [postProcess_result, planned, Attempt.bind_done, passes, Attempt.bind_done]

/-- A whole pass over the context adds nothing: every planned field is there, and every companion
pass finds all names taken. -/
structure Idle (c : Context) (budget : Nat) (config : Config) : Prop where
  fields : ∃ fs, c.plannedFor budget config = .done fs ∧ ∀ f ∈ fs, c.target.HasField f
  companions : ∀ p ∈ config.contracts.passes config.injectInspectorEditors,
    ∃ c', c.IdleInjection budget (Index.build c.target) p.request c'

end Context

theorem Index.diff_self (x : Index) : Index.diff x x = ⟨[], []⟩ := by
  have known : x.names.filter (fun n => !x.contains n) = [] := by
    refine List.filter_eq_nil_iff.mpr fun n hn => ?_
    rw [Index.contains, Table.contains_iff.mpr hn]
    simp
  rw [diff, known, List.mergeSort_nil]

namespace Context

/-- What an idle pass over a context does. -/
theorem postProcess_idle {c : Context} {budget : Nat} {config : Config} {image : Image}
    {injected : List Injected} {difference : Difference}
    (h : (c.postProcess budget config).result = .done (image, [], injected, difference))
    (none : ∀ i ∈ injected, i.types = []) :
    difference = ⟨[], []⟩ ∧ ∃ fs c', c.plannedFor budget config = .done fs ∧
      (∀ f ∈ fs, c.target.HasField f) ∧
      IdlePasses budget (Index.build c.target) (c.applyFields fs).1
        (config.contracts.passes config.injectInspectorEditors) c' ∧ image = c'.target := by
  rw [postProcess_result, Attempt.bind_eq_done] at h
  obtain ⟨fs, planned, h⟩ := h
  obtain ⟨⟨c', injected'⟩, passes, h⟩ := Attempt.bind_eq_done.mp h
  simp only [Attempt.done.injEq, Prod.mk.injEq] at h
  obtain ⟨rfl, added, rfl, rfl⟩ := h
  have fields := applyFields_snd_eq_nil.mp (List.map_eq_nil_iff.mp added)
  have idle := runCompanionPasses_idle.mp ⟨_, passes, none⟩
  refine ⟨?_, fs, c', planned, fields, idle, rfl⟩
  have touched := (applyFields_touched fields).1.trans idle.touched
  rw [← Index.build_shape c'.target, touched.target.shape, Index.build_shape, Index.diff_self]

theorem postProcess_idle_iff {c : Context} {budget : Nat} {config : Config} :
    (∃ image injected difference,
      (c.postProcess budget config).result = .done (image, [], injected, difference) ∧
        ∀ i ∈ injected, i.types = []) ↔ c.Idle budget config := by
  constructor
  · rintro ⟨image, injected, difference, h, none⟩
    obtain ⟨-, fs, c', planned, fields, idle, -⟩ := postProcess_idle h none
    refine ⟨⟨fs, planned, fields⟩, fun p hp => ?_⟩
    obtain ⟨_, injection⟩ := idlePasses_iff.mp ⟨_, idle⟩ p hp
    exact injection.congr (applyFields_touched fields).1.shape
  · rintro ⟨⟨fs, planned, fields⟩, companions⟩
    have touched := (applyFields_touched fields).1
    have idle (p) (hp : p ∈ config.contracts.passes config.injectInspectorEditors) :
        ∃ c', (c.applyFields fs).1.IdleInjection budget (Index.build c.target) p.request c' := by
      obtain ⟨_, injection⟩ := companions p hp
      exact injection.congr touched.shape.symm
    obtain ⟨c', passes⟩ := idlePasses_iff.mpr idle
    obtain ⟨injected, run, none⟩ := runCompanionPasses_idle.mpr passes
    refine ⟨c'.target, injected, Index.diff (Index.build c.target) (Index.build c'.target), ?_, none⟩
    rw [postProcess_of_passes planned run, applyFields_snd_eq_nil.mpr fields]
    rfl

end Context
end Companions
