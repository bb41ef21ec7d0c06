import Companions.PostProcess
import Companions.Proofs.Pass
import Companions.Proofs.Relation.Shape
/-!
Passes over contexts with one target, whose other images are of the same shapes, agree in all that
they write down, add and give back.
-/
namespace Companions

namespace Pass

variable {ε α β γ δ : Type}

/-- Two passes write down the same and end alike, in related values. -/
inductive Agree (R : α → β → Prop) : Pass ε α → Pass ε β → Prop where
  | done {j : Journal} {a : α} {b : β} (h : R a b) : Agree R ⟨j, .done a⟩ ⟨j, .done b⟩
  | failed {j : Journal} {e : ε} : Agree R ⟨j, .failed e⟩ ⟨j, .failed e⟩
  | unfinished {j : Journal} : Agree R ⟨j, .unfinished⟩ ⟨j, .unfinished⟩

theorem agree_pure {R : α → β → Prop} {a : α} {b : β} (h : R a b) :
    Agree R (pure a : Pass ε α) (pure b) := .done h

theorem agree_self (p : Pass ε α) : Agree Eq p p := by
  obtain ⟨j, a | e | _⟩ := p
  · exact .done rfl
  · exact .failed
  · exact .unfinished

theorem Agree.eq {p q : Pass ε α} (h : Agree Eq p q) : p = q := by
  cases h with
  | done same => rw [same]
  | failed => rfl
  | unfinished => rfl

theorem Agree.bind {R : α → β → Prop} {S : γ → δ → Prop} {p : Pass ε α} {q : Pass ε β}
    {f : α → Pass ε γ} {g : β → Pass ε δ} (h : Agree R p q)
    (next : ∀ a b, R a b → Agree S (f a) (g b)) : Agree S (p >>= f) (q >>= g) := by
  cases h with
  | @done j a b related =>
      have next := next a b related
      change Agree S ⟨j ++ (f a).journal, (f a).result⟩ ⟨j ++ (g b).journal, (g b).result⟩
      generalize f a = x at next
      generalize g b = y at next
      cases next with
      | done related => exact .done related
      | failed => exact .failed
      | unfinished => exact .unfinished
  | failed => exact .failed
  | unfinished => exact .unfinished

/-- After the same step, related passes are related. -/
theorem Agree.after {S : γ → δ → Prop} (p : Pass ε α) {f : α → Pass ε γ} {g : α → Pass ε δ}
    (next : ∀ a, Agree S (f a) (g a)) : Agree S (p >>= f) (p >>= g) := by
  refine (agree_self p).bind ?_
  rintro a _ rfl
  exact next a

theorem Agree.within {R : α → β → Prop} {p : Pass ε α} {q : Pass ε β} (h : Agree R p q)
    (span : Span) : Agree R (p.within span) (q.within span) := by
  cases h with
  | done related => exact .done related
  | failed => exact .failed
  | unfinished => exact .unfinished

end Pass

namespace Context

variable {ε : Type}

/-! ## What is planned -/

@[simp] theorem authoringTypes_shape (c : Context) (templates : List TypeRef) (x : Index) :
    (c.shape.authoringTypes templates x : Pass ε _) = c.authoringTypes templates x := by
  simp only [authoringTypes, authoringInstance?, ancestor?, baseChain_shape, shape_target,
    Image.referenceTo_shape]

@[simp] theorem plannedFields_shape (c : Context) (budget : Nat) (rules : List ContractRule)
    (owner : TypeId) (bound : TypeRef) :
    (c.shape.plannedFields budget rules owner bound : Pass ε _) =
      c.plannedFields budget rules owner bound := by
  simp only [plannedFields, storageOf, classify, assignable_shape]

theorem markerConstructor_shape (c : Context) (budget : Nat) (marker : TypeRef)
    (arguments : List TypeRef) : c.shape.markerConstructor budget marker arguments =
      c.markerConstructor budget marker arguments := by
  have takes : c.shape.takes budget arguments = c.takes budget arguments := by
    have accepts : c.shape.accepts budget = c.accepts budget := by
      funext pair
      simp only [Context.accepts, assignable_shape]
    funext m
    simp only [Context.takes, accepts]
  rw [markerConstructor, markerConstructor, resolve?_shape, takes]
  cases c.resolve? marker <;> rfl

/-- Contexts with one target and references of the same shapes. -/
structure Alike (c d : Context) : Prop where
  target : c.target = d.target
  references : c.references.map Image.shape = d.references.map Image.shape

variable {c d : Context}

theorem Alike.shape (h : c.Alike d) : c.shape = d.shape := by
  rw [Context.shape, Context.shape, h.target, h.references]

theorem Alike.retarget (h : c.Alike d) {m m' : Image} (same : m = m') :
    Alike { c with target := m } { d with target := m' } := ⟨same, h.references⟩

/-- Contexts that are alike, and equal values beside them. -/
def AlikeWith {β : Type} (x y : Context × β) : Prop := x.1.Alike y.1 ∧ x.2 = y.2

theorem Alike.with (h : c.Alike d) {β : Type} (b : β) : AlikeWith (c, b) (d, b) := ⟨h, rfl⟩

/-! ## Fields -/

theorem applyField_alike (h : c.Alike d) (f : AuthoringField) :
    AlikeWith (c.applyField f) (d.applyField f) := by
  rw [applyField, applyField, declaredInTarget_congr h.shape, h.target]
  split <;> exact (h.retarget rfl).with _

theorem applyFields_alike (h : c.Alike d) (fs : List AuthoringField) :
    AlikeWith (c.applyFields fs) (d.applyFields fs) := by
  induction fs generalizing c d with
  | nil => exact h.with []
  | cons f fs ih =>
      obtain ⟨first, added⟩ := applyField_alike h f
      obtain ⟨others, rest⟩ := ih first
      refine ⟨others, ?_⟩
      simp only [applyFields]
      rw [added, rest]

theorem addFields_alike (h : c.Alike d) (budget : Nat) (x : Index) (templates : List TypeRef)
    (rules : List ContractRule) :
    Pass.Agree AlikeWith (c.addFields budget x templates rules : Pass ε _)
      (d.addFields budget x templates rules) := by
  have types : (c.authoringTypes templates x : Pass ε _) = d.authoringTypes templates x := by
    rw [← authoringTypes_shape, h.shape, authoringTypes_shape]
  have fields (owner : TypeId) (bound : TypeRef) :
      (c.plannedFields budget rules owner bound : Pass ε _) =
        d.plannedFields budget rules owner bound := by
    rw [← plannedFields_shape, h.shape, plannedFields_shape]
  simp only [addFields, types, fields, h.target]
  refine Pass.Agree.within ?_ _
  refine .after _ fun authoring => .after _ fun _ => .after _ fun _ => .after _ fun planned => ?_
  obtain ⟨alike, added⟩ := applyFields_alike h planned.flatten
  rw [added]
  exact .after _ fun _ => Pass.agree_pure (alike.with _)

/-! ## Companions -/

theorem injectAll_alike (h : c.Alike d) (x : Index) (q : CompanionRequest) (base : Method)
    (sources : List (TypeId × TypeRef)) :
    AlikeWith (c.injectAll x q base sources) (d.injectAll x q base sources) := by
  induction sources generalizing c d x with
  | nil => exact h.with _
  | cons source sources ih =>
      have first :
          (c.injectOne x q base source).context.Alike (d.injectOne x q base source).context ∧
          (c.injectOne x q base source).index = (d.injectOne x q base source).index ∧
          (c.injectOne x q base source).id = (d.injectOne x q base source).id ∧
          (c.injectOne x q base source).journal = (d.injectOne x q base source).journal := by
        simp only [injectOne, h.target]
        split
        · exact ⟨h, rfl, rfl, rfl⟩
        · exact ⟨h.retarget rfl, rfl, rfl, rfl⟩
      obtain ⟨alike, index, id, journal⟩ := first
      have others := ih alike (c.injectOne x q base source).index
      simp only [injectAll, ← index, ← id, ← journal]
      generalize (c.injectOne x q base source).context.injectAll _ q base sources = y at others ⊢
      generalize (d.injectOne x q base source).context.injectAll _ q base sources = z at others ⊢
      obtain ⟨c, rest⟩ := y
      obtain ⟨d, _⟩ := z
      obtain ⟨alike, rfl⟩ := others
      exact alike.with _

theorem injectCompanions_alike (h : c.Alike d) (budget : Nat) (x : Index) (q : CompanionRequest) :
    Pass.Agree AlikeWith ((c.injectCompanions budget x q).mapError (·.error))
      ((d.injectCompanions budget x q).mapError (·.error)) := by
  simp only [injectCompanions, companionless_congr h.shape, templateConstructor_congr h.shape]
  refine Pass.Agree.within (p := Pass.mapError _ _) (q := Pass.mapError _ _) ?_ _
  rw [Pass.mapError_bind, Pass.mapError_bind, Pass.mapError_leaving, Pass.mapError_leaving]
  refine .after _ fun unused => ?_
  split
  · exact Pass.agree_pure (h.with _)
  · rw [Pass.mapError_bind, Pass.mapError_bind, Pass.mapError_leaving, Pass.mapError_leaving]
    refine .after _ fun template => ?_
    have refers := h.retarget (congrArg (·.addReference template.2) h.target)
    have injects := injectAll_alike refers x q template.1 unused
    generalize Context.injectAll _ x q template.1 unused = y at injects ⊢
    generalize Context.injectAll _ x q template.1 unused = z at injects ⊢
    obtain ⟨c, rest⟩ := y
    obtain ⟨d, _⟩ := z
    obtain ⟨alike, rfl⟩ := injects
    exact .done (alike.with _)

theorem attach_alike (h : c.Alike d) (budget : Nat) (owner : TypeId) (marker : TypeRef)
    (arguments : List TypeRef) :
    Pass.Agree Alike ((c.attach budget owner marker arguments).mapError (·.error))
      ((d.attach budget owner marker arguments).mapError (·.error)) := by
  have found : c.markerConstructor budget marker arguments =
      d.markerConstructor budget marker arguments := by
    rw [← markerConstructor_shape, h.shape, markerConstructor_shape]
  simp only [attach, found, h.target]
  rw [Pass.mapError_bind, Pass.mapError_bind, Pass.mapError_leaving, Pass.mapError_leaving]
  refine .after _ fun x => ?_
  split
  · exact .done (h.retarget rfl)
  · exact .failed

theorem markAll_alike (h : c.Alike d) (budget : Nat) (marker : TypeRef) (ids : List TypeId) :
    Pass.Agree Alike (c.markAll budget marker ids) (d.markAll budget marker ids) := by
  induction ids generalizing c d with
  | nil => exact Pass.agree_pure h
  | cons id ids ih =>
      simp only [markAll, accompaniedType?, h.target]
      split
      · exact ih h
      · refine .after _ fun _ => (attach_alike h budget id marker _).bind fun c d alike => ih alike

theorem runCompanionPass_alike (h : c.Alike d) (budget : Nat) (x : Index) (p : CompanionPass) :
    Pass.Agree AlikeWith (c.runCompanionPass budget x p) (d.runCompanionPass budget x p) := by
  refine (injectCompanions_alike h budget x p.request).bind ?_
  rintro ⟨c, x, ids⟩ ⟨d, _⟩ ⟨alike, rfl⟩
  have ended {c d : Context} (alike : c.Alike d) : Pass.Agree AlikeWith
      (pure (c, x, Injected.mk p.request.suffix (ids.map c.target.fullName)) :
        Pass SynthesisError _)
      (pure (d, x, Injected.mk p.request.suffix (ids.map d.target.fullName))) := by
    rw [alike.target]
    exact Pass.agree_pure (alike.with _)
  dsimp only
  cases p.marker with
  | none => exact (Pass.agree_pure alike).bind fun c d alike => ended alike
  | some marker => exact (markAll_alike alike budget marker ids).bind fun c d alike => ended alike

theorem runCompanionPasses_alike (h : c.Alike d) (budget : Nat) (x : Index)
    (ps : List CompanionPass) :
    Pass.Agree AlikeWith (c.runCompanionPasses budget x ps) (d.runCompanionPasses budget x ps) := by
  induction ps generalizing c d x with
  | nil => exact Pass.agree_pure (h.with _)
  | cons p ps ih =>
      refine (runCompanionPass_alike h budget x p).bind ?_
      rintro ⟨c, x, injected⟩ ⟨d, _⟩ ⟨alike, rfl⟩
      refine (ih alike x).bind ?_
      rintro ⟨c, rest⟩ ⟨d, _⟩ ⟨alike, rfl⟩
      exact Pass.agree_pure (alike.with _)

/-- Over contexts that are alike a pass comes to the same, its journal included. -/
theorem postProcess_congr (h : c.Alike d) (budget : Nat) (config : Config) :
    c.postProcess budget config = d.postProcess budget config := by
  refine Pass.Agree.eq ?_
  simp only [postProcess, h.target]
  refine .after _ fun _ => (addFields_alike h budget _ _ _).bind ?_
  rintro ⟨c, fields⟩ ⟨d, _⟩ ⟨alike, rfl⟩
  refine (runCompanionPasses_alike alike budget _ _).bind ?_
  rintro ⟨c, injected⟩ ⟨d, _⟩ ⟨alike, rfl⟩
  rw [show c.target = d.target from alike.target]
  exact Pass.agree_self _

end Context
end Companions
