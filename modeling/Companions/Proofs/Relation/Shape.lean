import Companions.Authoring
import Companions.Companion
import Companions.Marker
import Companions.Proofs.TypeRef
import Companions.Proofs.Table
import Companions.Proofs.Image.Shape
/-!
What passes find depends on the shapes of the images alone: supertypes, base chains, assignability,
and with them the source types and the constructors that are looked for.
-/
namespace Companions

namespace Resolved

def shape (r : Resolved) : Resolved := ⟨r.image.shape, r.id, r.node.shape⟩

@[simp] theorem shape_identity (r : Resolved) : r.shape.image.identity = r.image.identity := rfl
@[simp] theorem shape_base (r : Resolved) : r.shape.node.base = r.node.base := rfl
@[simp] theorem shape_interfaces (r : Resolved) : r.shape.node.interfaces = r.node.interfaces := rfl
@[simp] theorem shape_constructors (r : Resolved) :
    r.shape.node.constructors = r.node.constructors := rfl

end Resolved

namespace Context

/-- The context with the shapes of its images. -/
def shape (c : Context) : Context where
  target := c.target.shape
  references := c.references.map Image.shape

@[simp] theorem shape_target (c : Context) : c.shape.target = c.target.shape := rfl

@[simp] theorem images_shape (c : Context) : c.shape.images = c.images.map Image.shape := by
  simp [images, shape]

@[simp] theorem image?_shape (c : Context) (scope : String) :
    c.shape.image? scope = (c.image? scope).map Image.shape := by
  rw [image?, image?, shape_target, Image.shape_name]
  split
  · rfl
  · exact Table.get?_map ..

/-! ## Relations -/

@[simp] theorem resolve?_shape (c : Context) (t : TypeRef) :
    c.shape.resolve? t = (c.resolve? t).map Resolved.shape := by
  induction t with
  | named s f =>
      simp only [resolve?, image?_shape]
      cases c.image? s with
      | none => rfl
      | some m =>
          simp only [Option.map_some, Option.bind_eq_bind, Option.bind_some, Image.find?_shape]
          cases m.find? f with
          | none => rfl
          | some id =>
              simp only [Option.bind_some, Image.get?_shape]
              cases m.get? id <;> rfl
  | generic e as ih _ => exact ih
  | array e => rfl
  | param p n => rfl

@[simp] theorem supertypes_shape (c : Context) (t : TypeRef) :
    c.shape.supertypes t = c.supertypes t := by
  rw [supertypes, supertypes, resolve?_shape]
  cases c.resolve? t <;> rfl

@[simp] theorem base?_shape (c : Context) (t : TypeRef) : c.shape.base? t = c.base? t := by
  rw [base?, base?, resolve?_shape]
  cases c.resolve? t <;> rfl

@[simp] theorem declaredInTarget_shape (c : Context) (t : TypeRef) :
    c.shape.declaredInTarget t = c.declaredInTarget t := by
  cases t with
  | named s f =>
      rw [declaredInTarget, declaredInTarget, resolve?_shape, Option.isSome_map, shape_target,
        Image.shape_name]
  | _ => rfl

@[simp] theorem bases_shape (c : Context) : c.shape.bases = c.bases := by
  simp only [bases, images_shape, List.flatMap_map, Image.shape, List.filterMap_map,
    Function.comp_def, TypeDef.shape_base]

theorem chainFrom_shape (c : Context) (n : Nat) (seen : List String) (t : TypeRef) :
    c.shape.chainFrom n seen t = c.chainFrom n seen t := by
  induction n generalizing seen t with
  | zero => rfl
  | succ n ih => simp only [chainFrom, base?_shape, ih]

@[simp] theorem baseChain_shape (c : Context) (t : TypeRef) : c.shape.baseChain t = c.baseChain t := by
  rw [baseChain, baseChain, bases_shape, chainFrom_shape]

theorem walk_shape (c : Context) (target : TypeRef) (fits : TypeRef → Option Verdict) (n : Nat)
    (visited : List String) (pending : List TypeRef) :
    c.shape.walk target fits n visited pending = c.walk target fits n visited pending := by
  induction n generalizing visited pending with
  | zero => cases pending <;> rfl
  | succ n ih =>
      cases pending with
      | nil => rfl
      | cons t pending => simp only [walk, supertypes_shape, ih]

@[simp] theorem checkAt_shape (c : Context) (budget levels : Nat) :
    c.shape.checkAt budget levels = c.checkAt budget levels := by
  induction levels with
  | zero => rfl
  | succ n ih =>
      funext s t
      rw [checkAt, checkAt, ih, walk_shape]

variable {ε : Type}

@[simp] theorem assignable_shape (c : Context) (budget : Nat) (s t : TypeRef) :
    (c.shape.assignable budget s t : Pass ε Bool) = c.assignable budget s t := by
  simp only [assignable, assignable?, checkAt_shape]

@[simp] theorem ancestors_shape (c : Context) (t : TypeRef) :
    (c.shape.ancestors t : Pass ε (List TypeRef)) = c.ancestors t := by
  simp only [ancestors, baseChain_shape]

/-! ## What passes look for -/

@[simp] theorem genericBases_shape (c : Context) (x : Index) :
    (x.genericBases c.shape : Pass ε (List TypeRef)) = x.genericBases c := by
  simp only [Index.genericBases, shape_target, Image.referenceTo_shape, ancestors_shape]

theorem companionless_shape (c : Context) (budget : Nat) (x : Index) (q : CompanionRequest) :
    c.shape.companionless budget x q = c.companionless budget x q := by
  simp only [companionless, sources, accompanied, shape_target, Image.referenceTo_shape,
    assignable_shape, genericBases_shape]

theorem templateConstructor_shape (c : Context) (q : CompanionRequest) :
    c.shape.templateConstructor q = c.templateConstructor q := by
  rw [templateConstructor, templateConstructor, resolve?_shape]
  cases c.resolve? q.template <;> rfl

/-! ## Contexts of one shape -/

section

variable {c d : Context} (same : c.shape = d.shape)

include same

theorem declaredInTarget_congr (t : TypeRef) : c.declaredInTarget t = d.declaredInTarget t := by
  rw [← declaredInTarget_shape, same, declaredInTarget_shape]

theorem companionless_congr (budget : Nat) (x : Index) (q : CompanionRequest) :
    c.companionless budget x q = d.companionless budget x q := by
  rw [← companionless_shape, same, companionless_shape]

theorem templateConstructor_congr (q : CompanionRequest) :
    c.templateConstructor q = d.templateConstructor q := by
  rw [← templateConstructor_shape, same, templateConstructor_shape]

end

end Context
end Companions
