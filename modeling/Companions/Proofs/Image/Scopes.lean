import Companions.Proofs.Image.Graft
/-!
What a node mentions. Every type reference in it is put together from declared types, each in an
assembly, and an image is complete if it refers to all these assemblies. References are only ever
added, so what is covered stays covered.
-/
namespace Companions

namespace TypeRef

mutual

/-- The assemblies of the declared types in the reference. -/
def scopes : TypeRef → List String
  | .named s _ => [s]
  | .generic e as => e.scopes ++ scopesAll as
  | .array e => e.scopes
  | .param .. => []

def scopesAll : List TypeRef → List String
  | [] => []
  | a :: as => a.scopes ++ scopesAll as

end

theorem scopesAll_eq_flatMap (as : List TypeRef) : scopesAll as = as.flatMap scopes := by
  induction as with
  | nil => rfl
  | cons a as ih => rw [scopesAll, ih, List.flatMap_cons]

end TypeRef

/-! ## The references in a node -/

def MethodRef.typeRefs (r : MethodRef) : List TypeRef := r.declaringType :: r.returnType :: r.parameters

def Instruction.typeRefs : Instruction → List TypeRef
  | .call r => r.typeRefs
  | .loadThis | .ret => []

def Method.typeRefs (k : Method) : List TypeRef :=
  k.returnType :: k.parameters.map (·.type) ++ k.body.flatMap (·.typeRefs)

def AttributeValue.typeRefs : AttributeValue → List TypeRef
  | .type t => [t]
  | .string _ | .int _ | .bool _ => []

def CustomAttribute.typeRefs (a : CustomAttribute) : List TypeRef :=
  a.constructor.typeRefs ++ a.arguments.flatMap fun x => x.type :: x.value.typeRefs

/-- Base, interfaces, and the types of fields, methods and attributes. -/
def TypeDef.typeRefs (d : TypeDef) : List TypeRef :=
  d.base.toList ++ d.interfaces ++ d.fields.map (·.type) ++ d.methods.flatMap (·.typeRefs) ++
    d.attributes.flatMap (·.typeRefs)

/-- What methods return, and the signatures of the constructors that attributes are made with. -/
def TypeDef.borrowed (d : TypeDef) : List TypeRef :=
  d.methods.map (·.returnType) ++
    d.attributes.flatMap fun a => a.constructor.returnType :: a.constructor.parameters

theorem TypeDef.mem_typeRefs_of_borrowed {d : TypeDef} {t : TypeRef} (h : t ∈ d.borrowed) :
    t ∈ d.typeRefs := by
  rcases List.mem_append.mp h with returned | signature
  · obtain ⟨k, hk, rfl⟩ := List.mem_map.mp returned
    have mem : k.returnType ∈ d.methods.flatMap (·.typeRefs) :=
      List.mem_flatMap.mpr ⟨k, hk, List.mem_cons_self⟩
    exact List.mem_append_left _ (List.mem_append_right _ mem)
  · obtain ⟨a, ha, mem⟩ := List.mem_flatMap.mp signature
    have mem : t ∈ a.typeRefs := List.mem_append_left _ (List.mem_cons_of_mem _ mem)
    exact List.mem_append_right _ (List.mem_flatMap.mpr ⟨a, ha, mem⟩)

theorem TypeDef.Extends.mem_typeRefs {d d' : TypeDef} {added : List Field} (h : d.Extends added d')
    {t : TypeRef} : t ∈ d'.typeRefs ↔ t ∈ d.typeRefs ∨ ∃ f ∈ added, f.type = t := by
  rw [h.same]
  simp only [typeRefs, List.map_append, List.mem_append, List.mem_map, or_assoc, or_comm,
    or_left_comm]

namespace Image
variable {n : Nat} {m m' : Image}

/-- The image refers to all assemblies that the reference mentions. -/
def Covers (m : Image) (t : TypeRef) : Prop := ∀ s ∈ t.scopes, m.Refers s

def ReferenceComplete (m : Image) : Prop := ∀ d ∈ m.types, ∀ t ∈ d.typeRefs, m.Covers t

instance (m : Image) (name : String) : Decidable (m.Refers name) :=
  inferInstanceAs (Decidable (_ ∨ _))

instance (m : Image) (t : TypeRef) : Decidable (m.Covers t) :=
  inferInstanceAs (Decidable (∀ s ∈ t.scopes, m.Refers s))

instance (m : Image) : Decidable m.ReferenceComplete :=
  inferInstanceAs (Decidable (∀ d ∈ m.types, ∀ t ∈ d.typeRefs, m.Covers t))

theorem covers_named {s f : String} : m.Covers (.named s f) ↔ m.Refers s := by
  simp [Covers, TypeRef.scopes]

theorem covers_generic {e : TypeRef} {as : List TypeRef} :
    m.Covers (.generic e as) ↔ m.Covers e ∧ ∀ a ∈ as, m.Covers a := by
  simp only [Covers, TypeRef.scopes, TypeRef.scopesAll_eq_flatMap, List.mem_append,
    List.mem_flatMap]
  constructor
  · intro h
    exact ⟨fun s hs => h s (.inl hs), fun a ha s hs => h s (.inr ⟨a, ha, hs⟩)⟩
  · rintro ⟨element, arguments⟩ s (hs | ⟨a, ha, hs⟩)
    · exact element s hs
    · exact arguments a ha s hs

theorem covers_referenceTo (m : Image) (id : TypeId) : m.Covers (m.referenceTo id) :=
  covers_named.mpr (.inl rfl)

theorem covers_type {f : AuthoringField} : m.Covers f.type ↔ m.Covers f.component := by
  unfold AuthoringField.type
  cases f.storage <;> exact Iff.rfl

theorem Extends.refers {fs : List AuthoringField} (h : m.Extends n fs m') {name : String}
    (refers : m.Refers name) : m'.Refers name := by
  rcases refers with own | ⟨i, known, named⟩
  · exact .inl (h.identity ▸ own)
  · exact .inr ⟨i, h.references.subset known, named⟩

theorem Extends.covers {fs : List AuthoringField} (h : m.Extends n fs m') {t : TypeRef}
    (covers : m.Covers t) : m'.Covers t := by
  intro s hs
  exact h.refers (covers s hs)

/-- The added fields are all that the old nodes of a complete image may lack. -/
theorem ReferenceComplete.old_iff {fs : List AuthoringField} (complete : m.ReferenceComplete)
    (h : m.Extends m.size fs m') (owned : ∀ f ∈ fs, f.owner < m.size) :
    (∀ id < m.size, ∀ d, m'.get? id = some d → ∀ t ∈ d.typeRefs, m'.Covers t) ↔
      ∀ f ∈ fs, m'.Covers f.component := by
  constructor
  · intro covered f hf
    obtain ⟨d, d', -, node', grown⟩ := h.old (owned f hf)
    have declared : f.declaration ∈ AuthoringField.declarations f.owner fs :=
      AuthoringField.mem_declarations.mpr ⟨f, hf, rfl, rfl⟩
    have mentioned : f.type ∈ d'.typeRefs := grown.mem_typeRefs.mpr (.inr ⟨_, declared, rfl⟩)
    exact covers_type.mp (covered f.owner (owned f hf) d' node' _ mentioned)
  · intro components id old d' node' t mentioned
    obtain ⟨d, d'', node, same, grown⟩ := h.old old
    obtain rfl := Option.some.inj (node'.symm.trans same)
    rcases grown.mem_typeRefs.mp mentioned with kept | ⟨_, added, rfl⟩
    · exact h.covers (complete d (List.mem_of_getElem? node) t kept)
    · obtain ⟨f, hf, -, rfl⟩ := AuthoringField.mem_declarations.mp added
      exact covers_type.mpr (components f hf)

end Image
end Companions
