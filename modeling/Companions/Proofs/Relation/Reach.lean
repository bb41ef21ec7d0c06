import Mathlib.Logic.Relation
import Companions.Relation.Assignable
import Companions.Proofs.UniqueName
import Companions.Proofs.Table
/-!
Declared supertypes as a relation, and what can be reached through them. Neither sees the names
of parameters, and in a context whose declarations are plain neither leaves the plain references.
-/
namespace Companions.Context

/-! ## Contexts -/

/-- Every declared base and interface. -/
def declared (c : Context) : List TypeRef :=
  c.images.flatMap fun m => m.types.flatMap fun d => d.base.toList ++ d.interfaces

/-- Every declared base and interface is a plain reference. -/
def isPlain (c : Context) : Bool := c.declared.all TypeRef.isPlain

theorem image?_target (c : Context) : c.image? c.target.name = some c.target := if_pos rfl

theorem image?_mem {c : Context} {scope : String} {m : Image} (h : c.image? scope = some m) :
    m ∈ c.images := by
  rw [image?] at h
  split at h
  · cases h
    exact List.mem_cons_self
  · exact List.mem_cons_of_mem _ (Table.mem_values h)

theorem resolve?_named {c : Context} {s f : String} {r : Resolved}
    (h : c.resolve? (.named s f) = some r) :
    c.image? s = some r.image ∧ r.image.find? f = some r.id ∧ r.image.get? r.id = some r.node := by
  simp only [resolve?, Option.bind_eq_bind, Option.bind_eq_some_iff, Option.pure_def,
    Option.some.injEq] at h
  obtain ⟨m, hm, id, hid, d, hd, rfl⟩ := h
  exact ⟨hm, hid, hd⟩

theorem resolve?_of_get? {c : Context} {s f : String} {m : Image} {id : TypeId} {d : TypeDef}
    (image : c.image? s = some m) (entry : m.find? f = some id) (node : m.get? id = some d) :
    c.resolve? (.named s f) = some ⟨m, id, d⟩ := by
  simp only [resolve?, image, entry, node, Option.bind_eq_bind, Option.bind_some, Option.pure_def]

/-- What a reference resolves to is a node of the image it was found in. -/
theorem resolve?_mem {c : Context} {t : TypeRef} {r : Resolved} (h : c.resolve? t = some r) :
    r.image ∈ c.images ∧ r.node ∈ r.image.types := by
  induction t with
  | named s f =>
      obtain ⟨image, -, node⟩ := resolve?_named h
      exact ⟨image?_mem image, List.mem_of_getElem? node⟩
  | generic e as ih _ => exact ih h
  | array e => cases h
  | param p n => cases h

theorem mem_declared {c : Context} {t d : TypeRef} {r : Resolved} (hr : c.resolve? t = some r)
    (hd : r.node.base = some d ∨ d ∈ r.node.interfaces) : d ∈ c.declared := by
  obtain ⟨image, node⟩ := resolve?_mem hr
  refine List.mem_flatMap.mpr ⟨_, image, List.mem_flatMap.mpr ⟨_, node, ?_⟩⟩
  rcases hd with base | interface
  · exact List.mem_append_left _ (by simp [base])
  · exact List.mem_append_right _ interface

/-- Resolution sees no names of parameters. -/
theorem resolve?_positional (c : Context) (t : TypeRef) :
    c.resolve? t.positional = c.resolve? t := by
  induction t with
  | named s f => rfl
  | generic e as ih _ => rw [TypeRef.positional_generic, resolve?, resolve?, ih]
  | array e => rfl
  | param p n => rfl

theorem resolve?_congr (c : Context) {s t : TypeRef} (h : s.positional = t.positional) :
    c.resolve? s = c.resolve? t := by
  rw [← resolve?_positional c s, h, resolve?_positional]

/-! ## Steps and runs -/

/-- One step up: `s` resolves, and `u` is the base or an interface of its node, bound to the
arguments of `s` and not nested too deep. -/
def Supertype (c : Context) (s u : TypeRef) : Prop :=
  ∃ r d, c.resolve? s = some r ∧ (r.node.base = some d ∨ d ∈ r.node.interfaces) ∧
    u = d.substitute s.arguments ∧ u.nesting ≤ maxGenericDepth

/-- Any number of steps up. -/
def Reaches (c : Context) : TypeRef → TypeRef → Prop := Relation.ReflTransGen c.Supertype

theorem mem_supertypes {c : Context} {s u : TypeRef} :
    u ∈ c.supertypes s ↔ ∃ r d, c.resolve? s = some r ∧
      (r.node.base = some d ∨ d ∈ r.node.interfaces) ∧ u = d.substitute s.arguments := by
  unfold supertypes
  cases c.resolve? s with
  | none => simp
  | some r =>
      simp only [List.mem_map, List.mem_append, Option.mem_toList, Option.some.injEq,
        exists_and_left, exists_eq_left']
      constructor
      · rintro ⟨d, hd, rfl⟩
        exact ⟨d, hd, rfl⟩
      · rintro ⟨d, hd, rfl⟩
        exact ⟨d, hd, rfl⟩

theorem supertype_iff {c : Context} {s u : TypeRef} :
    c.Supertype s u ↔ u ∈ c.supertypes s ∧ u.nesting ≤ maxGenericDepth := by
  rw [mem_supertypes]
  constructor
  · rintro ⟨r, d, hr, hd, hu, deep⟩
    exact ⟨⟨r, d, hr, hd, hu⟩, deep⟩
  · rintro ⟨⟨r, d, hr, hd, hu⟩, deep⟩
    exact ⟨r, d, hr, hd, hu, deep⟩

/-- `u` is a base or an interface of `s`, bound to the arguments of `s`, however deep it nests. -/
def Inherits (c : Context) (s u : TypeRef) : Prop := u ∈ c.supertypes s

/-- A step from a reference is a step from any other that differs in names of parameters. -/
theorem Inherits.congr {c : Context} {s t u : TypeRef} (h : c.Inherits s u)
    (same : s.positional = t.positional) :
    ∃ v, c.Inherits t v ∧ u.positional = v.positional := by
  obtain ⟨r, d, hr, hd, rfl⟩ := mem_supertypes.mp h
  have bound := TypeRef.positional_substitute same d
  refine ⟨d.substitute t.arguments, mem_supertypes.mpr ⟨r, d, ?_, hd, rfl⟩, bound⟩
  rw [← resolve?_congr c same, hr]

theorem Inherits.plain {c : Context} (hc : c.isPlain) {s u : TypeRef} (hs : s.isPlain)
    (h : c.Inherits s u) : u.isPlain := by
  obtain ⟨r, d, hr, hd, rfl⟩ := mem_supertypes.mp h
  exact TypeRef.isPlain_bind (fun a ha => TypeRef.isPlain_arguments hs ha)
    (List.all_eq_true.mp hc d (mem_declared hr hd))

theorem Supertype.inherits {c : Context} {s u : TypeRef} (h : c.Supertype s u) : c.Inherits s u :=
  (supertype_iff.mp h).1

theorem Supertype.congr {c : Context} {s t u : TypeRef} (h : c.Supertype s u)
    (same : s.positional = t.positional) :
    ∃ v, c.Supertype t v ∧ u.positional = v.positional := by
  obtain ⟨up, deep⟩ := supertype_iff.mp h
  obtain ⟨v, up, bound⟩ := Inherits.congr up same
  refine ⟨v, supertype_iff.mpr ⟨up, ?_⟩, bound⟩
  rw [← TypeRef.nesting_positional, ← bound, TypeRef.nesting_positional]
  exact deep

theorem Reaches.congr {c : Context} {s t u : TypeRef} (h : c.Reaches s u)
    (same : s.positional = t.positional) : ∃ v, c.Reaches t v ∧ u.positional = v.positional := by
  induction h with
  | refl => exact ⟨t, .refl, same⟩
  | tail _ step ih =>
      obtain ⟨v, run, names⟩ := ih
      obtain ⟨w, last, bound⟩ := step.congr names
      exact ⟨w, run.tail last, bound⟩

theorem Supertype.plain {c : Context} (hc : c.isPlain) {s u : TypeRef} (hs : s.isPlain)
    (h : c.Supertype s u) : u.isPlain := h.inherits.plain hc hs

theorem Reaches.plain {c : Context} (hc : c.isPlain) {s u : TypeRef} (hs : s.isPlain)
    (h : c.Reaches s u) : u.isPlain := by
  induction h with
  | refl => exact hs
  | tail _ step ih => exact step.plain hc ih

end Companions.Context
