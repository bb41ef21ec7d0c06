import Companions.Proofs.Frame
import Companions.Proofs.Grouping
import Companions.Proofs.Image.Nesting
import Companions.Proofs.Likeness
import Companions.Proofs.Selection
/-!
Which fields a pass adds. The plan is a function of shapes: an indexed type that has an instance of a
template among its ancestors is to have one field for each component of the first such instance.
Fields and flags are no part of a shape, so a second plan is the first one, and nothing is left of
it to do.
-/
namespace Companions

namespace TypeRef

/-- An instantiation of one of the templates. -/
def Instantiates (t : TypeRef) (templates : List TypeRef) : Prop :=
  ∃ e as, t = .generic e as ∧ ∃ template ∈ templates, template.definitionName = e.uniqueName

theorem instantiates_iff {t : TypeRef} {templates : List TypeRef} : t.Instantiates templates ↔
    (t.isGeneric && t.definitionName ∈ templates.map (·.definitionName)) = true := by
  rw [Bool.and_eq_true, decide_eq_true_eq, List.mem_map]
  constructor
  · rintro ⟨e, as, rfl, listed⟩
    exact ⟨rfl, listed⟩
  · rintro ⟨generic, listed⟩
    cases t with
    | generic e as => exact ⟨e, as, rfl, listed⟩
    | _ => cases generic

instance (t : TypeRef) (templates : List TypeRef) : Decidable (t.Instantiates templates) :=
  decidable_of_iff _ instantiates_iff.symm

end TypeRef

namespace AuthoringField

theorem nameAt_injective {i j : Nat} (same : nameAt i = nameAt j) : i = j := by
  have numbered (n : Nat) : "Value" ≠ "Value" ++ Nat.repr n := by
    intro h
    rw [← String.toList_inj] at h
    simp [Nat.repr] at h
  unfold nameAt at same
  split at same <;> split at same
  · omega
  · exact absurd same (numbered _)
  · exact absurd same.symm (numbered _)
  · have digits : Nat.toDigits 10 (i + 1) = Nat.toDigits 10 (j + 1) := by
      simpa [← String.toList_inj, Nat.repr] using same
    exact Nat.succ.inj (Text.decimal_injective digits)

end AuthoringField

namespace Context

/-! ## The plan -/

section plan

variable {ε : Type} {c : Context} {budget : Nat} {templates : List TypeRef}
  {rules : List ContractRule} {x : Index}

/-- The first instantiation of a template in the base chain of the node. -/
def boundOf? (c : Context) (templates : List TypeRef) (id : TypeId) : Option TypeRef :=
  (c.baseChain (c.target.referenceTo id)).items.find? fun b => b.Instantiates templates

open scoped Classical in
/-- How the first rule says whose predicate the component is assignable to; without one, as a single
value. -/
noncomputable def storageFor (c : Context) (rules : List ContractRule) (component : TypeRef) :
    Storage :=
  ((rules.find? fun r => c.Assignable component r.predicate).map (·.storage)).getD .single

/-- One field for each component that is bound, equal ones side by side. -/
noncomputable def fieldsOf (c : Context) (rules : List ContractRule) (owner : TypeId)
    (bound : TypeRef) : List AuthoringField :=
  (TypeRef.byName bound.arguments).zipIdx.map fun (component, i) =>
    ⟨owner, AuthoringField.nameAt i, component, c.storageFor rules component⟩

/-- The fields that the node is to have. -/
noncomputable def fieldsFor (c : Context) (templates : List TypeRef) (rules : List ContractRule)
    (id : TypeId) : List AuthoringField :=
  ((c.boundOf? templates id).map (c.fieldsOf rules id)).getD []

theorem storageOf_done {component : TypeRef} {storage : Storage}
    (h : (c.storageOf budget rules component : Pass ε _).result = .done storage) :
    storage = c.storageFor rules component := by
  obtain ⟨first, classified, h⟩ := Pass.bind_eq_done.mp h
  obtain ⟨rule, search, classified⟩ := Pass.bind_eq_done.mp classified
  obtain rfl := Attempt.done.inj classified
  have found := Pass.first?_eq_find? (fun r holds => assignable_done) search
  rw [storageFor, ← found]
  cases rule with
  | none =>
      rw [Option.map_none, Pass.result_say_bind] at h
      exact (Attempt.done.inj h).symm
  | some r => exact (Attempt.done.inj h).symm

theorem storageOf_ends {component : TypeRef}
    (ends : ∀ r ∈ rules, (c.assignable? budget component r.predicate).isSome) :
    ∃ storage, (c.storageOf budget rules component : Pass ε _).result = .done storage := by
  have each (r) (listed : r ∈ rules) : ∃ holds,
      (c.assignable budget component r.predicate : Pass ε Bool).result = .done holds := by
    obtain ⟨v, verdict⟩ := Option.isSome_iff_exists.mp (ends r listed)
    exact ⟨v.holds, by rw [assignable_result, verdict]; rfl⟩
  obtain ⟨rule, search⟩ := Pass.first?_ends each
  rw [storageOf, classify, Pass.result_bind, Pass.result_bind, search]
  cases rule with
  | none => exact ⟨.single, rfl⟩
  | some r => exact ⟨r.storage, rfl⟩

theorem storageOf_not_failed (component : TypeRef) (e : ε) :
    (c.storageOf budget rules component : Pass ε _).result ≠ .failed e := by
  intro h
  obtain classified | ⟨first, -, h⟩ := Pass.bind_eq_failed.mp h
  · obtain search | ⟨rule, -, none⟩ := Pass.bind_eq_failed.mp classified
    · obtain ⟨r, -, failed⟩ := Pass.first?_failed search
      exact assignable_not_failed budget component r.predicate e failed
    · cases none
  · cases first <;> cases h

theorem authoringTypes_result : (c.authoringTypes templates x : Pass ε _).result =
    .done (x.ids.filterMap fun id => (c.boundOf? templates id).map (id, ·)) := by
  have each (id : TypeId) : ((do
      let bound ← c.authoringInstance? (templates.map (·.definitionName)) (c.target.referenceTo id)
      return bound.map fun b => (id, b)) : Pass ε _).result =
        .done ((c.boundOf? templates id).map (id, ·)) := by
    have same : c.boundOf? templates id = (c.baseChain (c.target.referenceTo id)).items.find?
        fun b => b.isGeneric && b.definitionName ∈ templates.map (·.definitionName) := by
      rw [boundOf?]
      congr 1
      funext b
      rw [Bool.eq_iff_iff, decide_eq_true_eq]
      exact TypeRef.instantiates_iff
    rw [Pass.result_bind, authoringInstance?, ancestor?_result, ← same]
    rfl
  rw [authoringTypes, Pass.result_bind, Pass.forAll_done each, Attempt.bind_done, Pass.result_pure,
    List.filterMap_map]
  rfl

theorem plannedFields_done {owner : TypeId} {bound : TypeRef} {fs : List AuthoringField}
    (h : (c.plannedFields budget rules owner bound : Pass ε _).result = .done fs) :
    fs = c.fieldsOf rules owner bound := by
  rw [plannedFields, TypeRef.grouped_eq_byName] at h
  apply Pass.forAll_eq_map _ h
  rintro ⟨component, i⟩ - f planned
  obtain ⟨storage, stored, planned⟩ := Pass.bind_eq_done.mp planned
  obtain rfl := storageOf_done stored
  exact (Attempt.done.inj planned).symm

/-- What is planned are the fields that the indexed types are to have, in the order of the index. -/
theorem planned_done {fs : List AuthoringField}
    (h : (c.planned budget x templates rules : Pass ε _).result = .done fs) :
    fs = x.ids.flatMap (c.fieldsFor templates rules) := by
  rw [planned, Pass.result_bind, authoringTypes_result, Attempt.bind_done] at h
  obtain ⟨each, planned, h⟩ := Pass.bind_eq_done.mp h
  obtain rfl := Attempt.done.inj h
  have all := Pass.forAll_eq_map (fun a _ fs => plannedFields_done) planned
  rw [all]
  induction x.ids with
  | nil => rfl
  | cons id ids ih =>
      rw [List.flatMap_cons, ← ih, fieldsFor]
      cases bound : c.boundOf? templates id with
      | none => rw [List.filterMap_cons_none (by rw [bound]; rfl)]; rfl
      | some b => rw [List.filterMap_cons_some (by rw [bound]; rfl)]; rfl

theorem planned_ends (ends : ∀ id ∈ x.ids, ∀ f ∈ c.fieldsFor templates rules id, ∀ r ∈ rules,
      (c.assignable? budget f.component r.predicate).isSome) :
    ∃ fs, (c.planned budget x templates rules : Pass ε _).result = .done fs := by
  have each (a) (ha : a ∈ x.ids.filterMap fun id => (c.boundOf? templates id).map (id, ·)) :
      ∃ fs, (c.plannedFields budget rules a.1 a.2 : Pass ε _).result = .done fs := by
    obtain ⟨id, hid, same⟩ := List.mem_filterMap.mp ha
    obtain ⟨b, bound, rfl⟩ := Option.map_eq_some_iff.mp same
    rw [plannedFields, TypeRef.grouped_eq_byName]
    apply Pass.forAll_ends
    rintro ⟨component, i⟩ listed
    have field : ⟨id, AuthoringField.nameAt i, component, c.storageFor rules component⟩ ∈
        c.fieldsFor templates rules id := by
      rw [fieldsFor, bound]
      exact List.mem_map.mpr ⟨(component, i), listed, rfl⟩
    obtain ⟨storage, stored⟩ := storageOf_ends (ε := ε) (ends id hid _ field)
    exact ⟨_, by rw [Pass.result_bind, stored]; rfl⟩
  obtain ⟨fields, planned⟩ := Pass.forAll_ends each
  rw [Context.planned, Pass.result_bind, authoringTypes_result, Attempt.bind_done, Pass.result_bind,
    planned]
  exact ⟨fields.flatten, rfl⟩

theorem planned_not_failed (e : ε) :
    (c.planned budget x templates rules : Pass ε _).result ≠ .failed e := by
  intro h
  rw [planned, Pass.result_bind, authoringTypes_result, Attempt.bind_done] at h
  obtain each | ⟨fields, -, h⟩ := Pass.bind_eq_failed.mp h
  · obtain ⟨a, -, failed⟩ := Pass.forAll_failed each
    obtain ⟨p, -, failed⟩ := Pass.forAll_failed failed
    obtain stored | ⟨storage, -, h⟩ := Pass.bind_eq_failed.mp failed
    · exact storageOf_not_failed p.1 e stored
    · cases h
  · cases h

theorem planned_congr {d : Context} (same : c.shape = d.shape) :
    (c.planned budget x templates rules : Pass ε _) = d.planned budget x templates rules := by
  have types : (c.authoringTypes templates x : Pass ε _) = d.authoringTypes templates x := by
    rw [← authoringTypes_shape, same, authoringTypes_shape]
  have fields (owner : TypeId) (bound : TypeRef) :
      (c.plannedFields budget rules owner bound : Pass ε _) =
        d.plannedFields budget rules owner bound := by
    rw [← plannedFields_shape, same, plannedFields_shape]
  simp only [planned, types, fields]

end plan

/-! ## Its execution -/

/-- The component is a plain named reference to the node of the target. -/
def Names (c : Context) (component : TypeRef) (id : TypeId) : Prop :=
  ∃ fullName, component = .named c.target.name fullName ∧ c.target.find? fullName = some id

theorem names_congr {c d : Context} (same : c.shape = d.shape) (component : TypeRef) (id : TypeId) :
    c.Names component id ↔ d.Names component id := by
  have target : c.target.shape = d.target.shape := congrArg (·.target) same
  rw [Names, Names, ← Image.shape_name c.target, target, Image.shape_name]
  have find (fullName : String) : c.target.find? fullName = d.target.find? fullName := by
    rw [← Image.find?_shape, target, Image.find?_shape]
  simp only [find]

theorem shape_applyField (c : Context) (f : AuthoringField) : (c.applyField f).1.shape = c.shape := by
  rw [shape, shape, applyField_shape, applyField_references]

theorem shape_applyFields (c : Context) (fs : List AuthoringField) :
    (c.applyFields fs).1.shape = c.shape := by
  rw [shape, shape, applyFields_shape, applyFields_references]

/-- What the target declares are the nodes that it has under the names of plain references. -/
theorem names_iff {c : Context} {component : TypeRef} {id : TypeId} {d : TypeDef}
    (node : c.target.get? id = some d) : c.Names component id ↔
      c.declaredInTarget component = true ∧ component.fullName.bind c.target.find? = some id := by
  constructor
  · rintro ⟨fullName, rfl, found⟩
    refine ⟨?_, found⟩
    have resolved : c.resolve? (.named c.target.name fullName) = some ⟨c.target, id, d⟩ := by
      simp [resolve?, image?, found, node]
    simp [declaredInTarget, resolved]
  · rintro ⟨declared, found⟩
    cases component with
    | named scope fullName =>
        rw [declaredInTarget, Bool.and_eq_true, decide_eq_true_eq] at declared
        exact ⟨fullName, by rw [declared.1], found⟩
    | _ => cases declared

open scoped Classical in
theorem get?_marked (c : Context) (f : AuthoringField) (id : TypeId) :
    (c.marked f).target.get? id = (c.target.get? id).map fun d =>
      if c.Names f.component id then { d with flags := d.flags.union .serializable } else d := by
  cases node : c.target.get? id with
  | none =>
      have outside := Image.get?_shape (c.marked f).target id
      rw [(touched_marked c f).target.shape, Image.get?_shape, node] at outside
      simpa using outside.symm
  | some d =>
      rw [Option.map_some, names_iff node, marked]
      by_cases declared : c.declaredInTarget f.component = true
      · rw [if_pos declared]
        cases leads : f.component.fullName.bind c.target.find? with
        | none => simp [Image.markSerializable_none leads, node]
        | some i =>
            rw [Image.markSerializable_some leads, Image.get?_update, node]
            by_cases same : i = id
            · rw [if_pos same, if_pos ⟨declared, by rw [same]⟩]
              rfl
            · rw [if_neg same, if_neg (by simp [same])]
      · rw [if_neg declared, if_neg (fun h => declared h.1)]
        exact node

/-- A field that its owner lacks is added once the component is flagged. -/
theorem applyField_some {c : Context} {f : AuthoringField} (h : ¬ c.target.HasField f) :
    ∃ line, c.applyField f = ({ c with target := (c.marked f).target.update f.owner fun d =>
      { d with fields := d.fields ++ [f.declaration] } }, some (f, line)) := by
  cases added : (c.marked f).target.addAuthoringField? f with
  | none => exact absurd ((hasField_marked c f f).mp (Image.addAuthoringField?_eq_none.mp added)) h
  | some found =>
      obtain ⟨m, owner⟩ := found
      obtain ⟨-, rfl⟩ := Image.addAuthoringField?_some added
      rw [marked] at added ⊢
      rw [applyField, added]
      exact ⟨_, rfl⟩

open scoped Classical in
theorem applyField_flags {c : Context} {f : AuthoringField} {id : TypeId} {d d' : TypeDef}
    (node : c.target.get? id = some d) (node' : (c.applyField f).1.target.get? id = some d') :
    d'.flags = if c.Names f.component id then d.flags.union .serializable else d.flags := by
  have marked := get?_marked c f id
  rw [node, Option.map_some] at marked
  by_cases has : c.target.HasField f
  · rw [applyField_none has, marked] at node'
    rw [← Option.some.inj node']
    split <;> rfl
  · obtain ⟨line, applied⟩ := applyField_some has
    rw [applied, Image.get?_update, marked] at node'
    split at node'
    · rw [← Option.some.inj node']
      split <;> rfl
    · rw [← Option.some.inj node']
      split <;> rfl

open scoped Classical in
/-- The nodes that components name are flagged, and no others. -/
theorem applyFields_flags {c : Context} {fs : List AuthoringField} {id : TypeId} {d d' : TypeDef}
    (node : c.target.get? id = some d) (node' : (c.applyFields fs).1.target.get? id = some d') :
    d'.flags =
      if ∃ f ∈ fs, c.Names f.component id then d.flags.union .serializable else d.flags := by
  induction fs generalizing c d with
  | nil =>
      cases node.symm.trans node'
      simp
  | cons f fs ih =>
      have extended := applyField_extends (id + 1) c f
      obtain ⟨d₁, node₁, -⟩ := extended.nodes id (Nat.lt_succ_self id) d node
      have first := applyField_flags node node₁
      have rest := ih node₁ node'
      have names (g : AuthoringField) := names_congr (shape_applyField c f) g.component id
      simp only [names] at rest
      simp only [List.mem_cons, exists_eq_or_imp]
      rw [rest, first]
      by_cases own : c.Names f.component id
      · rw [if_pos own, TypeFlags.union_self_right, ite_self, if_pos (Or.inl own)]
      · rw [if_neg own]
        simp only [own, false_or]

/-- A field more changes nothing about fields of another owner or another name. -/
theorem hasField_applyField {c : Context} {f g : AuthoringField}
    (apart : (f.owner, f.name) ≠ (g.owner, g.name)) :
    (c.applyField f).1.target.HasField g ↔ c.target.HasField g := by
  by_cases has : c.target.HasField f
  · rw [applyField_none has]
    exact hasField_marked c f g
  · obtain ⟨line, applied⟩ := applyField_some has
    rw [applied, ← hasField_marked c f g]
    simp only [Image.HasField, Image.get?_update]
    by_cases same : f.owner = g.owner
    · have other : f.name ≠ g.name := fun name => apart (by rw [same, name])
      have kept (d : TypeDef) :
          ({ d with fields := d.fields ++ [f.declaration] } : TypeDef).field? g.name =
            d.field? g.name := by
        simp [TypeDef.field?, List.find?_append, AuthoringField.declaration, Field.ofPublic, other]
      rw [if_pos same]
      simp only [Option.map_eq_some_iff, forall_exists_index, and_imp, forall_apply_eq_imp_iff₂,
        kept]
    · rw [if_neg same]

open scoped Classical in
/-- Of fields that differ in owner or name those are added that their owners lack. -/
theorem applyFields_added {c : Context} {fs : List AuthoringField}
    (distinct : (fs.map fun f => (f.owner, f.name)).Nodup) :
    (c.applyFields fs).2.map (·.1) = fs.filter fun f => ¬ c.target.HasField f := by
  induction fs generalizing c with
  | nil => rfl
  | cons f fs ih =>
      obtain ⟨once, distinct⟩ := List.nodup_cons.mp distinct
      have others : ∀ g ∈ fs, ((c.applyField f).1.target.HasField g ↔ c.target.HasField g) := by
        intro g hg
        apply hasField_applyField
        intro same
        exact once (List.mem_map.mpr ⟨g, hg, same.symm⟩)
      have rest : (((c.applyField f).1.applyFields fs).2).map (·.1) =
          fs.filter fun g => ¬ c.target.HasField g := by
        rw [ih distinct]
        apply List.filter_congr
        intro g hg
        simp only [others g hg]
      rw [applyFields, List.map_append, rest]
      by_cases has : c.target.HasField f
      · rw [List.filter_cons_of_neg (by simpa using has), applyField_none has]
        rfl
      · obtain ⟨line, applied⟩ := applyField_some has
        rw [List.filter_cons_of_pos (by simpa using has), applied]
        rfl

theorem applyFields_tidy {c : Context} (h : c.target.Tidy) (fs : List AuthoringField) :
    (c.applyFields fs).1.target.Tidy := by
  induction fs generalizing c with
  | nil => exact h
  | cons f fs ih =>
      have marked : (c.marked f).target.Tidy := by
        unfold marked
        split
        · exact h.markSerializable f.component
        · exact h
      refine ih (c := (c.applyField f).1) ?_
      rw [Context.marked] at marked
      rw [applyField]
      split
      · exact marked
      · next added => exact marked.addAuthoringField added

theorem applyField_rest (c : Context) (f : AuthoringField) :
    (c.applyField f).1.target = { c.target with types := (c.applyField f).1.target.types } := by
  have marks : (c.marked f).target = { c.target with types := (c.marked f).target.types } := by
    unfold marked Image.markSerializable
    split
    · split <;> rfl
    · rfl
  by_cases has : c.target.HasField f
  · rw [applyField_none has]
    exact marks
  · obtain ⟨line, applied⟩ := applyField_some has
    rw [applied, Image.update, marks]

theorem applyFields_rest (c : Context) (fs : List AuthoringField) :
    (c.applyFields fs).1.target = { c.target with types := (c.applyFields fs).1.target.types } := by
  induction fs generalizing c with
  | nil => rfl
  | cons f fs ih =>
      refine (ih (c.applyField f).1).trans ?_
      rw [applyField_rest c f]
      rfl

/-! ## Whole passes -/

section whole

variable {ε : Type} {c c' : Context} {budget : Nat} {templates : List TypeRef}
  {rules : List ContractRule} {x : Index} {added : List AuthoringField}

open scoped Classical in
/-- The fields that the node is to have and lacks. -/
noncomputable def missingFields (c : Context) (templates : List TypeRef) (rules : List ContractRule)
    (id : TypeId) : List AuthoringField :=
  (c.fieldsFor templates rules id).filter fun f => ¬ c.target.HasField f

theorem fieldsFor_owner {id : TypeId} : ∀ f ∈ c.fieldsFor templates rules id, f.owner = id := by
  intro f hf
  rw [fieldsFor] at hf
  cases bound : c.boundOf? templates id with
  | none =>
      rw [bound] at hf
      cases hf
  | some b =>
      rw [bound] at hf
      obtain ⟨_, -, rfl⟩ := List.mem_map.mp hf
      rfl

theorem nodup_fieldsFor (id : TypeId) :
    ((c.fieldsFor templates rules id).map fun f => (f.owner, f.name)).Nodup := by
  rw [fieldsFor]
  cases c.boundOf? templates id with
  | none => exact List.nodup_nil
  | some b =>
      have places : ((TypeRef.byName b.arguments).zipIdx.map Prod.snd).Nodup := by
        rw [List.zipIdx_map_snd]
        exact List.nodup_range'
      have named := places.map (f := fun i => (id, AuthoringField.nameAt i)) fun i j same =>
        AuthoringField.nameAt_injective (Prod.mk.inj same).2
      rw [List.map_map] at named
      rw [Option.map_some, Option.getD_some, fieldsOf, List.map_map]
      exact named

theorem nodup_fieldsFor_flatMap {ids : List TypeId} (distinct : ids.Nodup) :
    ((ids.flatMap (c.fieldsFor templates rules)).map fun f => (f.owner, f.name)).Nodup := by
  rw [List.map_flatMap, List.nodup_flatMap]
  refine ⟨fun id _ => nodup_fieldsFor id, distinct.imp fun apart => ?_⟩
  rintro key first second
  obtain ⟨f, hf, rfl⟩ := List.mem_map.mp first
  obtain ⟨g, hg, same⟩ := List.mem_map.mp second
  exact apart (by rw [← fieldsFor_owner f hf, ← fieldsFor_owner g hg, (Prod.mk.inj same).1])

/-- Of lists of fields, one for each owner, an owner is listed with its own. -/
theorem filter_owner (fields : TypeId → List AuthoringField)
    (owned : ∀ id, ∀ f ∈ fields id, f.owner = id) {ids : List TypeId} (distinct : ids.Nodup)
    (id : TypeId) :
    (ids.flatMap fields).filter (·.owner = id) = if id ∈ ids then fields id else [] := by
  induction ids with
  | nil => rfl
  | cons i ids ih =>
      obtain ⟨once, distinct⟩ := List.nodup_cons.mp distinct
      rw [List.flatMap_cons, List.filter_append, ih distinct]
      by_cases same : i = id
      · subst same
        rw [if_neg once, List.append_nil, if_pos List.mem_cons_self]
        exact List.filter_eq_self.mpr fun f hf => by simpa using owned i f hf
      · have none : (fields i).filter (·.owner = id) = [] := by
          apply List.filter_eq_nil_iff.mpr
          intro f hf
          simpa [owned i f hf] using same
        rw [none, List.nil_append]
        simp only [List.mem_cons, Ne.symm same, false_or]

/-- A component that some indexed node is to have a field for names the node. -/
def Stored (c : Context) (x : Index) (templates : List TypeRef) (rules : List ContractRule)
    (id : TypeId) : Prop :=
  ∃ owner ∈ x.ids, ∃ f ∈ c.fieldsFor templates rules owner, c.Names f.component id

open scoped Classical in
/-- What a pass over the fields leaves. Each indexed node has the fields that it lacked behind its
own, and they are what is reported, in the order of the index. The nodes that a component names are
flagged. Everything else is as it was, and no node has two fields of one name. -/
structure Fielded (c : Context) (x : Index) (templates : List TypeRef) (rules : List ContractRule)
    (added : List AuthoringField) (c' : Context) : Prop where
  added : added = x.ids.flatMap (c.missingFields templates rules)
  references : c'.references = c.references
  rest : c'.target = { c.target with types := c'.target.types }
  size : c'.target.size = c.target.size
  nodes : ∀ id d, c.target.get? id = some d → c'.target.get? id = some { d with
    fields := d.fields ++
      (if id ∈ x.ids then c.missingFields templates rules id else []).map AuthoringField.declaration
    flags := if c.Stored x templates rules id then d.flags.union .serializable else d.flags }
  tidy : c'.target.Tidy

/-- Executing the plan for nodes that the index has once each. -/
theorem applyFields_fielded {fs : List AuthoringField} (distinct : x.ids.Nodup)
    (tidy : c.target.Tidy) (planned : fs = x.ids.flatMap (c.fieldsFor templates rules)) :
    c.Fielded x templates rules ((c.applyFields fs).2.map (·.1)) (c.applyFields fs).1 := by
  classical
  have keys : (fs.map fun f => (f.owner, f.name)).Nodup := by
    rw [planned]
    exact nodup_fieldsFor_flatMap distinct
  have reported : (c.applyFields fs).2.map (·.1) =
      x.ids.flatMap (c.missingFields templates rules) := by
    rw [applyFields_added keys, planned, List.filter_flatMap]
    rfl
  have same := applyFields_shape c fs
  refine ⟨reported, applyFields_references c fs, applyFields_rest c fs, Image.size_of_shape same, ?_,
    applyFields_tidy tidy fs⟩
  intro id d node
  obtain ⟨d', node', extended⟩ :=
    (applyFields_extends (id + 1) c fs).nodes id (Nat.lt_succ_self id) d node
  obtain ⟨_, there, nested, -⟩ := Image.node_of_shape same node
  cases node'.symm.trans there
  have flags := applyFields_flags node node'
  have stored : (∃ f ∈ fs, c.Names f.component id) ↔ c.Stored x templates rules id := by
    rw [planned, Stored]
    simp only [List.mem_flatMap]
    constructor
    · rintro ⟨f, ⟨owner, indexed, hf⟩, names⟩
      exact ⟨owner, indexed, f, hf, names⟩
    · rintro ⟨owner, indexed, f, hf, names⟩
      exact ⟨f, ⟨owner, indexed, hf⟩, names⟩
  rw [if_congr stored rfl rfl] at flags
  have own := filter_owner (c.missingFields templates rules)
    (fun i f hf => fieldsFor_owner f (List.mem_filter.mp hf).1) distinct id
  rw [reported, AuthoringField.declarations, own] at extended
  rw [node', Option.some.injEq, extended.same, nested, flags]

theorem addFields_not_failed (e : ε) :
    (c.addFields budget x templates rules : Pass ε _).result ≠ .failed e := by
  rw [addFields_result]
  intro h
  obtain failed | ⟨fs, -, done⟩ := Attempt.bind_eq_failed.mp h
  · exact planned_not_failed e failed
  · cases done

/-- A pass over the fields adds exactly those that are missing, over every accepted image. It never
fails, and it ends if the checks of components against the rules do. -/
theorem addFields_exact {c : Context} (budget : Nat) (templates : List TypeRef)
    (rules : List ContractRule) (accepted : c.target.validate = .ok ()) :
    (∀ c' added, (c.addFields budget (Index.build c.target) templates rules : Pass ε _).result =
        .done (c', added) →
      c.Fielded (Index.build c.target) templates rules added c') ∧
    (∀ e, (c.addFields budget (Index.build c.target) templates rules : Pass ε _).result ≠ .failed e) ∧
    ((∀ id ∈ (Index.build c.target).ids, ∀ f ∈ c.fieldsFor templates rules id, ∀ r ∈ rules,
        (c.assignable? budget f.component r.predicate).isSome) →
      ∃ c' added, (c.addFields budget (Index.build c.target) templates rules : Pass ε _).result =
        .done (c', added)) := by
  have valid := Image.validate_ok_iff.mp accepted
  refine ⟨?_, addFields_not_failed, ?_⟩
  · intro c' added h
    rw [addFields_result] at h
    obtain ⟨fs, planned, h⟩ := Attempt.bind_eq_done.mp h
    obtain ⟨rfl, rfl⟩ := Prod.mk.inj (Attempt.done.inj h)
    refine applyFields_fielded ?_ valid.tidy (planned_done planned)
    rw [valid.ids_build]
    exact c.target.nodup_typeIds
  · intro ends
    obtain ⟨fs, planned⟩ := planned_ends (ε := ε) ends
    rw [addFields_result, planned]
    exact ⟨_, _, rfl⟩

/-- A host whose sequences of crew members are stored as arrays. -/
def shipyard : Image := .rebuildLookup {
  identity := { name := "Yard" }
  types := [
    { name := "IPart", kind := .interfaceType, flags := .isPublic },
    { name := "IMember", kind := .interfaceType, flags := .isPublic },
    { name := "Authoring`3", kind := .classType, flags := .isPublic,
      genericParams := ["A", "B", "C"] }]
  roots := [0, 1, 2] }

/-- An authoring type with three components, two of one shape, that has one of its fields already. -/
def fleet : Context := .ofImages (.rebuildLookup {
  identity := { name := "Fleet" }
  references := [{ name := "Yard" }]
  types := [
    { name := "Hull", kind := .structType, flags := .isPublic,
      interfaces := [.named "Yard" "IPart"] },
    { name := "Crew", kind := .structType, flags := .isPublic,
      interfaces := [.named "Yard" "IMember"] },
    { name := "ShipAuthoring", kind := .classType, flags := .isPublic,
      base := some (.generic (.named "Yard" "Authoring`3")
        [.named "Fleet" "Hull", .named "Fleet" "Crew", .named "Fleet" "Hull"]),
      fields := [.ofPublic "Value2" (.named "Fleet" "Hull")] }]
  roots := [0, 1, 2] }) [shipyard]

def fleetTemplates : List TypeRef := [.named "Yard" "Authoring`3"]

def fleetRules : List ContractRule :=
  [⟨.named "Yard" "IPart", .single⟩,
    ⟨.generic (.named "Yard" "Sequence`1") [.named "Yard" "IMember"], .sequence⟩]

/-- The second of the two hulls has its field; the first one and the crew get theirs. -/
theorem fleet_fielded : fleet.target.validate = .ok () ∧ ∃ c' d,
    (fleet.addFields 8 (Index.build fleet.target) fleetTemplates fleetRules :
      Pass Empty _).result = .done (c', [⟨2, "Value", .named "Fleet" "Hull", .single⟩,
        ⟨2, "Value3", .named "Fleet" "Crew", .sequence⟩]) ∧
    fleet.Fielded (Index.build fleet.target) fleetTemplates fleetRules
      [⟨2, "Value", .named "Fleet" "Hull", .single⟩,
        ⟨2, "Value3", .named "Fleet" "Crew", .sequence⟩] c' ∧
    c'.target.get? 2 = some d ∧ d.fields.map (·.name) = ["Value2", "Value", "Value3"] := by
  have accepted : fleet.target.validate = .ok () := by rfl
  obtain ⟨fielded, -, -⟩ := addFields_exact (ε := Empty) 8 fleetTemplates fleetRules accepted
  obtain ⟨c', d, run, node, names⟩ : ∃ c' d,
      (fleet.addFields 8 (Index.build fleet.target) fleetTemplates fleetRules :
        Pass Empty _).result = .done (c', [⟨2, "Value", .named "Fleet" "Hull", .single⟩,
          ⟨2, "Value3", .named "Fleet" "Crew", .sequence⟩]) ∧
      c'.target.get? 2 = some d ∧ d.fields.map (·.name) = ["Value2", "Value", "Value3"] :=
    ⟨_, _, by rfl, by rfl, by rfl⟩
  exact ⟨accepted, c', d, run, fielded c' _ run, node, names⟩

/-! ## A second time -/

theorem applyFields_hasField (c : Context) (fs : List AuthoringField) :
    ∀ f ∈ fs, (c.applyFields fs).1.target.HasField f := by
  intro f hf d node
  have inside : f.owner < c.target.size := by
    rw [← Image.size_of_shape (applyFields_shape c fs)]
    exact Image.lt_of_get? node
  obtain ⟨d', there, has⟩ := (applyFields_grows c fs).2 f hf inside
  cases node.symm.trans there
  exact has

theorem applyFields_flagged (c : Context) (fs : List AuthoringField) :
    ∀ f ∈ fs, (c.applyFields fs).1.declaredInTarget f.component →
      (c.applyFields fs).1.target.Flagged f.component := by
  classical
  intro f hf declared id d' found node'
  obtain ⟨d, node, -⟩ := Image.node_of_shape (applyFields_shape c fs).symm node'
  have names : c.Names f.component id :=
    (names_congr (shape_applyFields c fs) f.component id).mp ((names_iff node').mpr ⟨declared, found⟩)
  rw [applyFields_flags node node', if_pos ⟨f, hf, names⟩]
  exact TypeFlags.contains_union ..

/-- A plan that was executed leaves nothing of itself to do. -/
theorem applyFields_again (c : Context) (fs : List AuthoringField) :
    (c.applyFields fs).1.applyFields fs = ((c.applyFields fs).1, []) := by
  have has := applyFields_hasField c fs
  apply Prod.ext
  · exact applyFields_eq_self has (applyFields_flagged c fs)
  · exact applyFields_snd_eq_nil.mpr has

/-- Adding fields is idempotent: where a pass ended, the same pass adds nothing and changes nothing. A
second pass with another budget ends where a first pass with that budget would, and then likewise. -/
theorem addFields_again (h : (c.addFields budget x templates rules : Pass ε _).result =
      .done (c', added)) :
    (c'.addFields budget x templates rules : Pass ε _).result = .done (c', []) ∧
    ∀ budget', (c'.addFields budget' x templates rules : Pass ε _).result =
      (c.addFields budget' x templates rules : Pass ε _).result.bind fun _ => .done (c', []) := by
  rw [addFields_result] at h
  obtain ⟨fs, first, h⟩ := Attempt.bind_eq_done.mp h
  obtain ⟨rfl, rfl⟩ := Prod.mk.inj (Attempt.done.inj h)
  have second (budget' : Nat) :
      ((c.applyFields fs).1.addFields budget' x templates rules : Pass ε _).result =
        (c.addFields budget' x templates rules : Pass ε _).result.bind
          fun _ => .done ((c.applyFields fs).1, []) := by
    rw [addFields_result, addFields_result, planned_congr (shape_applyFields c fs),
      Attempt.bind_assoc]
    cases planned : (c.planned budget' x templates rules : Pass ε _).result with
    | done gs =>
        obtain rfl := (planned_done planned).trans (planned_done first).symm
        simp only [Attempt.bind_done, applyFields_again, List.map_nil]
    | failed e => rfl
    | unfinished => rfl
  refine ⟨?_, second⟩
  rw [second budget, addFields_result, first]
  rfl

/-- The fields of the fleet are added once. -/
theorem fleet_again : ∃ c' added,
    (fleet.addFields 8 (Index.build fleet.target) fleetTemplates fleetRules :
      Pass Empty _).result = .done (c', added) ∧ added.length = 2 ∧
    (c'.addFields 8 (Index.build fleet.target) fleetTemplates fleetRules :
      Pass Empty _).result = .done (c', []) := by
  obtain ⟨c', added, run, two⟩ : ∃ c' added,
      (fleet.addFields 8 (Index.build fleet.target) fleetTemplates fleetRules :
        Pass Empty _).result = .done (c', added) ∧ added.length = 2 := ⟨_, _, by rfl, by rfl⟩
  exact ⟨c', added, run, two, (addFields_again run).1⟩

end whole

end Context
end Companions
