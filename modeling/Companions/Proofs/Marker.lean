import Companions.Proofs.Additions
import Companions.Proofs.Outcome
import Companions.Proofs.Selection
import Companions.Proofs.Relation.Termination
/-!
Attaching an attribute. The constructor is the first one that takes the arguments, provided that
the checks of the constructors before it come to an end. Apart from the attribute on its owner and
the reference to its assembly nothing changes, and where an attribute cannot be attached nothing
changes at all.
-/
namespace Companions

/-- The node with one more attribute. -/
def TypeDef.tagged (d : TypeDef) (a : CustomAttribute) : TypeDef :=
  { d with attributes := d.attributes ++ [a] }

namespace Context

open Pass (Comes ComesTo Reliable Steady)

variable {c : Context} {owner : TypeId} {marker : TypeRef} {arguments : List TypeRef}

/-! ## Parameters -/

/-- A type descriptor takes any argument, another parameter what is assignable to its type. -/
inductive Accepts (c : Context) (pair : Parameter × TypeRef) : Prop where
  | descriptor (any : pair.1.type.fullName = some Name.typeDescriptor)
  | fits (fits : c.Assignable pair.2 pair.1.type)

/-- The parameter is not a type descriptor, and the check of the argument ends without success. -/
structure Refuses (c : Context) (pair : Parameter × TypeRef) : Prop where
  other : pair.1.type.fullName ≠ some Name.typeDescriptor
  unfit : c.Unassignable pair.2 pair.1.type

theorem Refuses.not {pair : Parameter × TypeRef} (h : c.Refuses pair) : ¬ c.Accepts pair
  | .descriptor any => h.other any
  | .fits fits => h.unfit.not fits

theorem assignable_steady {ε : Type} (s t : TypeRef) :
    Steady fun n => (c.assignable n s t : Pass ε Bool) := by
  intro n m le ended
  rw [assignable_result] at ended ⊢
  rw [assignable_result]
  cases found : c.assignable? n s t with
  | none =>
      rw [found] at ended
      exact absurd rfl ended
  | some v => rw [assignable?_mono le s t v found]

/-- What the check of a pass comes to is the verdict of any budget that is enough. -/
theorem assignable_comesTo {ε : Type} {s t : TypeRef} {holds : Bool} :
    ComesTo (fun n => (c.assignable n s t : Pass ε Bool)) (.done holds) ↔
      ∃ budget v, c.assignable? budget s t = some v ∧ v.holds = holds := by
  constructor
  · rintro ⟨n, h⟩
    have own := h n (Nat.le_refl n)
    rw [assignable_result] at own
    cases found : c.assignable? n s t with
    | none =>
        rw [found] at own
        cases own
    | some v =>
        rw [found] at own
        exact ⟨n, v, found, Attempt.done.inj own⟩
  · rintro ⟨n, v, found, rfl⟩
    refine (assignable_steady s t).comesTo (n := n) ?_ (Attempt.done_ne v.holds)
    rw [assignable_result, found]
    rfl

theorem accepts_descriptor {pair : Parameter × TypeRef}
    (any : pair.1.type.fullName = some Name.typeDescriptor) :
    (fun n => c.accepts n pair) = fun _ => pure true := funext fun _ => if_pos any

theorem accepts_other {pair : Parameter × TypeRef}
    (other : pair.1.type.fullName ≠ some Name.typeDescriptor) :
    (fun n => c.accepts n pair) = fun n => c.assignable n pair.2 pair.1.type :=
  funext fun _ => if_neg other

theorem accepts_reliable (c : Context) : Reliable c.accepts where
  steady pair := by
    by_cases any : pair.1.type.fullName = some Name.typeDescriptor
    · rw [accepts_descriptor any]
      exact Pass.steady_const _
    · rw [accepts_other any]
      exact assignable_steady _ _
  sure n pair e h := by
    rw [accepts] at h
    split at h
    · cases h
    · exact assignable_not_failed _ _ _ e h

theorem comes_accepts : Comes c.accepts true = c.Accepts := by
  funext pair
  apply propext
  by_cases any : pair.1.type.fullName = some Name.typeDescriptor
  · rw [Comes, accepts_descriptor any]
    exact iff_of_true (Pass.comesTo_pure.mpr rfl) (.descriptor any)
  · rw [Comes, accepts_other any, assignable_comesTo]
    exact ⟨.fits, fun | .descriptor all => absurd all any | .fits fits => fits⟩

theorem comes_refuses : Comes c.accepts false = c.Refuses := by
  funext pair
  apply propext
  by_cases any : pair.1.type.fullName = some Name.typeDescriptor
  · rw [Comes, accepts_descriptor any, Pass.comesTo_pure]
    exact iff_of_false (by simp) fun h => h.other any
  · rw [Comes, accepts_other any, assignable_comesTo]
    exact ⟨fun h => ⟨any, h⟩, fun h => h.unfit⟩

/-! ## Constructors -/

/-- The constructor has a parameter for each argument, and this accepts it. -/
structure Takes (c : Context) (arguments : List TypeRef) (m : Method) : Prop where
  length : m.parameters.length = arguments.length
  each : ∀ pair ∈ m.parameters.zip arguments, c.Accepts pair

/-- There is not a parameter for each argument, or one of them refuses its own behind parameters
that accept theirs. -/
inductive Declines (c : Context) (arguments : List TypeRef) (m : Method) : Prop where
  | length (differs : m.parameters.length ≠ arguments.length)
  | refused (length : m.parameters.length = arguments.length) (pair : Parameter × TypeRef)
      (behind : Behind c.Accepts (m.parameters.zip arguments) pair) (refused : c.Refuses pair)

/-- `m` is the first of the methods that takes the arguments, and those before it decline them. -/
def Selects (c : Context) (arguments : List TypeRef) (ms : List Method) (m : Method) : Prop :=
  Behind (c.Declines arguments) ms m ∧ c.Takes arguments m

/-- Behind methods that decline, each one declines the arguments as well or takes them: no check
that is asked for goes on for ever. -/
def Decided (c : Context) (arguments : List TypeRef) (ms : List Method) : Prop :=
  ∀ m, Behind (c.Declines arguments) ms m → c.Declines arguments m ∨ c.Takes arguments m

theorem Declines.not {m : Method} (h : c.Declines arguments m) : ¬ c.Takes arguments m := by
  intro takes
  cases h with
  | length differs => exact differs takes.length
  | refused _ pair behind refused => exact refused.not (takes.each pair behind.mem)

theorem takes_of_length {m : Method} (length : m.parameters.length = arguments.length) :
    (fun n => c.takes n arguments m) =
      fun n => Pass.all (c.accepts n) (m.parameters.zip arguments) := funext fun _ => if_pos length

theorem takes_of_differs {m : Method} (differs : m.parameters.length ≠ arguments.length) :
    (fun n => c.takes n arguments m) = fun _ => pure false := funext fun _ => if_neg differs

theorem takes_reliable (c : Context) (arguments : List TypeRef) :
    Reliable fun n m => c.takes n arguments m where
  steady m := by
    by_cases length : m.parameters.length = arguments.length
    · rw [takes_of_length length]
      exact (accepts_reliable c).all.steady _
    · rw [takes_of_differs length]
      exact Pass.steady_const _
  sure n m e h := by
    rw [takes] at h
    split at h
    · exact (accepts_reliable c).all.sure n _ e h
    · cases h

theorem comes_takes : Comes (fun n m => c.takes n arguments m) true = c.Takes arguments := by
  funext m
  apply propext
  by_cases length : m.parameters.length = arguments.length
  · rw [Comes, takes_of_length length]
    refine (Pass.all_comes_true (accepts_reliable c)).trans ?_
    rw [comes_accepts]
    exact ⟨fun each => ⟨length, each⟩, fun takes => takes.each⟩
  · rw [Comes, takes_of_differs length, Pass.comesTo_pure]
    exact iff_of_false (by simp) fun takes => length takes.length

theorem comes_declines : Comes (fun n m => c.takes n arguments m) false = c.Declines arguments := by
  funext m
  apply propext
  by_cases length : m.parameters.length = arguments.length
  · rw [Comes, takes_of_length length]
    refine (Pass.all_comes_false (accepts_reliable c)).trans ?_
    rw [comes_accepts, comes_refuses]
    constructor
    · rintro ⟨pair, behind, refused⟩
      exact .refused length pair behind refused
    · rintro (differs | ⟨_, pair, behind, refused⟩)
      · exact absurd length differs
      · exact ⟨pair, behind, refused⟩
  · rw [Comes, takes_of_differs length]
    exact iff_of_true (Pass.comesTo_pure.mpr rfl) (.length length)

theorem search_selects {ms : List Method} {m : Method} :
    ComesTo (fun n => Pass.first? (c.takes n arguments) ms) (.done (some m)) ↔
      c.Selects arguments ms m := by
  rw [Selects, ← comes_takes, ← comes_declines]
  exact Pass.first?_comesTo_some (takes_reliable c arguments)

theorem search_declined {ms : List Method} :
    ComesTo (fun n => Pass.first? (c.takes n arguments) ms) (.done none) ↔
      ∀ m ∈ ms, c.Declines arguments m := by
  rw [← comes_declines]
  exact Pass.first?_comesTo_none (takes_reliable c arguments)

theorem search_decided {ms : List Method} :
    (∃ o, ComesTo (fun n => Pass.first? (c.takes n arguments) ms) (.done o)) ↔
      c.Decided arguments ms := by
  rw [Decided, ← comes_takes, ← comes_declines]
  refine (Pass.first?_comesTo_ends (takes_reliable c arguments)).trans ?_
  simp only [Bool.exists_bool]

/-! ## The attribute -/

/-- Why an attribute cannot be attached. What does not resolve comes before a missing constructor,
and this before a missing owner. -/
inductive Refusal (c : Context) (owner : TypeId) (marker : TypeRef) (arguments : List TypeRef) :
    SynthesisError → Prop where
  | unresolved (unknown : c.resolve? marker = none) :
      Refusal c owner marker arguments (.unresolvedType marker.display "attribute type")
  | unmatched {r : Resolved} (found : c.resolve? marker = some r)
      (declined : ∀ m ∈ r.node.constructors, c.Declines arguments m) :
      Refusal c owner marker arguments
        (.noMatchingConstructor marker.display (arguments.map (·.display)))
  | ownerless {r : Resolved} (found : c.resolve? marker = some r) {m : Method}
      (selected : c.Selects arguments r.node.constructors m) (outside : c.target.size ≤ owner) :
      Refusal c owner marker arguments (.unresolvedType s!"#{owner}" "attribute owner")

/-- All that has changed: the owner has the attribute behind its others, made by the constructor as
declared on the attribute's type, and the assembly is referred to. -/
structure Attached (c : Context) (owner : TypeId) (marker : TypeRef) (arguments : List TypeRef)
    (m : Method) (assembly : Identity) (c' : Context) : Prop where
  references : c'.references = c.references
  identity : c'.target.identity = c.target.identity
  roots : c'.target.roots = c.target.roots
  lookup : c'.target.lookup = c.target.lookup
  others : ∀ id, id ≠ owner → c'.target.get? id = c.target.get? id
  node : ∃ d, c.target.get? owner = some d ∧ c'.target.get? owner = some { d with
    attributes := d.attributes ++ [{
      constructor := ⟨marker, m.name, m.parameters.map (·.type), m.returnType⟩
      arguments := (m.parameters.zip arguments).map fun p => ⟨p.1.type, .type p.2⟩ }] }
  referred : c'.target.references = c.target.references ∧ c.target.Refers assembly.name ∨
    c'.target.references = c.target.references ++ [assembly] ∧ ¬ c.target.Refers assembly.name

/-- The context with one more attribute on the owner, and with the assembly among those that the
target refers to. -/
def tagged (c : Context) (owner : TypeId) (a : CustomAttribute) (assembly : Identity) : Context :=
  { c with target := (c.target.update owner fun d => d.tagged a).addReference assembly }

theorem attached_tagged {d : TypeDef} (node : c.target.get? owner = some d) (m : Method)
    (assembly : Identity) : c.Attached owner marker arguments m assembly
      (c.tagged owner (markerOf marker m arguments) assembly) := by
  have nodes := c.target.get?_update owner fun d => d.tagged (markerOf marker m arguments)
  have others (id : TypeId) (other : id ≠ owner) := (nodes id).trans (if_neg (Ne.symm other))
  have own := (nodes owner).trans (if_pos rfl)
  rw [node] at own
  have same : (c.target.update owner fun d => d.tagged (markerOf marker m arguments)).Refers
      assembly.name ↔ c.target.Refers assembly.name := .rfl
  by_cases refers : c.target.Refers assembly.name
  · rw [tagged, Image.addReference_eq_self (same.mpr refers)]
    exact ⟨rfl, rfl, rfl, rfl, others, ⟨d, node, own⟩, .inl ⟨rfl, refers⟩⟩
  · rw [tagged, Image.addReference_of_not (mt same.mp refers)]
    exact ⟨rfl, rfl, rfl, rfl, others, ⟨d, node, own⟩, .inr ⟨rfl, refers⟩⟩

theorem Attached.unique {m : Method} {assembly : Identity} {c₁ c₂ : Context}
    (h₁ : c.Attached owner marker arguments m assembly c₁)
    (h₂ : c.Attached owner marker arguments m assembly c₂) : c₁ = c₂ := by
  have target : c₁.target = c₂.target := by
    refine Image.ext_get? (h₁.identity.trans h₂.identity.symm) ?_ (h₁.roots.trans h₂.roots.symm)
      (h₁.lookup.trans h₂.lookup.symm) fun id => ?_
    · obtain ⟨left, known⟩ | ⟨left, new⟩ := h₁.referred
      · exact left.trans (h₂.referred.resolve_right fun h => h.2 known).1.symm
      · exact left.trans (h₂.referred.resolve_left fun h => new h.2).1.symm
    · by_cases own : id = owner
      · subst own
        obtain ⟨d, node, after₁⟩ := h₁.node
        obtain ⟨d', node', after₂⟩ := h₂.node
        cases node.symm.trans node'
        rw [after₁, after₂]
      · rw [h₁.others id own, h₂.others id own]
  have references := h₁.references.trans h₂.references.symm
  obtain ⟨target₁, references₁⟩ := c₁
  obtain ⟨target₂, references₂⟩ := c₂
  cases target
  cases references
  rfl

theorem attached_iff {m : Method} {assembly : Identity} {c' : Context} :
    c.Attached owner marker arguments m assembly c' ↔
      owner < c.target.size ∧ c' = c.tagged owner (markerOf marker m arguments) assembly := by
  constructor
  · intro h
    obtain ⟨d, node, -⟩ := h.node
    exact ⟨Image.lt_of_get? node, h.unique (attached_tagged node m assembly)⟩
  · rintro ⟨inside, rfl⟩
    obtain ⟨d, node⟩ := Image.exists_get? inside
    exact attached_tagged node m assembly

/-- What the search for a constructor leads to. -/
def construct (marker : TypeRef) (arguments : List TypeRef) (assembly : Identity) :
    Option Method → Pass SynthesisError (Method × Identity)
  | none => .fail (.noMatchingConstructor marker.display (arguments.map (·.display)))
  | some m => pure (m, assembly)

theorem markerConstructor_eq (c : Context) (budget : Nat) (marker : TypeRef)
    (arguments : List TypeRef) : c.markerConstructor budget marker arguments =
      match c.resolve? marker with
      | none => .fail (.unresolvedType marker.display "attribute type")
      | some r => Pass.first? (c.takes budget arguments) r.node.constructors >>=
          construct marker arguments r.image.identity := rfl

theorem markerConstructor_unresolved (unknown : c.resolve? marker = none)
    (arguments : List TypeRef) : (fun n => c.markerConstructor n marker arguments) = fun _ =>
      .fail (.unresolvedType marker.display "attribute type") := by
  funext n
  rw [markerConstructor_eq, unknown]

theorem markerConstructor_resolved {r : Resolved} (found : c.resolve? marker = some r) :
    (fun n => c.markerConstructor n marker arguments) = fun n =>
      Pass.first? (c.takes n arguments) r.node.constructors >>=
        construct marker arguments r.image.identity := by
  funext n
  rw [markerConstructor_eq, found]

theorem markerConstructor_steady (c : Context) (marker : TypeRef) (arguments : List TypeRef) :
    Steady fun n => c.markerConstructor n marker arguments := by
  cases found : c.resolve? marker with
  | none =>
      rw [markerConstructor_unresolved found arguments]
      exact Pass.steady_const _
  | some r =>
      rw [markerConstructor_resolved found]
      exact ((takes_reliable c arguments).first? r.node.constructors).bind fun _ =>
        Pass.steady_const _

/-- The first constructor that takes the arguments, or the error that there is none. -/
theorem markerConstructor_comesTo {r : Resolved} (found : c.resolve? marker = some r)
    {o : Attempt SynthesisError (Method × Identity)} (ended : o ≠ .unfinished) :
    ComesTo (fun n => c.markerConstructor n marker arguments) o ↔
      (∃ m, c.Selects arguments r.node.constructors m ∧ o = .done (m, r.image.identity)) ∨
      (∀ m ∈ r.node.constructors, c.Declines arguments m) ∧
        o = .failed (.noMatchingConstructor marker.display (arguments.map (·.display))) := by
  rw [markerConstructor_resolved found]
  have search := (takes_reliable c arguments).first? r.node.constructors
  have sure (n : Nat) (e) : (Pass.first? (c.takes n arguments) r.node.constructors).result ≠
      .failed e := fun failed => by
    obtain ⟨m, -, never⟩ := Pass.first?_failed failed
    exact (takes_reliable c arguments).sure n m e never
  refine (Pass.comesTo_bind_of_sure search sure
    (f := fun chosen _ => construct marker arguments r.image.identity chosen) ended).trans ?_
  constructor
  · rintro ⟨chosen, searched, result⟩
    cases chosen with
    | none => exact .inr ⟨search_declined.mp searched, ((Pass.comesTo_const _).mp result).symm⟩
    | some m => exact .inl ⟨m, search_selects.mp searched, ((Pass.comesTo_const _).mp result).symm⟩
  · rintro (⟨m, selected, rfl⟩ | ⟨declined, rfl⟩)
    · exact ⟨some m, search_selects.mpr selected, (Pass.comesTo_const _).mpr rfl⟩
    · exact ⟨none, search_declined.mpr declined, (Pass.comesTo_const _).mpr rfl⟩

/-! ## Attaching -/

/-- What is left to do once a constructor is chosen. -/
def place (c : Context) (owner : TypeId) (marker : TypeRef) (arguments : List TypeRef)
    (chosen : Method × Identity) : Pass (Failure Context SynthesisError) Context :=
  if owner < c.target.size then do
    .say [.event ⟨.debug, markerTarget, "attached attribute", ["attribute", "owner"]⟩]
    return c.tagged owner (markerOf marker chosen.1 arguments) chosen.2
  else .fail ⟨c, .unresolvedType s!"#{owner}" "attribute owner"⟩

theorem attach_eq (c : Context) (budget : Nat) (owner : TypeId) (marker : TypeRef)
    (arguments : List TypeRef) : c.attach budget owner marker arguments =
      (c.markerConstructor budget marker arguments).leaving c >>=
        c.place owner marker arguments := rfl

theorem place_result {chosen : Method × Identity}
    {o : Attempt (Failure Context SynthesisError) Context} :
    (c.place owner marker arguments chosen).result = o ↔
      (∃ c', c.Attached owner marker arguments chosen.1 chosen.2 c' ∧ o = .done c') ∨
        c.target.size ≤ owner ∧
          o = .failed ⟨c, .unresolvedType s!"#{owner}" "attribute owner"⟩ := by
  simp only [attached_iff]
  by_cases inside : owner < c.target.size
  · rw [place, if_pos inside, Pass.result_say_bind, Pass.result_pure]
    constructor
    · rintro rfl
      exact .inl ⟨_, ⟨inside, rfl⟩, rfl⟩
    · rintro (⟨_, ⟨-, rfl⟩, rfl⟩ | ⟨outside, -⟩)
      · rfl
      · exact absurd inside (Nat.not_lt.mpr outside)
  · rw [place, if_neg inside]
    constructor
    · rintro rfl
      exact .inr ⟨Nat.not_lt.mp inside, rfl⟩
    · rintro (⟨_, ⟨within, -⟩, -⟩ | ⟨-, rfl⟩)
      · exact absurd within inside
      · rfl

theorem attach_steady (c : Context) (owner : TypeId) (marker : TypeRef) (arguments : List TypeRef) :
    Steady fun n => c.attach n owner marker arguments :=
  ((markerConstructor_steady c marker arguments).leaving c).bind fun _ => Pass.steady_const _

theorem attach_unresolved (unknown : c.resolve? marker = none) (owner : TypeId)
    (arguments : List TypeRef) (budget : Nat) :
    (c.attach budget owner marker arguments).result =
      .failed ⟨c, .unresolvedType marker.display "attribute type"⟩ := by
  have same := congrFun (markerConstructor_unresolved unknown arguments) budget
  rw [attach_eq, Pass.result_bind, same]
  rfl

/-- The attribute is attached to the owner with the selected constructor, unless the owner is
missing, or there is no such constructor. -/
theorem attach_comesTo {r : Resolved} (found : c.resolve? marker = some r)
    {o : Attempt (Failure Context SynthesisError) Context} (ended : o ≠ .unfinished) :
    ComesTo (fun n => c.attach n owner marker arguments) o ↔
      (∃ m, c.Selects arguments r.node.constructors m ∧
        ((∃ c', c.Attached owner marker arguments m r.image.identity c' ∧ o = .done c') ∨
          c.target.size ≤ owner ∧
            o = .failed ⟨c, .unresolvedType s!"#{owner}" "attribute owner"⟩)) ∨
      (∀ m ∈ r.node.constructors, c.Declines arguments m) ∧
        o = .failed ⟨c, .noMatchingConstructor marker.display (arguments.map (·.display))⟩ := by
  refine (Pass.comesTo_bind ((markerConstructor_steady c marker arguments).leaving c)
    (f := fun chosen _ => c.place owner marker arguments chosen) ended).trans ?_
  have done (chosen : Method × Identity) :
      ComesTo (fun n => c.markerConstructor n marker arguments) (.done chosen) ↔
        ∃ m, c.Selects arguments r.node.constructors m ∧ chosen = (m, r.image.identity) := by
    simp [markerConstructor_comesTo found]
  have failed (e : SynthesisError) :
      ComesTo (fun n => c.markerConstructor n marker arguments) (.failed e) ↔
        (∀ m ∈ r.node.constructors, c.Declines arguments m) ∧
          e = .noMatchingConstructor marker.display (arguments.map (·.display)) := by
    simp [markerConstructor_comesTo found]
  simp only [Pass.comesTo_const, Pass.comesTo_leaving_done, Pass.comesTo_leaving_failed,
    place_result, done, failed]
  constructor
  · rintro (⟨_, ⟨m, selected, rfl⟩, placed⟩ | ⟨⟨left, error⟩, ⟨rfl, declined, rfl⟩, rfl⟩)
    · exact .inl ⟨m, selected, placed⟩
    · exact .inr ⟨declined, rfl⟩
  · rintro (⟨m, selected, placed⟩ | ⟨declined, rfl⟩)
    · exact .inl ⟨_, ⟨m, selected, rfl⟩, placed⟩
    · exact .inr ⟨_, ⟨rfl, declined, rfl⟩, rfl⟩

theorem attach_comesTo_done {c' : Context} :
    ComesTo (fun n => c.attach n owner marker arguments) (.done c') ↔ ∃ r m,
      c.resolve? marker = some r ∧ c.Selects arguments r.node.constructors m ∧
        c.Attached owner marker arguments m r.image.identity c' := by
  cases found : c.resolve? marker with
  | none =>
      refine iff_of_false ?_ (by simp)
      rintro ⟨n, h⟩
      have failed := attach_unresolved found owner arguments n
      cases failed.symm.trans (h n (Nat.le_refl n))
  | some r =>
      rw [attach_comesTo found (by simp)]
      simp

theorem attach_succeeds {r : Resolved} (found : c.resolve? marker = some r) {m : Method}
    (selected : c.Selects arguments r.node.constructors m) (inside : owner < c.target.size) :
    ∃ c', ComesTo (fun n => c.attach n owner marker arguments) (.done c') :=
  ⟨_, attach_comesTo_done.mpr ⟨r, m, found, selected, attached_iff.mpr ⟨inside, rfl⟩⟩⟩

/-- It fails for a reason to refuse, and in the context that it started in. -/
theorem attach_comesTo_failed {c' : Context} {e : SynthesisError} :
    ComesTo (fun n => c.attach n owner marker arguments) (.failed ⟨c', e⟩) ↔
      c' = c ∧ c.Refusal owner marker arguments e := by
  cases found : c.resolve? marker with
  | none =>
      have failed := attach_unresolved found owner arguments
      constructor
      · rintro ⟨n, h⟩
        cases (failed n).symm.trans (h n (Nat.le_refl n))
        exact ⟨rfl, .unresolved found⟩
      · rintro ⟨rfl, refusal⟩
        cases refusal with
        | unresolved => exact ⟨0, fun n _ => failed n⟩
        | unmatched other => cases found.symm.trans other
        | ownerless other => cases found.symm.trans other
  | some r =>
      rw [attach_comesTo found (by simp)]
      constructor
      · rintro (⟨m, selected, ⟨_, -, none⟩ | ⟨outside, same⟩⟩ | ⟨declined, same⟩)
        · cases none
        · cases same
          exact ⟨rfl, .ownerless found selected outside⟩
        · cases same
          exact ⟨rfl, .unmatched found declined⟩
      · rintro ⟨rfl, refusal⟩
        cases refusal with
        | unresolved unknown => cases found.symm.trans unknown
        | unmatched other declined =>
            cases found.symm.trans other
            exact .inr ⟨declined, rfl⟩
        | ownerless other selected outside =>
            cases found.symm.trans other
            exact .inl ⟨_, selected, .inr ⟨outside, rfl⟩⟩

/-- Where the search among the constructors is decided, it selects one that takes the arguments, if
there is any. -/
theorem Decided.selects {ms : List Method} (decided : c.Decided arguments ms) {m : Method}
    (mem : m ∈ ms) (takes : c.Takes arguments m) : ∃ k, c.Selects arguments ms k := by
  obtain ⟨o, searched⟩ := search_decided.mpr decided
  cases o with
  | none => exact absurd takes (search_declined.mp searched m mem).not
  | some k => exact ⟨k, search_selects.mp searched⟩

/-- Attaching ends if the search for a constructor does. -/
theorem attach_ends_iff : (∃ n, (c.attach n owner marker arguments).result ≠ .unfinished) ↔
    ∀ r, c.resolve? marker = some r → c.Decided arguments r.node.constructors := by
  constructor
  · rintro ⟨n, ended⟩ r found
    obtain ⟨m, selected, -⟩ | ⟨declined, -⟩ := (attach_comesTo found ended).mp
      ((attach_steady c owner marker arguments).comesTo rfl ended)
    · exact search_decided.mp ⟨_, search_selects.mpr selected⟩
    · exact search_decided.mp ⟨_, search_declined.mpr declined⟩
  · intro decided
    cases found : c.resolve? marker with
    | none =>
        exact (attach_comesTo_failed.mpr ⟨rfl, .unresolved found⟩).ends (Attempt.failed_ne _)
    | some r =>
        obtain ⟨o, searched⟩ := search_decided.mpr (decided r found)
        cases o with
        | none =>
            have declined := search_declined.mp searched
            exact (attach_comesTo_failed.mpr ⟨rfl, .unmatched found declined⟩).ends
              (Attempt.failed_ne _)
        | some m =>
            have selected := search_selects.mp searched
            rcases Nat.lt_or_ge owner c.target.size with inside | outside
            · obtain ⟨c', done⟩ := attach_succeeds found selected inside
              exact done.ends (Attempt.done_ne c')
            · exact (attach_comesTo_failed.mpr ⟨rfl, .ownerless found selected outside⟩).ends
                (Attempt.failed_ne _)

/-- Attaching selects the first fitting constructor or changes nothing. With every budget it is
unfinished or has the one result that it comes to: the attribute made by the constructor that is
selected is attached and nothing else has changed, or it fails for the first of the reasons that there
are, and the context that it leaves then is the one that it started in. It ends exactly if each
constructor takes or declines the arguments that is looked at, and then it succeeds exactly if the
attribute's type resolves, the owner is a node and some constructor takes the arguments. -/
theorem attach_exact (c : Context) (owner : TypeId) (marker : TypeRef) (arguments : List TypeRef) :
    let run := fun budget => c.attach budget owner marker arguments
    (∀ budget, (run budget).result = .unfinished ∨ ComesTo run (run budget).result) ∧
    (∀ c', ComesTo run (.done c') ↔ ∃ r m, c.resolve? marker = some r ∧
      c.Selects arguments r.node.constructors m ∧
      c.Attached owner marker arguments m r.image.identity c') ∧
    (∀ c' e, ComesTo run (.failed ⟨c', e⟩) ↔ c' = c ∧ c.Refusal owner marker arguments e) ∧
    ((∃ budget, (run budget).result ≠ .unfinished) ↔
      ∀ r, c.resolve? marker = some r → c.Decided arguments r.node.constructors) ∧
    ((∃ budget, (run budget).result ≠ .unfinished) →
      ((∃ c', ComesTo run (.done c')) ↔ owner < c.target.size ∧ ∃ r, c.resolve? marker = some r ∧
        ∃ m ∈ r.node.constructors, c.Takes arguments m)) := by
  intro run
  refine ⟨fun budget => ?_, fun c' => attach_comesTo_done, fun c' e => attach_comesTo_failed,
    attach_ends_iff, fun ends => ⟨?_, ?_⟩⟩
  · rw [or_iff_not_imp_left]
    exact (attach_steady c owner marker arguments).comesTo rfl
  · rintro ⟨c', attached⟩
    obtain ⟨r, m, found, ⟨behind, takes⟩, attached⟩ := attach_comesTo_done.mp attached
    exact ⟨(attached_iff.mp attached).1, r, found, m, behind.mem, takes⟩
  · rintro ⟨inside, r, found, m, mem, takes⟩
    obtain ⟨k, selected⟩ := (attach_ends_iff.mp ends r found).selects mem takes
    exact attach_succeeds found selected inside

/-! ## A tag that asks before it takes anything -/

/-- The first constructor takes what can be used as a `Game.Other`, the second one any type. -/
def asking : Method := .constructor [⟨"other", .named "Game" "Other"⟩] (.named "System" "System.Void")

def taking : Method := .constructor [⟨"type", .named "System" "System.Type"⟩] (.named "System" "System.Void")

def marks : Image := Image.rebuildLookup {
  identity := { name := "Marks" }
  types := [{ name := "Tag", kind := .classType, flags := .isPublic, methods := [asking, taking] }]
  roots := [0] }

/-- Nodes above each other in arrays, and the tag. -/
def unrolling : Context := (nodesOf (.array (.param 0 "T"))).addReference marks

def tag : TypeRef := .named "Marks" "Tag"

theorem unrolling_unrolls : unrolling.Unrolls := fun _ => rfl

theorem tag_resolves : ∃ r, unrolling.resolve? tag = some r ∧ r.image = marks ∧
    r.node.constructors = [asking, taking] := ⟨_, rfl, rfl, rfl⟩

theorem taking_takes (t : TypeRef) : unrolling.Takes [t] taking := by
  refine ⟨rfl, fun pair mem => .descriptor ?_⟩
  obtain rfl := List.mem_singleton.mp mem
  rfl

theorem asking_declines : unrolling.Declines [.named "Game" "A"] asking := by
  refine .refused rfl (⟨"other", .named "Game" "Other"⟩, .named "Game" "A")
    (behind_cons.mpr (.inl rfl)) ⟨?_, ?_⟩
  · decide +kernel
  · exact ⟨1, { holds := false }, by decide +kernel, rfl⟩

/-- The second constructor makes the attribute for a type that the first one refuses, and each
failure goes before the next. -/
theorem unrolling_tagged :
    let a : TypeRef := .named "Game" "A"
    (∃ c' d, ComesTo (fun n => unrolling.attach n 0 tag [a]) (.done c') ∧
      c'.target.references = [marks.identity] ∧ c'.target.get? 0 = some d ∧
      d.attributes = [markerOf tag taking [a]]) ∧
    ComesTo (fun n => unrolling.attach n 2 tag [a])
      (.failed ⟨unrolling, .unresolvedType "#2" "attribute owner"⟩) ∧
    ComesTo (fun n => unrolling.attach n 2 tag [])
      (.failed ⟨unrolling, .noMatchingConstructor "Tag" []⟩) ∧
    ComesTo (fun n => unrolling.attach n 2 (.named "Marks" "Other") [])
      (.failed ⟨unrolling, .unresolvedType "Other" "attribute type"⟩) := by
  intro a
  obtain ⟨⟨_, id, node⟩, found, rfl, constructors⟩ := tag_resolves
  have selected : unrolling.Selects [a] node.constructors taking := by
    rw [constructors]
    exact ⟨behind_cons.mpr (.inr ⟨asking_declines, behind_cons.mpr (.inl rfl)⟩), taking_takes a⟩
  have attached : unrolling.Attached 0 tag [a] taking marks.identity
      (unrolling.tagged 0 (markerOf tag taking [a]) marks.identity) :=
    attached_iff.mpr ⟨by decide +kernel, rfl⟩
  refine ⟨⟨_, _, ((attach_exact unrolling 0 tag [a]).2.1 _).mpr
    ⟨_, taking, found, selected, attached⟩, rfl, rfl, rfl⟩, ?_, ?_, ?_⟩
  · exact ((attach_exact unrolling 2 tag [a]).2.2.1 _ _).mpr
      ⟨rfl, .ownerless found selected (by decide +kernel)⟩
  · refine ((attach_exact unrolling 2 tag []).2.2.1 _ _).mpr ⟨rfl, .unmatched found ?_⟩
    rw [constructors]
    have differs : ∀ m ∈ [asking, taking], m.parameters.length ≠ 0 := by decide
    exact fun m mem => .length (differs m mem)
  · exact ((attach_exact unrolling 2 (.named "Marks" "Other") []).2.2.1 _ _).mpr
      ⟨rfl, .unresolved (by rfl)⟩

/-- A node that the first constructor asks about gets no attribute, although the second constructor
would take it. -/
theorem unrolling_never :
    let a : TypeRef := node (.named "Game" "A")
    0 < unrolling.target.size ∧ (∃ r, unrolling.resolve? tag = some r ∧
      ∃ m ∈ r.node.constructors, unrolling.Takes [a] m) ∧
    ∀ budget, (unrolling.attach budget 0 tag [a]).result = .unfinished := by
  intro a
  obtain ⟨r, found, -, constructors⟩ := tag_resolves
  refine ⟨by decide +kernel, ⟨r, found, taking, ?_, taking_takes a⟩, fun budget => ?_⟩
  · rw [constructors]
    exact List.mem_cons_of_mem asking List.mem_cons_self
  by_contra ended
  have decided := attach_ends_iff.mp ⟨budget, ended⟩ r found
  rw [constructors] at decided
  obtain declines | takes := decided asking (behind_cons.mpr (.inl rfl))
  · cases declines with
    | length differs => exact differs rfl
    | refused _ pair behind refused =>
        obtain rfl := List.mem_singleton.mp behind.mem
        obtain ⟨budget, v, verdict, -⟩ := refused.unfit
        cases (unrolling_unrolls.never budget).symm.trans verdict
  · cases takes.each (⟨"other", .named "Game" "Other"⟩, a) List.mem_cons_self with
    | descriptor any => exact absurd any (by decide +kernel)
    | fits fits =>
        obtain ⟨budget, v, verdict, -⟩ := fits
        cases (unrolling_unrolls.never budget).symm.trans verdict

end Context
end Companions
