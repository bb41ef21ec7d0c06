import Companions.Proofs.Relation.Budget
import Companions.Proofs.Relation.Instantiation
/-!
Ancestors are supertypes that a check finds. The base comes first among the supertypes of a type, so
that a walk follows the base chain before it looks at an interface. Until it meets the ancestor that
it looks for, it meets other definitions only, and these neither have its name nor can they fit by
their arguments.
-/
namespace Companions.Context
variable {c : Context}

/-! ## Names and definitions -/

theorem definitionName_positional (t : TypeRef) :
    t.positional.definitionName = t.definitionName := by
  cases t with
  | generic e as =>
      rw [TypeRef.positional_generic]
      exact e.uniqueName_positional
  | _ => exact TypeRef.uniqueName_positional _

/-- Plain references of one name are of one definition. -/
theorem definitionName_eq {s t : TypeRef} (hs : s.isPlain) (ht : t.isPlain)
    (same : s.uniqueName = t.uniqueName) : s.definitionName = t.definitionName := by
  rw [← definitionName_positional, TypeRef.positional_eq_of_uniqueName_eq hs ht same,
    definitionName_positional]

theorem argumentsMatch_of_ne {check : TypeRef → TypeRef → Option Verdict} {s t : TypeRef}
    (other : s.definitionName ≠ t.definitionName) :
    argumentsMatch check s t = some { holds := false } := by
  cases s with
  | generic e as =>
      cases t with
      | generic f bs => exact if_neg fun same => other same.2.2
      | _ => rfl
  | _ => rfl

/-! ## The way up -/

theorem Derives.inherits {s b : TypeRef} (h : c.Derives s b) : c.Inherits s b := by
  obtain ⟨r, d, found, own, bound⟩ := h
  exact mem_supertypes.mpr ⟨r, d, found, .inl own, bound⟩

/-- The base is the first of the supertypes that a walk goes on with. -/
theorem next_of_derives {s b : TypeRef} (base : c.Derives s b) (shallow : b.nesting ≤ maxGenericDepth) :
    ∃ others, c.next s = b :: others := by
  obtain ⟨r, d, found, own, rfl⟩ := base
  simp only [next, supertypes, found, own, Option.toList_some, List.singleton_append, List.map_cons]
  exact ⟨_, List.filter_cons_of_pos (by simpa using shallow)⟩

section walk

variable {target : TypeRef} {fits : TypeRef → Option Verdict}

/-- Nothing of another definition fits the target by its arguments. -/
def Discerning (fits : TypeRef → Option Verdict) (target : TypeRef) : Prop :=
  ∀ u, u.definitionName ≠ target.definitionName → fits u = some { holds := false }

/-- A type of another definition is passed by, and its base comes next. -/
theorem walk_past (discerning : Discerning fits target) {t b : TypeRef} (ht : t.isPlain)
    (plain : target.isPlain) (other : t.definitionName ≠ target.definitionName)
    (base : c.Derives t b) (shallow : b.nesting ≤ maxGenericDepth) {budget : Nat}
    {visited : List String} (new : t.uniqueName ∉ visited)
    (onward : ∀ pending, ∃ v,
      c.walk target fits budget (t.uniqueName :: visited) (b :: pending) = some v ∧ v.holds = true)
    (pending : List TypeRef) :
    ∃ v, c.walk target fits (budget + 1) visited (t :: pending) = some v ∧ v.holds = true := by
  obtain ⟨others, above⟩ := next_of_derives base shallow
  obtain ⟨v, found, holds⟩ := onward (others ++ pending)
  have differs : t.uniqueName ≠ target.uniqueName := mt (definitionName_eq ht plain) other
  rw [walk_miss new differs (discerning t other) rfl, above, List.cons_append, found]
  exact ⟨_, rfl, holds⟩

/-- A walk that comes to the start of a chain of bases finds the last of them, where no two have one
definition and none was met. -/
theorem walk_ascends (discerning : Discerning fits target) {above : List TypeRef} {t : TypeRef}
    (final : (t :: above).getLast? = some target) (path : (t :: above).IsChain c.Derives)
    (distinct : ((t :: above).map TypeRef.definitionName).Nodup)
    (plain : ∀ u ∈ t :: above, u.isPlain) (shallow : ∀ u ∈ above, u.nesting ≤ maxGenericDepth)
    {visited : List String} (new : ∀ u ∈ t :: above, u.uniqueName ∉ visited) {budget : Nat}
    (enough : above.length < budget) (pending : List TypeRef) :
    ∃ v, c.walk target fits budget visited (t :: pending) = some v ∧ v.holds = true := by
  induction above generalizing t visited budget pending with
  | nil =>
      obtain rfl := Option.some.inj final
      obtain ⟨budget, rfl⟩ := Nat.exists_eq_add_of_lt enough
      exact ⟨_, walk_name (new t List.mem_cons_self) rfl, rfl⟩
  | cons b above ih =>
      obtain ⟨budget, rfl⟩ := Nat.exists_eq_add_of_lt enough
      rw [List.getLast?_cons_cons] at final
      obtain ⟨base, path⟩ := List.isChain_cons_cons.mp path
      obtain ⟨apart, distinct⟩ := List.nodup_cons.mp distinct
      obtain ⟨ht, plain⟩ := List.forall_mem_cons.mp plain
      obtain ⟨hb, shallow⟩ := List.forall_mem_cons.mp shallow
      obtain ⟨own, new⟩ := List.forall_mem_cons.mp new
      have differs (u) (hu : u ∈ b :: above) : t.definitionName ≠ u.definitionName :=
        fun same => apart (same ▸ List.mem_map_of_mem hu)
      have goal : target ∈ b :: above := List.mem_of_getLast? final
      -- whatever else is pending by then stands behind the base and is not looked at
      refine walk_past discerning ht (plain target goal) (differs target goal) base hb own ?_ pending
      refine ih final path distinct plain shallow (fun u hu => ?_) (by simp at enough ⊢; omega)
      refine List.not_mem_cons_of_ne_of_not_mem ?_ (new u hu)
      exact fun same => differs u hu (definitionName_eq ht (plain u hu) same.symm)

end walk

/-! ## Ancestors -/

theorem baseChain_plain (hc : c.isPlain) {t : TypeRef} (ht : t.isPlain) :
    ∀ u ∈ t :: (c.baseChain t).items, u.isPlain := by
  have path := (c.baseChain_climbs t).isChain
  generalize (c.baseChain t).items = items at path
  induction items generalizing t with
  | nil => exact List.forall_mem_singleton.mpr ht
  | cons b items ih =>
      obtain ⟨base, rest⟩ := List.isChain_cons_cons.mp path
      exact List.forall_mem_cons.mpr ⟨ht, ih (base.inherits.plain hc ht) rest⟩

/-- A plain type is assignable to each of its ancestors up to which instantiations do not nest too
deep, and the check takes one step for each type on the way. So it is assignable to the first
instance of a template that is found among them. -/
theorem baseChain_assignable (hc : c.isPlain) {t : TypeRef} (ht : t.isPlain) :
    (∀ before b after, (c.baseChain t).items = before ++ b :: after →
      (∀ u ∈ before ++ [b], u.nesting ≤ maxGenericDepth) →
      ∀ budget ≥ before.length + 2, ∃ v, c.assignable? budget t b = some v ∧ v.holds = true) ∧
    ∀ template b, c.baseInstance? t template = some b →
      b.isGeneric ∧ b.definitionName = template.definitionName ∧
      ∃ before after, (c.baseChain t).items = before ++ b :: after ∧
        ((∀ u ∈ before ++ [b], u.nesting ≤ maxGenericDepth) → c.Assignable t b) := by
  have found (before b after) (items : (c.baseChain t).items = before ++ b :: after)
      (shallow : ∀ u ∈ before ++ [b], u.nesting ≤ maxGenericDepth) (budget)
      (enough : budget ≥ before.length + 2) :
      ∃ v, c.assignable? budget t b = some v ∧ v.holds = true := by
    have upto : t :: (before ++ [b]) <+: t :: (c.baseChain t).items := ⟨after, by simp [items]⟩
    have path : (t :: (before ++ [b])).IsChain c.Derives :=
      List.IsChain.prefix (c.baseChain_climbs t).isChain upto
    have final : (t :: (before ++ [b])).getLast? = some b := by
      rw [← List.cons_append, List.getLast?_concat]
    have length : (before ++ [b]).length < budget := by
      rw [List.length_append, List.length_singleton]
      omega
    exact walk_ascends (fun u other => argumentsMatch_of_ne other) final path
      ((upto.sublist.map _).nodup (c.baseChain_nodup t))
      (fun u hu => baseChain_plain hc ht u (upto.subset hu)) shallow
      (fun _ _ => List.not_mem_nil) length []
  refine ⟨found, fun template b first => ?_⟩
  obtain ⟨passes, before, after, items, -⟩ := List.find?_eq_some_iff_append.mp first
  rw [Bool.and_eq_true, decide_eq_true_eq] at passes
  obtain ⟨generic, same⟩ := passes
  refine ⟨generic, same, before, after, items, fun shallow => ?_⟩
  exact ⟨_, found before b after items shallow _ (Nat.le_refl _)⟩

/-- A map is a box of lists, two steps up. -/
theorem collections_assignable :
    let pair : TypeRef := .generic (.named "Core" "Pair`2")
      [.named "Game" "Ship", .named "Core" "Name"]
    let map : TypeRef := .generic (.named "Game" "Map`2")
      [.named "Core" "Name", .named "Game" "Ship"]
    let box : TypeRef := .generic (.named "Game" "Box`1")
      [.generic (.named "Core" "List`1") [.array pair]]
    collections.isPlain = true ∧ map.isPlain = true ∧
      collections.baseInstance? map (.named "Game" "Box`1") = some box ∧
      (∃ v, collections.assignable? 3 map box = some v ∧ v.holds = true) ∧
      collections.Assignable map box := by
  intro pair map box
  have hc : collections.isPlain := by decide +kernel
  have ht : map.isPlain := by decide +kernel
  have first : collections.baseInstance? map (.named "Game" "Box`1") = some box := by
    decide +kernel
  have bounded : ∀ u ∈ (collections.baseChain map).items, u.nesting ≤ maxGenericDepth := by
    decide +kernel
  obtain ⟨ancestors, instances⟩ := baseChain_assignable hc ht
  have store := ancestors [.generic (.named "Game" "Store`1") [pair]] box [.named "Game" "Object"]
    (by decide +kernel) (by decide +kernel) 3 (by decide)
  obtain ⟨-, -, before, after, items, assignable⟩ := instances _ box first
  refine ⟨hc, ht, first, store, assignable fun u hu => bounded u ?_⟩
  rw [items, List.append_cons]
  exact List.mem_append_left after hu

end Companions.Context
