import Companions.TypeRef
/-!
Type references as terms. Two of them are the same up to the names of their parameters if they
agree once every parameter is known by its position alone; names, nesting and substitution do not
see more than that.
-/
namespace Companions.TypeRef

/-- Induction with one hypothesis for all arguments of an instantiation. -/
@[induction_eliminator, elab_as_elim]
theorem inductionOn {motive : TypeRef → Prop}
    (named : ∀ s f, motive (.named s f))
    (generic : ∀ e as, motive e → (∀ a ∈ as, motive a) → motive (.generic e as))
    (array : ∀ e, motive e → motive (.array e))
    (param : ∀ p n, motive (.param p n)) (t : TypeRef) : motive t :=
  @TypeRef.rec motive (fun as => ∀ a ∈ as, motive a) named generic array param
    (by simp) (fun _ _ ha has => by simpa using ⟨ha, has⟩) t

/-! ## Parameters by position -/

mutual

/-- The reference with the names of its parameters left out. -/
def positional : TypeRef → TypeRef
  | .named s f => .named s f
  | .generic e as => .generic e.positional (positionalAll as)
  | .array e => .array e.positional
  | .param p _ => .param p ""

def positionalAll : List TypeRef → List TypeRef
  | [] => []
  | a :: as => a.positional :: positionalAll as

end

theorem positionalAll_eq_map (as : List TypeRef) : positionalAll as = as.map positional := by
  induction as with
  | nil => rfl
  | cons a as ih => simp [positionalAll, ih]

@[simp] theorem positional_named (s f : String) : (named s f).positional = .named s f := rfl

@[simp] theorem positional_generic (e : TypeRef) (as : List TypeRef) :
    (generic e as).positional = .generic e.positional (as.map positional) := by
  rw [positional, positionalAll_eq_map]

@[simp] theorem positional_array (e : TypeRef) :
    (array e).positional = .array e.positional := rfl

@[simp] theorem positional_param (p : UInt16) (n : String) :
    (param p n).positional = .param p "" := rfl

theorem nestingAll_map (f : TypeRef → TypeRef) (as : List TypeRef)
    (h : ∀ a ∈ as, (f a).nesting = a.nesting) : nestingAll (as.map f) = nestingAll as := by
  induction as with
  | nil => rfl
  | cons a as ih =>
      rw [List.map_cons, nestingAll, nestingAll, h a List.mem_cons_self,
        ih fun b hb => h b (List.mem_cons_of_mem a hb)]

@[simp] theorem nesting_positional (t : TypeRef) : t.positional.nesting = t.nesting := by
  induction t with
  | named s f => rfl
  | generic e as _ ih => rw [positional_generic, nesting, nesting, nestingAll_map _ _ ih]
  | array e ih => exact ih
  | param p n => rfl

theorem uniqueNames_map (f : TypeRef → TypeRef) (as : List TypeRef)
    (h : ∀ a ∈ as, (f a).uniqueName = a.uniqueName) : uniqueNames (as.map f) = uniqueNames as := by
  rw [uniqueNames_eq_map, uniqueNames_eq_map, List.map_map]
  exact List.map_congr_left fun a ha => by rw [Function.comp_apply, h a ha]

/-- A unique name tells nothing of the names of parameters. -/
@[simp] theorem uniqueName_positional (t : TypeRef) : t.positional.uniqueName = t.uniqueName := by
  induction t with
  | named s f => rfl
  | generic e as he ih =>
      have names := uniqueNames_map positional as ih
      cases e with
      | named s f => simp only [positional_generic, positional_named, uniqueName, names]
      | generic f bs => simp only [positional_generic, uniqueName, names] at he ⊢; rw [he]
      | array f => simp only [positional_generic, positional_array, uniqueName, names] at he ⊢; rw [he]
      | param p n => simp only [positional_generic, positional_param, uniqueName, names]
  | array e ih => rw [positional_array, uniqueName, uniqueName, ih]
  | param p n => rfl

theorem arguments_positional (t : TypeRef) :
    t.positional.arguments = t.arguments.map positional := by
  cases t <;> simp [arguments]

@[simp] theorem bind_named (args : List TypeRef) (s f : String) :
    bind args (.named s f) = .named s f := rfl

@[simp] theorem bind_generic (args : List TypeRef) (e : TypeRef) (as : List TypeRef) :
    bind args (.generic e as) = .generic e (as.map (bind args)) := by
  rw [bind, bindAll_eq_map]

@[simp] theorem bind_array (args : List TypeRef) (e : TypeRef) :
    bind args (.array e) = .array (bind args e) := rfl

@[simp] theorem bind_param (args : List TypeRef) (p : UInt16) (n : String) :
    bind args (.param p n) = args[p.toNat]?.getD (.param p n) := rfl

/-- Substitution sees the positions of parameters only. -/
theorem positional_bind (args : List TypeRef) (t : TypeRef) :
    (bind args t).positional = bind (args.map positional) t.positional := by
  induction t with
  | named s f => rfl
  | generic e as _ ih =>
      simp only [bind_generic, positional_generic, List.map_map, generic.injEq, true_and]
      exact List.map_congr_left ih
  | array e ih => simp only [bind_array, positional_array, ih]
  | param p n =>
      rw [bind_param, positional_param, bind_param, List.getElem?_map]
      cases args[p.toNat]? <;> rfl

theorem positional_substitute {s t : TypeRef} (h : s.positional = t.positional) (d : TypeRef) :
    (d.substitute s.arguments).positional = (d.substitute t.arguments).positional := by
  rw [substitute, substitute, positional_bind, positional_bind, ← arguments_positional,
    ← arguments_positional, h]

/-! ## Positions of parameters -/

mutual

/-- Whether the parameters of the reference stand below `n`, elements of instantiations left out. -/
def paramsBelow (n : Nat) : TypeRef → Bool
  | .named .. => true
  | .generic _ as => allParamsBelow n as
  | .array e => e.paramsBelow n
  | .param p _ => p.toNat < n

def allParamsBelow (n : Nat) : List TypeRef → Bool
  | [] => true
  | a :: as => a.paramsBelow n && allParamsBelow n as

end

theorem allParamsBelow_iff {n : Nat} {as : List TypeRef} :
    allParamsBelow n as = true ↔ ∀ a ∈ as, a.paramsBelow n := by
  induction as with
  | nil => simp [allParamsBelow]
  | cons a as ih => simp [allParamsBelow, ih]

end Companions.TypeRef
