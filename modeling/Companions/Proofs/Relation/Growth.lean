import Companions.Relation.BaseChain
import Companions.Proofs.Relation.Reach
/-!
How references grow on the way up. Everything that is reached is spelled with the parts of the
start and of the declarations. Instantiations nest no deeper than the limit, so only arrays can
grow without end: where their nesting is bounded, finitely many references are reached.
-/
namespace Companions

/-! ## Names met -/

theorem countP_notMem_cons_le {α : Type} (f : α → String) (as : List α) (names : List String)
    (name : String) :
    as.countP (fun a => f a ∉ name :: names) ≤ as.countP fun a => f a ∉ names :=
  List.countP_mono_left fun a _ ha => by
    simp only [List.mem_cons, not_or, decide_eq_true_eq] at ha ⊢
    exact ha.2

/-- With the name of one more item fewer items have a name that is not met. -/
theorem countP_notMem_cons_lt {α : Type} {f : α → String} {as : List α} {a : α} (ha : a ∈ as)
    {names : List String} (new : f a ∉ names) :
    as.countP (fun b => f b ∉ f a :: names) < as.countP fun b => f b ∉ names := by
  obtain ⟨before, after, rfl⟩ := List.append_of_mem ha
  have left := countP_notMem_cons_le f before names (f a)
  have right := countP_notMem_cons_le f after names (f a)
  rw [List.countP_append, List.countP_append, List.countP_cons_of_neg (by simp),
    List.countP_cons_of_pos (by simpa using new)]
  omega

namespace TypeRef

/-! ## Parts -/

theorem partsAll_eq_flatMap (as : List TypeRef) : partsAll as = as.flatMap parts := by
  induction as with
  | nil => rfl
  | cons a as ih => rw [partsAll, ih, List.flatMap_cons]

theorem self_mem_parts (t : TypeRef) : t ∈ t.parts := by
  cases t <;> exact List.mem_cons_self

/-- With a reference, its arguments and elements of arrays belong to the list. -/
structure PartsClosed (U : List TypeRef) : Prop where
  arguments : ∀ e as, generic e as ∈ U → ∀ a ∈ as, a ∈ U
  elements : ∀ e, array e ∈ U → e ∈ U

theorem PartsClosed.flatMap {α : Type} {f : α → List TypeRef} {xs : List α}
    (h : ∀ x ∈ xs, PartsClosed (f x)) : PartsClosed (xs.flatMap f) where
  arguments e as mem a ha := by
    obtain ⟨x, hx, mem⟩ := List.mem_flatMap.mp mem
    exact List.mem_flatMap.mpr ⟨x, hx, (h x hx).arguments e as mem a ha⟩
  elements e mem := by
    obtain ⟨x, hx, mem⟩ := List.mem_flatMap.mp mem
    exact List.mem_flatMap.mpr ⟨x, hx, (h x hx).elements e mem⟩

theorem partsClosed_parts (t : TypeRef) : PartsClosed t.parts := by
  induction t with
  | named s f => constructor <;> simp [parts]
  | generic e as _ ih =>
      have inner := PartsClosed.flatMap ih
      rw [parts, partsAll_eq_flatMap]
      constructor
      · intro f bs mem b hb
        rcases List.mem_cons.mp mem with same | mem
        · cases same
          exact List.mem_cons_of_mem _ (List.mem_flatMap.mpr ⟨b, hb, self_mem_parts b⟩)
        · exact List.mem_cons_of_mem _ (inner.arguments f bs mem b hb)
      · intro f mem
        rcases List.mem_cons.mp mem with same | mem
        · cases same
        · exact List.mem_cons_of_mem _ (inner.elements f mem)
  | array e ih =>
      unfold parts
      constructor
      · intro f bs mem b hb
        rcases List.mem_cons.mp mem with same | mem
        · cases same
        · exact List.mem_cons_of_mem _ (ih.arguments f bs mem b hb)
      · intro f mem
        rcases List.mem_cons.mp mem with same | mem
        · cases same
          exact List.mem_cons_of_mem _ (self_mem_parts e)
        · exact List.mem_cons_of_mem _ (ih.elements f mem)
  | param p n => constructor <;> simp [parts]

/-! ## Nesting of arrays -/

mutual

/-- How deep arrays stand in one another; instantiations and elements of these do not count. -/
def arrayNesting : TypeRef → Nat
  | .named .. => 0
  | .generic _ as => arrayNestingAll as
  | .array e => e.arrayNesting + 1
  | .param .. => 0

def arrayNestingAll : List TypeRef → Nat
  | [] => 0
  | a :: as => max a.arrayNesting (arrayNestingAll as)

end

theorem nestingAll_le {as : List TypeRef} {n : Nat} : nestingAll as ≤ n ↔ ∀ a ∈ as, a.nesting ≤ n := by
  induction as with
  | nil => simp [nestingAll]
  | cons a as ih => rw [nestingAll, Nat.max_le, ih, List.forall_mem_cons]

theorem arrayNestingAll_le {as : List TypeRef} {n : Nat} :
    arrayNestingAll as ≤ n ↔ ∀ a ∈ as, a.arrayNesting ≤ n := by
  induction as with
  | nil => simp [arrayNestingAll]
  | cons a as ih => rw [arrayNestingAll, Nat.max_le, ih, List.forall_mem_cons]

theorem arrayNesting_arguments {t a : TypeRef} (h : a ∈ t.arguments) :
    a.arrayNesting ≤ t.arrayNesting := by
  cases t with
  | generic e as => exact arrayNestingAll_le.mp (Nat.le_refl _) a h
  | _ => cases h

theorem nesting_arguments {t a : TypeRef} (h : a ∈ t.arguments) : a.nesting < t.nesting := by
  cases t with
  | generic e as =>
      rw [nesting]
      exact Nat.lt_succ_of_le (nestingAll_le.mp (Nat.le_refl (nestingAll as)) a h)
  | _ => cases h

theorem length_le_intercalate {sep x : String} {xs : List String} (h : x ∈ xs) :
    x.length ≤ (sep.intercalate xs).length := by
  induction xs with
  | nil => cases h
  | cons y ys ih =>
      cases ys with
      | nil =>
          obtain rfl := List.mem_singleton.mp h
          exact Nat.le_of_eq (by rw [String.intercalate_singleton])
      | cons z zs =>
          rw [String.intercalate_cons_of_ne_nil (by simp), String.length_append,
            String.length_append]
          rcases List.mem_cons.mp h with rfl | h
          · omega
          · exact Nat.le_trans (ih h) (Nat.le_add_left _ _)

theorem intercalate_length_le (e : TypeRef) (as : List TypeRef) :
    (",".intercalate (uniqueNames as)).length ≤ (generic e as).uniqueName.length := by
  cases e <;> simp only [uniqueName, String.length_append] <;> omega

/-- A unique name is at least as long as arrays nest. -/
theorem arrayNesting_le_length (t : TypeRef) : t.arrayNesting ≤ t.uniqueName.length := by
  induction t with
  | named s f => exact Nat.zero_le _
  | generic e as _ ih =>
      refine arrayNestingAll_le.mpr fun a ha => ?_
      have mem : "[" ++ a.uniqueName ++ "]" ∈ uniqueNames as := by
        rw [uniqueNames_eq_map]
        exact List.mem_map_of_mem ha
      calc a.arrayNesting ≤ a.uniqueName.length := ih a ha
        _ ≤ ("[" ++ a.uniqueName ++ "]").length := by
          simp only [String.length_append]
          omega
        _ ≤ (",".intercalate (uniqueNames as)).length := length_le_intercalate mem
        _ ≤ (generic e as).uniqueName.length := intercalate_length_le e as
  | array e ih =>
      rw [arrayNesting, uniqueName, String.length_append]
      exact Nat.add_le_add ih (by decide)
  | param p n => exact Nat.zero_le _

mutual

/-- Whether no parameter stands in the reference, elements of instantiations left out. -/
def isClosed : TypeRef → Bool
  | .named .. => true
  | .generic _ as => areClosed as
  | .array e => e.isClosed
  | .param .. => false

def areClosed : List TypeRef → Bool
  | [] => true
  | a :: as => a.isClosed && areClosed as

end

mutual

/-- Whether arrays stand around closed references only. -/
def keepsArrays : TypeRef → Bool
  | .named .. => true
  | .generic _ as => keepArrays as
  | .array e => e.isClosed
  | .param .. => true

def keepArrays : List TypeRef → Bool
  | [] => true
  | a :: as => a.keepsArrays && keepArrays as

end

theorem areClosed_iff {as : List TypeRef} : areClosed as = true ↔ ∀ a ∈ as, a.isClosed := by
  induction as with
  | nil => simp [areClosed]
  | cons a as ih => simp [areClosed, ih]

theorem keepArrays_iff {as : List TypeRef} : keepArrays as = true ↔ ∀ a ∈ as, a.keepsArrays := by
  induction as with
  | nil => simp [keepArrays]
  | cons a as ih => simp [keepArrays, ih]

theorem bind_closed {t : TypeRef} (h : t.isClosed) (args : List TypeRef) : bind args t = t := by
  induction t with
  | named s f => rfl
  | generic e as _ ih =>
      have inner := areClosed_iff.mp h
      rw [bind_generic, List.map_congr_left fun a ha => ih a ha (inner a ha), List.map_id']
  | array e ih => rw [bind_array, ih h]
  | param p n => cases h

theorem arrayNesting_bind_le {t : TypeRef} (h : t.keepsArrays) {args : List TypeRef} {n : Nat}
    (ht : t.arrayNesting ≤ n) (ha : ∀ a ∈ args, a.arrayNesting ≤ n) :
    (bind args t).arrayNesting ≤ n := by
  induction t with
  | named s f => exact ht
  | generic e as _ ih =>
      rw [bind_generic, arrayNesting, arrayNestingAll_le]
      intro b hb
      obtain ⟨a, mem, rfl⟩ := List.mem_map.mp hb
      exact ih a mem (keepArrays_iff.mp h a mem) (arrayNestingAll_le.mp ht a mem)
  | array e => rw [bind_closed (t := .array e) h]; exact ht
  | param p m =>
      rw [bind_param]
      cases found : args[p.toNat]? with
      | none => exact Nat.zero_le n
      | some a => exact ha a (List.mem_of_getElem? found)

/-! ## Spelling -/

/-- Put together from parts in `U`: an instantiation takes its element from one with as many
arguments. -/
inductive Spelled (U : List TypeRef) : TypeRef → Prop where
  | part {t : TypeRef} (mem : t ∈ U) : Spelled U t
  | generic {e : TypeRef} {as bs : List TypeRef} (pattern : generic e bs ∈ U)
      (length : as.length = bs.length) (arguments : ∀ a ∈ as, Spelled U a) :
      Spelled U (generic e as)
  | array {e : TypeRef} (element : Spelled U e) : Spelled U (array e)

/-- What a declaration in `U` becomes with arguments that are spelled. -/
theorem Spelled.bind {U args : List TypeRef} (closed : PartsClosed U)
    (ha : ∀ a ∈ args, Spelled U a) {t : TypeRef} (ht : t ∈ U) : Spelled U (bind args t) := by
  induction t with
  | named s f => exact .part ht
  | generic e as _ ih =>
      rw [bind_generic]
      refine .generic ht (List.length_map _) fun b hb => ?_
      obtain ⟨a, mem, rfl⟩ := List.mem_map.mp hb
      exact ih a mem (closed.arguments e as ht a mem)
  | array e ih => exact .array (ih (closed.elements e ht))
  | param p n =>
      rw [bind_param]
      cases h : args[p.toNat]? with
      | none => exact .part ht
      | some a => exact ha a (List.mem_of_getElem? h)

theorem Spelled.mem_arguments {U : List TypeRef} (closed : PartsClosed U) {t a : TypeRef}
    (ht : Spelled U t) (h : a ∈ t.arguments) : Spelled U a := by
  cases t with
  | generic e as =>
      cases ht with
      | part mem => exact .part (closed.arguments e as mem a h)
      | generic pattern length arguments => exact arguments a h
  | _ => cases h

/-- All lists of the given length. -/
def tuples (xs : List TypeRef) : Nat → List (List TypeRef)
  | 0 => [[]]
  | n + 1 => xs.flatMap fun x => (tuples xs n).map (x :: ·)

theorem mem_tuples {xs as : List TypeRef} (h : ∀ a ∈ as, a ∈ xs) : as ∈ tuples xs as.length := by
  induction as with
  | nil => exact List.mem_singleton.mpr rfl
  | cons a as ih =>
      obtain ⟨ha, has⟩ := List.forall_mem_cons.mp h
      exact List.mem_flatMap.mpr ⟨a, ha, List.mem_map_of_mem (ih has)⟩

/-- Everything spelled with instantiations and arrays that nest `n` deep together. -/
def spellings (U : List TypeRef) : Nat → List TypeRef
  | 0 => U
  | n + 1 => U ++ (spellings U n).map array ++ U.flatMap fun t =>
      (tuples (spellings U n) t.arguments.length).map (generic t.elementType)

theorem mem_spellings {U : List TypeRef} {t : TypeRef} (ht : Spelled U t) {n : Nat}
    (hn : t.nesting + t.arrayNesting ≤ n) : t ∈ spellings U n := by
  induction ht generalizing n with
  | part mem =>
      cases n with
      | zero => exact mem
      | succ n => exact List.mem_append_left _ (List.mem_append_left _ mem)
  | @generic e as bs pattern length _ ih =>
      rw [nesting, arrayNesting] at hn
      cases n with
      | zero => omega
      | succ n =>
          have inner (a) (ha : a ∈ as) : a ∈ spellings U n := by
            have deep := nestingAll_le.mp (Nat.le_refl (nestingAll as)) a ha
            have arrays := arrayNestingAll_le.mp (Nat.le_refl (arrayNestingAll as)) a ha
            exact ih a ha (by omega)
          refine List.mem_append_right _ (List.mem_flatMap.mpr ⟨_, pattern, ?_⟩)
          exact List.mem_map_of_mem (length ▸ mem_tuples inner)
  | @array e _ ih =>
      rw [nesting, arrayNesting] at hn
      cases n with
      | zero => omega
      | succ n =>
          have inner : e ∈ spellings U n := ih (by omega)
          exact List.mem_append_left _ (List.mem_append_right _ (List.mem_map_of_mem inner))

end TypeRef

namespace Context

/-! ## What is reached -/

/-- Everything reached from `s` nests its arrays at most so deep. -/
def ArrayBounded (c : Context) (s : TypeRef) : Prop :=
  ∃ n, ∀ u, c.Reaches s u → u.arrayNesting ≤ n

/-- Arrays do not grow where no declaration puts one around a parameter. -/
theorem arrayBounded_of_keepsArrays {c : Context} (h : ∀ d ∈ c.declared, d.keepsArrays)
    (s : TypeRef) : c.ArrayBounded s := by
  refine ⟨TypeRef.arrayNestingAll (s :: c.declared), fun u run => ?_⟩
  have bound := TypeRef.arrayNestingAll_le.mp (Nat.le_refl (TypeRef.arrayNestingAll (s :: c.declared)))
  induction run with
  | refl => exact bound s List.mem_cons_self
  | tail _ step ih =>
      obtain ⟨r, d, hr, hd, rfl, -⟩ := step
      have mem := mem_declared hr hd
      exact TypeRef.arrayNesting_bind_le (h d mem) (bound d (List.mem_cons_of_mem s mem))
        fun a ha => Nat.le_trans (TypeRef.arrayNesting_arguments ha) ih

theorem Supertype.spelled {c : Context} {U : List TypeRef} (closed : TypeRef.PartsClosed U)
    (decls : ∀ d ∈ c.declared, d ∈ U) {s u : TypeRef} (hs : s.Spelled U) (h : c.Supertype s u) :
    u.Spelled U := by
  obtain ⟨r, d, hr, hd, rfl, -⟩ := h
  exact .bind closed (fun a ha => hs.mem_arguments closed ha) (decls d (mem_declared hr hd))

/-- With nested arrays bounded, finitely many references are reached. -/
theorem ArrayBounded.finite {c : Context} {s : TypeRef} (h : c.ArrayBounded s) :
    ∃ all : List TypeRef, ∀ u, c.Reaches s u → u ∈ all := by
  obtain ⟨n, bounded⟩ := h
  generalize hU : (s :: c.declared).flatMap TypeRef.parts = U
  have closed : TypeRef.PartsClosed U :=
    hU ▸ TypeRef.PartsClosed.flatMap fun t _ => TypeRef.partsClosed_parts t
  have mem (t) (ht : t ∈ s :: c.declared) : t ∈ U :=
    hU ▸ List.mem_flatMap.mpr ⟨t, ht, t.self_mem_parts⟩
  have start : s ∈ U := mem s List.mem_cons_self
  refine ⟨TypeRef.spellings U (maxGenericDepth + n) ++ U, fun u run => ?_⟩
  have spelled : u.Spelled U := by
    induction run with
    | refl => exact .part start
    | tail _ step ih =>
        exact step.spelled closed (fun d hd => mem d (List.mem_cons_of_mem s hd)) ih
  cases run.cases_tail with
  | inl same => exact List.mem_append_right _ (same ▸ start)
  | inr last =>
      obtain ⟨_, _, _, _, _, _, _, deep⟩ := last
      exact List.mem_append_left _
        (TypeRef.mem_spellings spelled (Nat.add_le_add deep (bounded u run)))

end Context
end Companions
