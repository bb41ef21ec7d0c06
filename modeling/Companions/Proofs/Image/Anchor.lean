import Companions.Proofs.Image.Lookup
/-!
Tables over time. Whatever is done to an image, its table leads to nodes. Grafts keep its entries, and
enter no name but the full names of the nodes that they add, even where the table was not current
before.
-/
namespace Companions.Image
variable {n : Nat} {m m' m'' : Image}

/-! ## Entries lead to nodes -/

/-- Under no name does the table lead out of the arena. -/
def Anchored (m : Image) : Prop := ∀ name id, m.find? name = some id → id < m.size

namespace Anchored

/-- An arena that is no smaller, under the same table. -/
theorem kept (h : m.Anchored) (size : m.size ≤ m'.size) (lookup : m'.find? = m.find?) :
    m'.Anchored := by
  intro name id found
  rw [lookup] at found
  exact Nat.lt_of_lt_of_le (h name id found) size

theorem allocate (h : m.Anchored) (d : TypeDef) : (m.allocate d).Anchored := by
  have size : (m.allocate d).size = m.size + 1 := List.length_append
  intro name id found
  rw [size]
  rw [Image.allocate, find?, Table.get?_insertNew] at found
  split at found
  · rw [Option.some.injEq] at found
    rw [← found]
    cases known : m.lookup.get? ({ m with types := m.types ++ [d] }.fullName m.types.length) with
    | none => exact Nat.lt_succ_self _
    | some i => exact Nat.lt_succ_of_lt (h _ i known)
  · exact Nat.lt_succ_of_lt (h name id found)

theorem update (h : m.Anchored) (id : TypeId) (f : TypeDef → TypeDef) : (m.update id f).Anchored :=
  h.kept (Nat.le_of_eq (List.length_modify ..).symm) rfl

theorem addType (h : m.Anchored) (d : TypeDef) : (m.addType d).Anchored :=
  (h.allocate { d with declaring := none }).kept (Nat.le_refl _) rfl

theorem addNestedType (h : m.Anchored) (parent : TypeId) (d : TypeDef) :
    (m.addNestedType parent d).Anchored :=
  (h.allocate { d with declaring := some parent }).update parent _

theorem addReference (h : m.Anchored) (i : Identity) : (m.addReference i).Anchored := by
  unfold Image.addReference
  split
  · exact h
  · exact h.kept (Nat.le_refl _) rfl

theorem rebuildLookup (m : Image) : m.rebuildLookup.Anchored := by
  intro name id found
  rw [Image.rebuildLookup, find?, Table.get?_foldl_insertNew] at found
  exact List.mem_range.mp (List.mem_of_find?_eq_some found)

theorem of_shape (h : m.Anchored) (same : m'.shape = m.shape) : m'.Anchored := by
  intro name id found
  rw [← find?_shape, same, find?_shape] at found
  rw [size_of_shape same]
  exact h name id found

end Anchored

/-- An image as it can come about: read, or made from nothing, and changed since by more references and
nodes, and by any edits of nodes. -/
inductive Made : Image → Prop
  | new (i : Identity) : Made { identity := i }
  | read {m : Image} {image : Bytes} {symbols : Option Bytes}
      (h : Image.read image symbols = .ok m) : Made m
  | refer {m : Image} (h : Made m) (i : Identity) : Made (m.addReference i)
  | top {m : Image} (h : Made m) (d : TypeDef) : Made (m.addType d)
  | nest {m : Image} (h : Made m) (parent : TypeId) (d : TypeDef) : Made (m.addNestedType parent d)
  | edit {m : Image} (h : Made m) (id : TypeId) (f : TypeDef → TypeDef) : Made (m.update id f)

theorem Made.anchored (h : m.Made) : m.Anchored := by
  induction h with
  | new i => exact nofun
  | read h =>
      obtain ⟨_, _, _, -, -, -, rfl | ⟨s, rfl⟩⟩ := read_eq_ok h
      · exact .rebuildLookup _
      · exact (Anchored.rebuildLookup _).of_shape (shape_applySymbols _ s)
  | refer _ i ih => exact ih.addReference i
  | top _ d ih => exact ih.addType d
  | nest _ parent d ih => exact ih.addNestedType parent d
  | edit _ id f ih => exact ih.update id f

/-! ## Grafts -/

/-- What becomes of names and of the table: declaring chains end, nodes keep their names, the table
keeps its entries, and an entry more is that of a node more, under its full name. -/
structure Advances (m m' : Image) : Prop where
  keeps : m.Keeps m'
  size : m.size ≤ m'.size
  grounded : m'.Grounded
  kept : ∀ name id, m.find? name = some id → m'.find? name = some id
  entered : ∀ name id, m'.find? name = some id →
    m.find? name = some id ∨ m.size ≤ id ∧ id < m'.size ∧ m'.fullName id = name

namespace Advances

/-- Changes within nodes. -/
theorem of_same (grounded : m.Grounded) (keeps : m.Keeps m') (size : m'.size = m.size)
    (lookup : m'.find? = m.find?) : m.Advances m' where
  keeps := keeps
  size := Nat.le_of_eq size.symm
  grounded := grounded.kept keeps size
  kept name id found := by
    rw [lookup]
    exact found
  entered name id found := by
    rw [lookup] at found
    exact .inl found

theorem trans (h : m.Advances m') (h' : m'.Advances m'') : m.Advances m'' where
  keeps := h.keeps.trans h'.keeps
  size := Nat.le_trans h.size h'.size
  grounded := h'.grounded
  kept name id found := h'.kept name id (h.kept name id found)
  entered name id found := by
    rcases h'.entered name id found with earlier | ⟨late, there, named⟩
    · rcases h.entered name id earlier with old | ⟨late, there, named⟩
      · exact .inl old
      · refine .inr ⟨late, Nat.lt_of_lt_of_le there h'.size, ?_⟩
        rw [h.grounded.fullName_kept h'.keeps there, named]
    · exact .inr ⟨Nat.le_trans h.size late, there, named⟩

/-- A node that is nested under a free name. -/
theorem nest (grounded : m.Grounded) {parent : TypeId} {d : TypeDef} (inside : parent < m.size)
    (free : m.find? (Name.nest (m.fullName parent) d.name) = none) :
    m.Advances (m.addNestedType parent d) where
  keeps := keeps_addNestedType m parent d
  size := (hosts_addNestedType m.size m parent d).size
  grounded := by
    obtain ⟨l, new⟩ := grounded.chain_addNestedType inside d
    exact grounded.more (keeps_addNestedType m parent d) (size_addNestedType ..) new
  kept name id found := by
    rw [find?_addNestedType grounded.linked inside]
    split
    · next same =>
        rw [← same, found]
        rfl
    · exact found
  entered name id found := by
    rw [find?_addNestedType grounded.linked inside] at found
    split at found
    · next same =>
        rw [free, Option.getD_none, Option.some.injEq] at found
        subst found
        obtain ⟨l, new⟩ := grounded.chain_addNestedType inside d
        refine .inr ⟨Nat.le_refl _, ?_, ?_⟩
        · rw [size_addNestedType]
          exact Nat.lt_succ_self _
        · rw [new.fullName_eq, same]
    · exact .inl found

end Advances

theorem Graft.advances (h : Graft n m m') (grounded : m.Grounded) : m.Advances m' := by
  cases h with
  | refer i =>
      refine .of_same grounded (hosts_addReference m.size m i).extends.keeps (size_addReference m i) ?_
      unfold addReference
      split <;> rfl
  | nest bare inside free => exact .nest grounded inside free
  | @attach owner a new =>
      refine .of_same grounded ?_ (List.length_modify ..) rfl
      intro id d node
      rw [get?_update, node]
      split
      · exact ⟨_, rfl, rfl, rfl, rfl⟩
      · exact ⟨d, rfl, rfl, rfl, rfl⟩

theorem Grafts.advances (h : m.Grafts n m') (grounded : m.Grounded) : m.Advances m' := by
  induction h with
  | refl => exact .of_same grounded (.refl m) rfl rfl
  | tail _ step ih => exact ih.trans (step.advances ih.grounded)

end Companions.Image
