import Mathlib.Data.List.Perm.Subperm
import Companions.Proofs.Image.Frame
/-!
Declaring chains. A node whose chain ends is named by it, and keeps its name whatever is added to the
image: the chain meets no node twice, so it is climbed to its end within the steps allowed.
-/
namespace Companions.Image
variable {m m' : Image}

/-- The declaring chain of a node ends: its nodes, innermost first, and the full name it gives. -/
inductive Chain (m : Image) : TypeId → List TypeId → String → Prop where
  | top {id : TypeId} {d : TypeDef} (node : m.get? id = some d) (free : d.declaring = none) :
      Chain m id [id] (Name.qualify d.space d.name)
  | inner {id parent : TypeId} {d : TypeDef} {l : List TypeId} {name : String}
      (node : m.get? id = some d) (link : d.declaring = some parent) (outer : Chain m parent l name) :
      Chain m id (id :: l) (Name.nest name d.name)

/-- Every node keeps its name and its declaring link. -/
def Keeps (m m' : Image) : Prop := ∀ id d, m.get? id = some d →
  ∃ d', m'.get? id = some d' ∧ d'.space = d.space ∧ d'.name = d.name ∧ d'.declaring = d.declaring

theorem Keeps.refl (m : Image) : m.Keeps m := fun _ d node => ⟨d, node, rfl, rfl, rfl⟩

theorem Keeps.trans {m'' : Image} (h : m.Keeps m') (h' : m'.Keeps m'') : m.Keeps m'' := by
  intro id d node
  obtain ⟨d', node', space, name, link⟩ := h id d node
  obtain ⟨d'', node'', space', name', link'⟩ := h' id d' node'
  exact ⟨d'', node'', space'.trans space, name'.trans name, link'.trans link⟩

theorem Extends.keeps {fs : List AuthoringField} (h : m.Extends m.size fs m') : m.Keeps m' := by
  intro id d node
  obtain ⟨d', node', grown⟩ := h.nodes id (lt_of_get? node) d node
  exact ⟨d', node', by rw [grown.same], by rw [grown.same], by rw [grown.same]⟩

namespace Chain
variable {id : TypeId} {l l' : List TypeId} {name name' : String}

theorem unique (h : m.Chain id l name) (h' : m.Chain id l' name') : l = l' := by
  induction h generalizing l' name' with
  | top node free =>
      cases h' with
      | top => rfl
      | inner node' link =>
          cases node.symm.trans node'
          cases free.symm.trans link
  | inner node link _ ih =>
      cases h' with
      | top node' free =>
          cases node.symm.trans node'
          cases free.symm.trans link
      | inner node' link' outer =>
          cases node.symm.trans node'
          cases link.symm.trans link'
          rw [ih outer]

/-- A node of the chain has a chain of its own, the rest of this one. -/
theorem suffix (h : m.Chain id l name) {i : TypeId} (hi : i ∈ l) :
    ∃ l' name', m.Chain i l' name' ∧ l' <:+ l := by
  induction h with
  | top node free =>
      obtain rfl := List.mem_singleton.mp hi
      exact ⟨_, _, .top node free, List.suffix_refl _⟩
  | inner node link outer ih =>
      rcases List.mem_cons.mp hi with rfl | hi
      · exact ⟨_, _, .inner node link outer, List.suffix_refl _⟩
      · obtain ⟨l', name', chain, suffix⟩ := ih hi
        exact ⟨l', name', chain, suffix.trans (List.suffix_cons ..)⟩

theorem nodup (h : m.Chain id l name) : l.Nodup := by
  induction h with
  | top => exact List.nodup_singleton _
  | inner node link outer ih =>
      refine List.nodup_cons.mpr ⟨fun met => ?_, ih⟩
      -- the node would have its own chain for a proper part
      obtain ⟨l', name', again, suffix⟩ := outer.suffix met
      have same := (Chain.inner node link outer).unique again
      have shorter := suffix.length_le
      rw [← same, List.length_cons] at shorter
      omega

theorem lt (h : m.Chain id l name) : ∀ i ∈ l, i < m.types.length := by
  induction h with
  | top node free => exact List.forall_mem_singleton.mpr (lt_of_get? node)
  | inner node link outer ih => exact List.forall_mem_cons.mpr ⟨lt_of_get? node, ih⟩

theorem length_le (h : m.Chain id l name) : l.length ≤ m.types.length := by
  have inside : l ⊆ List.range m.types.length := fun i hi => List.mem_range.mpr (h.lt i hi)
  simpa using (h.nodup.subperm inside).length_le

/-- Steps for its links are enough to climb the chain. -/
theorem fullNameFrom_eq (h : m.Chain id l name) {n : Nat} (steps : l.length ≤ n + 1)
    (inner : List String) : m.fullNameFrom n id inner = inner.foldl Name.nest name := by
  induction h generalizing n inner with
  | top node free =>
      cases n with
      | zero => rw [fullNameFrom, node]
      | succ n =>
          rw [fullNameFrom, node]
          simp only [free]
  | @inner id parent d l name node link outer ih =>
      cases outer with
      | top | inner =>
          obtain ⟨n, rfl⟩ : ∃ k, n = k + 1 := ⟨n - 1, by simp at steps; omega⟩
          rw [fullNameFrom, node]
          simp only [link]
          exact ih (Nat.le_of_succ_le_succ steps) (d.name :: inner)

theorem fullName_eq (h : m.Chain id l name) : m.fullName id = name :=
  h.fullNameFrom_eq (Nat.le_succ_of_le h.length_le) []

/-- Chains stay where nodes keep names and links. -/
theorem kept (h : m.Chain id l name) (keeps : m.Keeps m') : m'.Chain id l name := by
  induction h with
  | top node free =>
      obtain ⟨d', node', space, name, link⟩ := keeps _ _ node
      rw [← space, ← name]
      exact .top node' (link.trans free)
  | inner node link outer ih =>
      obtain ⟨d', node', -, name, link'⟩ := keeps _ _ node
      rw [← name]
      exact .inner node' (link'.trans link) ih

end Chain

/-- The declaring chain of every node ends. -/
def Grounded (m : Image) : Prop := ∀ id < m.size, ∃ l name, m.Chain id l name

namespace Grounded

theorem linked (h : m.Grounded) : m.Linked := by
  intro d hd parent link
  obtain ⟨id, node⟩ := mem_types_iff.mp hd
  obtain ⟨l, name, chain⟩ := h id (lt_of_get? node)
  cases chain with
  | top node' free =>
      cases node.symm.trans node'
      cases free.symm.trans link
  | inner node' link' outer =>
      cases node.symm.trans node'
      cases link.symm.trans link'
      cases outer with
      | top node _ | inner node _ _ => exact lt_of_get? node

theorem kept (h : m.Grounded) (keeps : m.Keeps m') (size : m'.size = m.size) : m'.Grounded := by
  intro id inside
  obtain ⟨l, name, chain⟩ := h id (size ▸ inside)
  exact ⟨l, name, chain.kept keeps⟩

/-- Where nodes keep their names and links, and a new one has a chain, every chain ends. -/
theorem more (h : m.Grounded) (keeps : m.Keeps m') (size : m'.size = m.size + 1) {l : List TypeId}
    {full : String} (new : m'.Chain m.size l full) : m'.Grounded := by
  intro id inside
  rw [size] at inside
  rcases Nat.lt_succ_iff_lt_or_eq.mp inside with old | rfl
  · obtain ⟨l, name, chain⟩ := h id old
    exact ⟨l, name, chain.kept keeps⟩
  · exact ⟨l, full, new⟩

theorem fullName_kept (h : m.Grounded) (keeps : m.Keeps m') {id : TypeId} (inside : id < m.size) :
    m'.fullName id = m.fullName id := by
  obtain ⟨l, name, chain⟩ := h id inside
  rw [chain.fullName_eq, (chain.kept keeps).fullName_eq]

end Grounded

end Companions.Image
