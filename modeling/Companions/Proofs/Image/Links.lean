import Companions.Proofs.Image.Validate
/-!
Nested lists and declaring links. Validation follows the declaring links only: a node that has a
declaring type is listed there, but a node may be listed where it does not belong.
-/
namespace Companions.Image
variable {m : Image}

/-- The node `p` has `c` in its nested list. -/
def Lists (m : Image) (p c : TypeId) : Prop := ∃ d, m.get? p = some d ∧ c ∈ d.nested

/-- The declaring type of the node `c` is `p`. -/
def Declares (m : Image) (p c : TypeId) : Prop := ∃ d, m.get? c = some d ∧ d.declaring = some p

/-- The two kinds of links say the same. -/
def Agrees (m : Image) : Prop := ∀ p c, m.Lists p c ↔ m.Declares p c

namespace Valid
variable (valid : m.Valid)
include valid

theorem lists_of_declares {p c : TypeId} (h : m.Declares p c) : m.Lists p c := by
  obtain ⟨d, node, link⟩ := h
  exact (valid.nodes c d node).listed p link

theorem lt_of_lists {p c : TypeId} (h : m.Lists p c) : c < m.types.length := by
  obtain ⟨d, node, mem⟩ := h
  exact (valid.nodes p d node).inside c mem

/-- The links agree if no top-level node is listed and no node is listed twice. -/
theorem agrees_iff : m.Agrees ↔ (∀ p c, m.Lists p c → ∃ q, m.Declares q c) ∧
    ∀ p q c, m.Lists p c → m.Lists q c → p = q := by
  constructor
  · intro agrees
    refine ⟨fun p c h => ⟨p, (agrees p c).mp h⟩, fun p q c hp hq => ?_⟩
    obtain ⟨d, node, outer⟩ := (agrees p c).mp hp
    obtain ⟨e, node', outer'⟩ := (agrees q c).mp hq
    cases node.symm.trans node'
    exact Option.some.inj (outer.symm.trans outer')
  · rintro ⟨declared, once⟩ p c
    refine ⟨fun h => ?_, valid.lists_of_declares⟩
    obtain ⟨q, link⟩ := declared p c h
    rwa [once p q c h (valid.lists_of_declares link)]

end Valid

/-- In an accepted image every declaring type lists the nodes it declares, and only nodes are
listed. The links agree exactly if every listed node has a declaring type and no two nodes list the
same one; validation asks for neither. -/
theorem links_of_validate (accepted : m.validate = .ok ()) :
    (∀ p c, m.Declares p c → m.Lists p c) ∧ (∀ p c, m.Lists p c → c < m.size) ∧
    (m.Agrees ↔ (∀ p c, m.Lists p c → ∃ q, m.Declares q c) ∧
      ∀ p q c, m.Lists p c → m.Lists q c → p = q) := by
  have valid := validate_ok_iff.mp accepted
  exact ⟨fun _ _ h => valid.lists_of_declares h, fun _ _ h => valid.lt_of_lists h, valid.agrees_iff⟩

/-- A type that lists a second one as nested in it. -/
def outerGame (declaring : Option TypeId) (roots : List TypeId) : Image where
  identity := { name := "Game" }
  types := [
    { name := "Outer", kind := .classType, flags := .isPublic, nested := [1] },
    { name := "Inner", kind := .classType, flags := .isPublic, declaring := declaring }]
  roots := roots

theorem outerGame_agrees :
    (outerGame (some 0) [0]).validate = .ok () ∧ (outerGame (some 0) [0]).Agrees := by
  have accepted : (outerGame (some 0) [0]).validate = .ok () := by rfl
  -- only the first node lists anything, and only the second
  have only {p c : TypeId} (h : (outerGame (some 0) [0]).Lists p c) : p = 0 ∧ c = 1 := by
    obtain ⟨d, node, mem⟩ := h
    match p with
    | 0 =>
        cases node
        exact ⟨rfl, List.mem_singleton.mp mem⟩
    | 1 =>
        cases node
        cases mem
  refine ⟨accepted, (links_of_validate accepted).2.2.mpr ⟨fun p c h => ?_, fun p q c hp hq => ?_⟩⟩
  · rw [(only h).2]
    exact ⟨0, _, rfl, rfl⟩
  · exact (only hp).1.trans (only hq).1.symm

/-- A second type at the top level: it is listed as nested all the same. -/
theorem outerGame_disagrees :
    (outerGame none [0, 1]).validate = .ok () ∧ (outerGame none [0, 1]).Lists 0 1 ∧
      ¬ (outerGame none [0, 1]).Declares 0 1 := by
  refine ⟨by rfl, ⟨_, rfl, List.mem_singleton_self 1⟩, ?_⟩
  rintro ⟨d, node, link⟩
  cases node
  cases link

end Companions.Image
