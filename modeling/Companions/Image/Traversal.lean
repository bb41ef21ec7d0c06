import Companions.Image.Basic
/-!
The order of nodes: each top-level node, followed by the nodes nested in it. Ids that lead
nowhere or were met before are passed over.
-/
namespace Companions.Image

/-- Works off a stack of ids. Every step takes one id, so `fuel` is a bound on the ids that can
ever come onto the stack. -/
def preorder (m : Image) : (fuel : Nat) → (stack seen : List TypeId) → List TypeId
  | 0, _, _ => []
  | _, [], _ => []
  | n + 1, id :: stack, seen =>
    if id ∈ seen then preorder m n stack seen
    else match m.get? id with
      | none => preorder m n stack (id :: seen)
      | some d => id :: preorder m n (d.nested ++ stack) (id :: seen)

/-- All nodes that can be reached from the top level. No id is listed by more places than roots
and nested lists have entries. -/
def typeIds (m : Image) : List TypeId :=
  m.preorder (m.roots.length + (m.types.flatMap (·.nested)).length) m.roots []

/-- The symbols of the image: a row for each node that can be reached. -/
def symbols (m : Image) : Symbols where
  assembly := m.identity.display
  entries := m.typeIds.filterMap fun id =>
    (m.get? id).map fun d => ⟨m.fullName id, d.source⟩

/-- Gives the node of each row's name the location of the row, hidden rows included. -/
def applySymbols (m : Image) (s : Symbols) : Image :=
  s.entries.foldl
    (fun m e =>
      match m.find? e.typeName with
      | some id => m.update id fun d => { d with source := e.location }
      | none => m)
    m

end Companions.Image
