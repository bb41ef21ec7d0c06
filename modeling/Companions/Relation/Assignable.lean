import Companions.Context
/-!
Assignability. A candidate fits a target if they have one unique name, if both instantiate one
element and their arguments fit in turn, or if a base or interface of the candidate fits.
Supertypes are walked with a visited set. Instantiations may nest 64 deep, but arrays do not
count as nesting, so a generic that names itself with ever longer array arguments is never done:
every walk has a budget of steps, and a walk that uses it up gives no verdict.
-/
namespace Companions

/-- The answer of a walk, and how much it left out as nested too deep: pairs of arguments, and
supertypes. -/
structure Verdict where
  holds : Bool
  deepPairs : Nat := 0
  deepTypes : Nat := 0
  deriving DecidableEq, Repr

namespace Verdict

/-- The verdict after an earlier one that did not settle the matter. -/
def after (v earlier : Verdict) : Verdict :=
  { v with
    deepPairs := earlier.deepPairs + v.deepPairs
    deepTypes := earlier.deepTypes + v.deepTypes }

end Verdict

/-- How deep instantiations may nest in an assignability check. -/
def maxGenericDepth : Nat := 64

/-- Whether each pair passes, from the left up to the first that does not. -/
def allPairs (check : TypeRef → TypeRef → Option Verdict) :
    List (TypeRef × TypeRef) → Option Verdict
  | [] => some { holds := true }
  | (a, b) :: rest => do
    let v ← check a b
    if v.holds then return (← allPairs check rest).after v else return v

/-- Whether both instantiate one element with the same number of arguments, at least one, and
each argument passes against its partner. -/
def argumentsMatch (check : TypeRef → TypeRef → Option Verdict) : TypeRef → TypeRef → Option Verdict
  | .generic e as, .generic f bs =>
    if as ≠ [] ∧ as.length = bs.length ∧ e.uniqueName = f.uniqueName then
      allPairs check (as.zip bs)
    else some { holds := false }
  | _, _ => some { holds := false }

namespace Context

/-- Works off the pending types; each step takes one. -/
def walk (c : Context) (target : TypeRef) (fits : TypeRef → Option Verdict) :
    (budget : Nat) → (visited : List String) → (pending : List TypeRef) → Option Verdict
  | _, _, [] => some { holds := false }
  | 0, _, _ :: _ => none
  | n + 1, visited, t :: pending =>
    if t.uniqueName ∈ visited then walk c target fits n visited pending
    else if t.uniqueName = target.uniqueName then some { holds := true }
    else do
      let v ← fits t
      if v.holds then return v
      else
        let (next, deep) := (c.supertypes t).partition (·.nesting ≤ maxGenericDepth)
        let rest ← walk c target fits n (t.uniqueName :: visited) (next ++ pending)
        return (rest.after { v with deepTypes := v.deepTypes + deep.length })

/-- The check with `levels` levels of arguments left; without a level it fails at once. -/
def checkAt (c : Context) (budget : Nat) : (levels : Nat) → TypeRef → TypeRef → Option Verdict
  | 0, _, _ => some { holds := false, deepPairs := 1 }
  | n + 1, candidate, target =>
    c.walk target (fun t => argumentsMatch (c.checkAt budget n) t target) budget [] [candidate]

/-- Whether `candidate` can be used where `target` is expected. -/
def assignable? (c : Context) (budget : Nat) (candidate target : TypeRef) : Option Verdict :=
  c.checkAt budget (maxGenericDepth + 1) candidate target

end Context
end Companions
