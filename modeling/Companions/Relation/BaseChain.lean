import Companions.Context
/-!
Base chains: the ancestors of a type, the immediate base first, each bound to the arguments of
the one before it. A chain ends at a reference that does not resolve, at a node without base, or
where a definition would come a second time.
-/
namespace Companions

structure BaseChain where
  items : List TypeRef := []
  /-- Whether the chain was cut because a definition came back. -/
  cyclic : Bool := false
  deriving DecidableEq, Repr, Inhabited

namespace TypeRef

mutual

/-- The reference and everything that stands in its arguments. -/
def parts : TypeRef → List TypeRef
  | .named s f => [.named s f]
  | .generic e as => .generic e as :: partsAll as
  | .array e => .array e :: e.parts
  | .param p n => [.param p n]

def partsAll : List TypeRef → List TypeRef
  | [] => []
  | a :: as => a.parts ++ partsAll as

end

end TypeRef

namespace Context

/-- Every base declared in the context. -/
def bases (c : Context) : List TypeRef := c.images.flatMap fun m => m.types.filterMap (·.base)

def chainFrom (c : Context) : (fuel : Nat) → (seen : List String) → TypeRef → BaseChain
  | 0, _, _ => {}
  | n + 1, seen, t =>
    match c.base? t with
    | none => {}
    | some b =>
      if b.definitionName ∈ seen then { cyclic := true }
      else
        let rest := c.chainFrom n (b.definitionName :: seen) b
        { rest with items := b :: rest.items }

/-- What a link can resolve to is written in a declared base or in the reference itself, so there
are no more links than parts of these, and one that does not resolve. -/
def baseChain (c : Context) (t : TypeRef) : BaseChain :=
  c.chainFrom (t.parts.length + (c.bases.flatMap (·.parts)).length + 2) [t.definitionName] t

/-- The first ancestor that instantiates the definition of `template`. -/
def baseInstance? (c : Context) (t template : TypeRef) : Option TypeRef :=
  (c.baseChain t).items.find? fun b =>
    b.isGeneric && b.definitionName = template.definitionName

end Context
end Companions
