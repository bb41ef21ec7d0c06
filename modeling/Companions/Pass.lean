import Companions.Journal
import Companions.Relation.Assignable
import Companions.Relation.BaseChain
/-!
Passes: computations that keep a journal and end in a value, in an error, or not at all within
their budget. What was written down before an error stays.
-/
namespace Companions

/-- How a computation ended. -/
inductive Attempt (ε α : Type) where
  | done (value : α)
  | failed (error : ε)
  | unfinished
  deriving DecidableEq, Repr

namespace Attempt

variable {ε α β : Type}

def bind (a : Attempt ε α) (f : α → Attempt ε β) : Attempt ε β :=
  match a with
  | .done a => f a
  | .failed e => .failed e
  | .unfinished => .unfinished

def mapError {ε' : Type} (f : ε → ε') : Attempt ε α → Attempt ε' α
  | .done a => .done a
  | .failed e => .failed (f e)
  | .unfinished => .unfinished

def map (f : α → β) (a : Attempt ε α) : Attempt ε β := a.bind fun a => .done (f a)

end Attempt

/-- An error, and the state in which it was met: what was done before it stays done. -/
structure Failure (σ ε : Type) where
  left : σ
  error : ε
  deriving DecidableEq, Repr

structure Pass (ε α : Type) where
  journal : Journal
  result : Attempt ε α

namespace Pass

variable {ε α β : Type}

def done (a : α) : Pass ε α := ⟨[], .done a⟩

def fail (e : ε) : Pass ε α := ⟨[], .failed e⟩

/-- Writes into the journal. -/
def say (j : Journal) : Pass ε Unit := ⟨j, .done ()⟩

def bind (p : Pass ε α) (f : α → Pass ε β) : Pass ε β :=
  match p.result with
  | .done a => ⟨p.journal ++ (f a).journal, (f a).result⟩
  | .failed e => ⟨p.journal, .failed e⟩
  | .unfinished => ⟨p.journal, .unfinished⟩

instance : Monad (Pass ε) where
  pure := done
  bind := bind

/-- The pass inside a span. -/
def within (s : Span) (p : Pass ε α) : Pass ε α := { p with journal := .enter s :: p.journal ++ [.leave] }

def mapError {ε' : Type} (f : ε → ε') (p : Pass ε α) : Pass ε' α := ⟨p.journal, p.result.mapError f⟩

/-- The pass in a state that it only looks at. -/
def leaving {σ : Type} (s : σ) (p : Pass ε α) : Pass (Failure σ ε) α := p.mapError fun e => ⟨s, e⟩

theorem result_bind (p : Pass ε α) (f : α → Pass ε β) :
    (p >>= f).result = p.result.bind fun a => (f a).result := by
  obtain ⟨j, r⟩ := p
  cases r <;> rfl

/-- The first item that passes the test; later ones are not tested. -/
def first? (test : α → Pass ε Bool) : List α → Pass ε (Option α)
  | [] => done none
  | a :: as => do if ← test a then return some a else first? test as

/-- The items that pass the test, in order. -/
def select (test : α → Pass ε Bool) : List α → Pass ε (List α)
  | [] => done []
  | a :: as => do
    let keep ← test a
    let rest ← select test as
    return if keep then a :: rest else rest

/-- Whether every item passes, tested from the left up to the first that does not. -/
def all (test : α → Pass ε Bool) : List α → Pass ε Bool
  | [] => done true
  | a :: as => do if ← test a then all test as else return false

/-- The results for all items, in order. -/
def forAll (f : α → Pass ε β) : List α → Pass ε (List β)
  | [] => done []
  | a :: as => do
    let b ← f a
    let bs ← forAll f as
    return b :: bs

end Pass

/-- Target of the events about relations of types. -/
def relationTarget : String := "ecsgen_model::relations"

namespace Context

variable {ε : Type}

/-- The assignability check as a step of a pass. -/
def assignable (c : Context) (budget : Nat) (candidate target : TypeRef) : Pass ε Bool :=
  match c.assignable? budget candidate target with
  | none => ⟨[], .unfinished⟩
  | some v =>
    let tooDeep := Entry.warning relationTarget "generic nesting too deep"
    ⟨List.replicate v.deepPairs (tooDeep ["candidate", "target"]) ++
      List.replicate v.deepTypes (tooDeep ["ty"]) ++
      [.event ⟨.trace, relationTarget, "is_assignable", ["candidate", "target", "result"]⟩],
      .done v.holds⟩

/-- Notes that a chain was followed to a point where a definition came back. -/
def sayCyclic (chain : BaseChain) : Pass ε Unit :=
  .say (if chain.cyclic then [.warning relationTarget "cyclic base chain" ["ty", "base"]] else [])

/-- The whole base chain. -/
def ancestors (c : Context) (t : TypeRef) : Pass ε (List TypeRef) := do
  sayCyclic (c.baseChain t)
  return (c.baseChain t).items

/-- The first ancestor that passes the test; the chain is followed no further. -/
def ancestor? (c : Context) (t : TypeRef) (test : TypeRef → Bool) : Pass ε (Option TypeRef) :=
  match (c.baseChain t).items.find? test with
  | some b => return some b
  | none => do
    sayCyclic (c.baseChain t)
    return none

end Context
end Companions
