/-!
Tables from text to values in the order of insertion. A key that is present keeps its value.
-/
namespace Companions

structure Table (α : Type) where
  entries : List (String × α) := []
  deriving Repr, DecidableEq, Inhabited

namespace Table

variable {α : Type}

def get? (t : Table α) (key : String) : Option α := t.entries.lookup key

def contains (t : Table α) (key : String) : Bool := (t.get? key).isSome

/-- Adds the value unless the key has one. -/
def insertNew (t : Table α) (key : String) (value : α) : Table α :=
  if t.contains key then t else ⟨t.entries ++ [(key, value)]⟩

/-- Puts the value under the key, in place of the one that may stand there. -/
def insert (t : Table α) (key : String) (value : α) : Table α :=
  if t.contains key then ⟨t.entries.map fun e => if e.1 = key then (key, value) else e⟩
  else ⟨t.entries ++ [(key, value)]⟩

def keys (t : Table α) : List String := t.entries.map (·.1)

def values (t : Table α) : List α := t.entries.map (·.2)

def size (t : Table α) : Nat := t.entries.length

end Table
end Companions
