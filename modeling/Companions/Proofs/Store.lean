import Companions.File.Script
/-!
A store of files under names, without directories, in which writing to some of the names fails and
leaves everything as it was.
-/
namespace Companions

structure Store where
  files : List (String × Bytes) := []
  /-- Where no write succeeds. -/
  faults : List String := []

namespace Store

def get? (s : Store) (p : Path) : Option Bytes := s.files.lookup p.text

def put (s : Store) (p : Path) (bytes : Bytes) : Bool × Store :=
  if p.text ∈ s.faults then (false, s) else (true, { s with files := (p.text, bytes) :: s.files })

instance : FileSystem Store where
  read := get?
  isFile s p := (s.get? p).isSome
  canonical _ p := some p
  write := put
  append s p bytes := s.put p ((s.get? p).getD [] ++ bytes)
  makeDirectories s _ := (true, s)

theorem get?_put (s : Store) (p q : Path) (bytes : Bytes) : (s.put p bytes).2.get? q =
    if (s.put p bytes).1 ∧ q = p then some bytes else s.get? q := by
  rw [put]
  split
  · simp
  · simp only [get?, List.lookup_cons, true_and]
    by_cases same : q = p
    · simp [same]
    · have other : q.text ≠ p.text := fun texts => same (congrArg Path.mk texts)
      simp [same, beq_eq_false_iff_ne.mpr other]

end Store
end Companions
