import Companions.Pattern.Escape
/-!
Classes of characters in brackets: characters, ranges, named classes and classes within, joined by
`&&`, `--` and `~~` from the left.
-/
namespace Companions.Pattern

/-- What joins two sides of a class. -/
inductive Joint where
  | both
  | except
  | either
  deriving DecidableEq, Repr

/-- A class as far as it has been read. -/
structure ClassReading where
  modes : Modes
  negated : Bool := false
  /-- The side before the last joint, and how deep it nests. -/
  left : Option (Joint × CharSet × Nat) := none
  right : CharSet := .empty
  /-- How many items the right side has, and how deep the deepest of them nests. -/
  items : Nat := 0
  levels : Nat := 0
  /-- Whether some item is no class within. -/
  hasChars : Bool := false
  deriving Repr

/-- What several parts nest in counts as a level, where there are at least two. -/
def levelsAround (parts levels : Nat) : Nat := if parts < 2 then levels else levels + 1

namespace ClassReading

def add (r : ClassReading) (s : CharSet) (levels : Nat) : ClassReading :=
  { r with right := .union r.right s, items := r.items + 1, levels := max r.levels levels }

/-- Adds characters that the class itself names. -/
def addChars (r : ClassReading) (s : CharSet) : ClassReading := { r.add s 0 with hasChars := true }

/-- Both sides together. -/
def joined (r : ClassReading) : CharSet :=
  match r.left with
  | none => r.right
  | some (joint, left, _) =>
    let a := r.modes.fold left
    let b := r.modes.fold r.right
    match joint with
    | .both => .both a b
    | .except => .except a b
    | .either => .except (.union a b) (.both a b)

def joinedLevels (r : ClassReading) : Nat :=
  let right := levelsAround r.items r.levels
  match r.left with
  | none => right
  | some (_, _, left) => max left right + 1

def join (r : ClassReading) (joint : Joint) : ClassReading :=
  { r with left := some (joint, r.joined, r.joinedLevels), right := .empty, items := 0, levels := 0 }

/-- The class at its closing bracket; case variants are added before it is negated. -/
def close? (r : ClassReading) : Option (CharSet × Nat) :=
  if r.hasChars && !r.modes.readsChars then none
  else
    let s := r.modes.fold r.joined
    (if r.negated then r.modes.complement? s else some s).map fun s => (s, r.joinedLevels + 1)

/-- Hyphens that open a class stand for themselves; every turn takes one. -/
def leadingHyphens : (turns : Nat) → ClassReading → List Char → ClassReading × List Char
  | 0, r, cs => (r, cs)
  | n + 1, r, cs =>
    match r.modes.skip cs with
    | '-' :: cs => leadingHyphens n (r.addChars (.only '-')) cs
    | cs => (r, cs)

/-- Reads the start of a class behind its bracket: a caret negates it, and a closing bracket that
would leave it empty stands for itself. -/
def start (modes : Modes) (cs : List Char) : ClassReading × List Char :=
  let (negated, cs) := match modes.skip cs with
    | '^' :: cs => (true, cs)
    | cs => (false, cs)
  let (r, cs) := leadingHyphens (cs.length + 1) { modes := modes, negated := negated } cs
  match cs with
  | ']' :: cs => if r.items = 0 then (r.addChars (.only ']'), cs) else (r, ']' :: cs)
  | cs => (r, cs)

end ClassReading

/-- A named class behind its opening bracket, such as `:alpha:]` or `:^alpha:]`. -/
def namedClass? : List Char → Option (Bool × CharSet × List Char)
  | ':' :: cs =>
    let (negated, cs) := match cs with
      | '^' :: cs => (true, cs)
      | cs => (false, cs)
    match cs.dropWhile (· ≠ ':') with
    | ':' :: ']' :: rest =>
      (CharSet.named? (String.ofList (cs.takeWhile (· ≠ ':')))).map fun s => (negated, s, rest)
    | _ => none
  | _ => none

/-- A single character or an escape in a class. Without Unicode only ASCII characters are
allowed. -/
def classAtom? (m : Modes) : List Char → Option (Escape × List Char)
  | [] => none
  | '\\' :: cs => (escape? m cs).filter fun r => m.unicode || r.1.isAscii
  | c :: cs => if m.unicode || c.toNat < 0x80 then some (.char c, cs) else none

/-- A set that stands alone in a class. -/
def classSet? : Escape → Option CharSet
  | .char c => some (.only c)
  | .set s => some s
  | .boundary _ => none

/-- A range, or what stands alone. A hyphen makes no range in front of a bracket or a hyphen. -/
def classRange? (m : Modes) (cs : List Char) : Option (CharSet × List Char) := do
  let (first, rest) ← classAtom? m cs
  let alone := (classSet? first).map fun s => (s, rest)
  match m.skip rest with
  | '-' :: behind =>
    if m.peek? behind = some ']' ∨ m.peek? behind = some '-' then alone
    else
      match first, ← classAtom? m (m.skip behind) with
      | .char a, (.char b, rest) => if a ≤ b then some (.range a b, rest) else none
      | _, _ => none
  | _ => alone

/-- Reads a class up to its closing bracket, and tells how deep it nests. Every turn takes a
character, and a class within is read by turns of its own. -/
def classItems? : (turns : Nat) → ClassReading → List Char → Option ((CharSet × Nat) × List Char)
  | 0, _, _ => none
  | n + 1, r, cs =>
    match r.modes.skip cs with
    | [] => none
    | ']' :: rest => r.close?.map fun s => (s, rest)
    | '[' :: rest =>
      match namedClass? rest with
      | some (negated, s, rest) => do
        let s ← if negated then r.modes.complement? s else some s
        classItems? n (r.addChars s) rest
      | none => do
        let (inner, rest) := ClassReading.start r.modes rest
        let ((s, levels), rest) ← classItems? n inner rest
        classItems? n (r.add s levels) rest
    | '&' :: '&' :: rest => classItems? n (r.join .both) rest
    | '-' :: '-' :: rest => classItems? n (r.join .except) rest
    | '~' :: '~' :: rest => classItems? n (r.join .either) rest
    | cs => do
      let (s, rest) ← classRange? r.modes cs
      classItems? n (r.addChars s) rest

/-- Reads a class behind its opening bracket. -/
def class? (m : Modes) (cs : List Char) : Option ((CharSet × Nat) × List Char) :=
  let (r, rest) := ClassReading.start m cs
  classItems? (cs.length + 1) r rest

end Companions.Pattern
