import Companions.Pattern.Class
import Companions.Text.Numeric
/-!
Reading patterns from their text. Groups that are still open are kept in a list, the innermost
first. Counted repetitions are not read, nor is a look at what stands further off.
-/
namespace Companions.Pattern

/-- A part of a pattern, and how deep it nests. -/
structure Part where
  pattern : Pattern
  levels : Nat := 0
  deriving DecidableEq, Repr

/-- How deep groups, classes, repetitions, choices and sequences may nest. -/
def maxLevels : Nat := 250

/-- What stands before an open group. -/
structure OpenGroup where
  /-- The modes that come back when the group is closed. -/
  modes : Modes
  choices : List Part
  items : List (Option Part)
  deriving DecidableEq, Repr

/-- A pattern as far as it has been read. -/
structure Reading where
  modes : Modes := {}
  /-- The names that groups have. -/
  names : List (List Char) := []
  groups : List OpenGroup := []
  /-- The choices of the innermost group that are complete, the last first. -/
  choices : List Part := []
  /-- The items of the choice at hand, the last first; a switch of modes is one without pattern. -/
  items : List (Option Part) := []
  deriving Repr

namespace Reading

def add (r : Reading) (p : Pattern) : Reading := { r with items := some ⟨p, 0⟩ :: r.items }

/-- How deep the deepest part nests. -/
def deepest (parts : List Part) : Nat := (parts.map (·.levels)).foldl max 0

/-- The choice at hand. -/
def choice (r : Reading) : Part :=
  let parts := r.items.reverse.filterMap id
  ⟨.all (parts.map (·.pattern)), levelsAround r.items.length (deepest parts)⟩

/-- The choices of the innermost group. -/
def whole (r : Reading) : Part :=
  let parts := r.choice :: r.choices
  let levels := levelsAround parts.length (deepest parts)
  match (parts.map (·.pattern)).reverse with
  | [] => ⟨.empty, levels⟩
  | p :: ps => ⟨.firstOf p ps, levels⟩

/-- The pattern at the end of the text, unless it nests too deep or a group is still open. -/
def finish? (r : Reading) : Option Pattern :=
  if r.groups = [] ∧ r.whole.levels ≤ maxLevels then some r.whole.pattern else none

def nextChoice (r : Reading) : Reading := { r with choices := r.choice :: r.choices, items := [] }

/-- Opens a group in which other modes hold. -/
def openGroup (r : Reading) (modes : Modes) : Reading :=
  { r with
    modes := modes
    groups := ⟨r.modes, r.choices, r.items⟩ :: r.groups
    choices := []
    items := [] }

def closeGroup? (r : Reading) : Option Reading :=
  match r.groups with
  | [] => none
  | g :: groups =>
    let group := { r.whole with levels := r.whole.levels + 1 }
    some { r with
      modes := g.modes, groups := groups, choices := g.choices, items := some group :: g.items }

/-- Puts a repetition in place of the last item. -/
def repeat? (r : Reading) (make : Pattern → Pattern) : Option Reading :=
  match r.items with
  | some p :: items => some { r with items := some ⟨make p.pattern, p.levels + 1⟩ :: items }
  | _ => none

end Reading

/-- The letters of modes up to a colon or a closing parenthesis. Each may come once, and so may
the hyphen behind which modes are switched off; a hyphen is not the last. -/
def switches? : (seen : List Char) → Modes → List Char → Option (Modes × Char × List Char)
  | _, _, [] => none
  | seen, m, c :: cs =>
    if c = ':' ∨ c = ')' then if seen.head? = some '-' then none else some (m, c, cs)
    else if c ∈ seen then none
    else if c = '-' then switches? (c :: seen) m cs
    else do switches? (c :: seen) (← m.switch? c ('-' ∉ seen)) cs

def canStartName (c : Char) : Bool := c = '_' || Text.isAlphabetic c

def canContinueName (c : Char) : Bool :=
  c = '_' || c = '.' || c = '[' || c = ']' || Text.isAlphanumeric c

/-- The name of a group up to its closing angle bracket. -/
def groupName? (cs : List Char) : Option (List Char × List Char) :=
  let name := cs.takeWhile (· ≠ '>')
  match name, cs.dropWhile (· ≠ '>') with
  | c :: others, '>' :: rest =>
    if canStartName c && others.all canContinueName then some (name, rest) else none
  | _, _ => none

namespace Reading

/-- A named group; no two have one name. -/
def openNamed? (r : Reading) (cs : List Char) : Option (Reading × List Char) := do
  let (name, rest) ← groupName? cs
  if name ∈ r.names then none
  else return ({ r with names := name :: r.names }.openGroup r.modes, rest)

/-- What follows an opening parenthesis: a group, or a switch of modes for the rest of the group
around it. -/
def open? (r : Reading) (cs : List Char) : Option (Reading × List Char) :=
  match r.modes.skip cs with
  | '?' :: 'P' :: '<' :: cs => r.openNamed? cs
  | '?' :: '<' :: cs => r.openNamed? cs
  | '?' :: cs => do
    match ← switches? [] r.modes cs with
    | (modes, ':', rest) => return (r.openGroup modes, rest)
    | (modes, _, rest) =>
      if cs.head? = some ')' then none
      else return ({ r with modes := modes, items := none :: r.items }, rest)
  | cs => some (r.openGroup r.modes, cs)

/-- A repetition; a question mark behind it makes it the other kind. -/
def repetition? (r : Reading) (make : (greedy : Bool) → Pattern → Pattern) (cs : List Char) :
    Option (Reading × List Char) :=
  match cs with
  | '?' :: rest => (r.repeat? (make r.modes.swapped)).map fun r => (r, rest)
  | rest => (r.repeat? (make !r.modes.swapped)).map fun r => (r, rest)

/-- Takes the next character and what belongs to it. -/
def take? (r : Reading) (c : Char) (cs : List Char) : Option (Reading × List Char) :=
  match c with
  | '(' => r.open? cs
  | ')' => r.closeGroup?.map fun r => (r, cs)
  | '|' => some (r.nextChoice, cs)
  | '[' => (class? r.modes cs).map fun ((s, levels), rest) =>
    ({ r with items := some ⟨.one s, levels⟩ :: r.items }, rest)
  | '?' => r.repetition? Pattern.optional cs
  | '*' => r.repetition? Pattern.many cs
  | '+' => r.repetition? Pattern.rounds cs
  | '\x7b' => none
  | '.' => r.modes.dot?.map fun s => (r.add (.one s), cs)
  | '^' => some (r.add (.boundary r.modes.lineStart), cs)
  | '$' => some (r.add (.boundary r.modes.lineEnd), cs)
  | '\\' => do
    match ← escape? r.modes cs with
    | (.char c, rest) => return (r.add (.one (← r.modes.char? c)), rest)
    | (.set s, rest) => return (r.add (.one s), rest)
    | (.boundary b, rest) => return (r.add (.boundary b), rest)
  | c => do return (r.add (.one (← r.modes.char? c)), cs)

/-- Reads to the end; every turn takes a character. -/
def run? : (turns : Nat) → Reading → List Char → Option Pattern
  | turns, r, cs =>
    match r.modes.skip cs, turns with
    | [], _ => r.finish?
    | _ :: _, 0 => none
    | c :: cs, n + 1 => do
      let (r, rest) ← r.take? c cs
      run? n r rest

end Reading

/-- The pattern that a text writes. -/
def parse? (text : List Char) : Option Pattern := Reading.run? text.length {} text

end Companions.Pattern
