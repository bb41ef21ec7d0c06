import Companions.Pattern.Basic
/-!
Searching for patterns. A pattern is searched for from the start of a text on, and the first place
where it is found counts. There it may read the text in several ways, of which earlier ones come
first: the left side of a choice before the right, another round before the end of a repetition, or
the other way round for one that is not greedy. The text passes if the first way reads to its end.
-/
namespace Companions

/-- A step on the way through a pattern; the steps that may follow are known by their places. -/
inductive Step where
  | found
  | read (set : CharSet) (next : Nat)
  | cross (b : Boundary) (next : Nat)
  /-- Two ways to go on, the better one first. -/
  | fork (first second : Nat)
  deriving DecidableEq, Repr

/-- The steps of a pattern. -/
structure Machine where
  start : Nat
  steps : Array Step
  deriving DecidableEq, Repr

namespace Pattern

/-- The way on from a repetition: another round, or what follows. -/
def roundOr (greedy : Bool) (again next : Nat) : Step :=
  if greedy then .fork again next else .fork next again

/-- Adds the steps of a pattern behind which another step follows, and tells where they begin. -/
def addSteps : Pattern → (next : Nat) → Array Step → Nat × Array Step
  | .empty, next, steps => (next, steps)
  | .one s, next, steps => (steps.size, steps.push (.read s next))
  | .boundary b, next, steps => (steps.size, steps.push (.cross b next))
  | .seq p q, next, steps =>
    let (middle, steps) := q.addSteps next steps
    p.addSteps middle steps
  | .choice p q, next, steps =>
    let (second, steps) := q.addSteps next steps
    let (first, steps) := p.addSteps next steps
    (steps.size, steps.push (.fork first second))
  | .rounds greedy p, next, steps =>
    let (again, grown) := p.addSteps steps.size (steps.push .found)
    (again, grown.setIfInBounds steps.size (roundOr greedy again next))
  | .more greedy p, next, steps =>
    let (again, grown) := p.addSteps steps.size (steps.push .found)
    (steps.size, grown.setIfInBounds steps.size (roundOr greedy again next))

def machine (p : Pattern) : Machine :=
  let (start, steps) := p.addSteps 0 #[.found]
  ⟨start, steps⟩

end Pattern

/-- How far a search has come at a gap. -/
structure Search where
  /-- Where threads that began earlier have come to, the best one first. -/
  threads : List Nat := []
  /-- Whether the pattern has not been found yet and may begin here. -/
  seeking : Bool := true
  deriving DecidableEq, Repr

namespace Machine

/-- Where a thread may go on from a place without reading, the best place first. -/
def unfold (m : Machine) (holds : Boundary → Bool) (place : Nat) : List Nat :=
  match m.steps[place]? with
  | some (.cross b next) => if holds b then [next] else []
  | some (.fork first second) => [first, second]
  | _ => []

/-- Whether threads rest at a place: at the end, before a character or at a boundary. -/
def rests (m : Machine) (place : Nat) : Bool := !m.steps[place]? matches some (.fork ..)

/-- Whether a place is at a boundary for which a test holds. -/
def isAtBoundary (m : Machine) (test : Boundary → Bool) (place : Nat) : Bool :=
  match m.steps[place]? with
  | some (.cross b _) => test b
  | _ => false

/-- Where threads come to rest, the best one first. No place is gone through twice, so that a round
that reads nothing ends its repetition. -/
def spread (m : Machine) (holds : Boundary → Bool) :
    (turns : Nat) → (met : Array Bool) → (pending : List Nat) → List Nat
  | 0, _, _ => []
  | _ + 1, _, [] => []
  | n + 1, met, place :: pending =>
    if met.getD place true then spread m holds n met pending
    else
      let others :=
        spread m holds n (met.setIfInBounds place true) (m.unfold holds place ++ pending)
      if m.rests place then place :: others else others

/-- Where threads come to rest at a gap. Boundaries that hold by what stands before are crossed on
the way; if others turn out to hold by what follows, the threads go on from where they rest. There
are no more places than steps, and each leads to two others at most, which bounds the turns. -/
def settle (m : Machine) (gap : Gap) (threads : List Nat) : List Nat :=
  let turns := 3 * m.steps.size + 3
  let unmet := Array.replicate m.steps.size false
  let resting := m.spread gap.holdsBefore turns unmet threads
  if resting.any (m.isAtBoundary fun b => gap.holds b && !gap.holdsBefore b) then
    m.spread gap.holds turns unmet resting
  else resting

/-- Where the threads of a search come to rest at a gap. -/
def threadsAt (m : Machine) (gap : Gap) (s : Search) : List Nat :=
  m.settle gap (s.threads ++ if s.seeking then [m.start] else [])

def isEnd (m : Machine) (place : Nat) : Bool := m.steps[place]? = some .found

/-- Whether some thread is at its end. -/
def isFoundAt (m : Machine) (gap : Gap) (s : Search) : Bool := (m.threadsAt gap s).any m.isEnd

/-- Whether a pattern that reads nothing is found between the bytes of a character. -/
def isFoundWithin (m : Machine) (c : Char) : Bool :=
  1 < c.utf8Size && m.isFoundAt ⟨some c, some c⟩ {}

/-- Where a thread goes on behind a character, if it can read it. -/
def read? (m : Machine) (c : Char) (place : Nat) : Option Nat :=
  match m.steps[place]? with
  | some (.read set next) => if set.contains c then some next else none
  | _ => none

/-- What is left of a search behind a character. Where a thread is at its end, those that come after
it are given up. -/
def advance (m : Machine) (before : Option Char) (c : Char) (s : Search) : Search :=
  let threads := m.threadsAt ⟨before, some c⟩ s
  { threads := (threads.takeWhile (!m.isEnd ·)).filterMap (m.read? c)
    seeking := s.seeking && !threads.any m.isEnd && !m.isFoundWithin c }

/-- Whether the pattern is found up to the end of what is left of a text. -/
def reachesEnd (m : Machine) (before : Option Char) (s : Search) : List Char → Bool
  | [] => m.isFoundAt ⟨before, none⟩ s
  | c :: cs => m.reachesEnd (some c) (m.advance before c s) cs

end Machine

/-- Whether a text passes. -/
def Pattern.passes (p : Pattern) (text : List Char) : Bool := p.machine.reachesEnd none {} text

end Companions
