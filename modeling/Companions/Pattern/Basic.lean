import Companions.Pattern.CharSet
/-!
Patterns of text, and the boundaries that they may ask for between characters. What a pattern reads
is left to the search for it.
-/
namespace Companions

/-- A demand on the gap between two characters. -/
inductive Boundary where
  | textStart
  | textEnd
  /-- With `crlf` a carriage return ends a line too, alone or before a line feed. -/
  | lineStart (crlf : Bool)
  | lineEnd (crlf : Bool)
  /-- One side, and one alone, belongs to a word of ASCII characters. -/
  | wordEdge
  | noWordEdge
  | wordStart
  | wordEnd
  deriving DecidableEq, Repr

/-- The characters around a gap; at an end of the text there is none. -/
structure Gap where
  before : Option Char
  after : Option Char
  deriving DecidableEq, Repr

namespace Gap

def inWord (c : Option Char) : Bool := c.any CharSet.asciiWord.contains

def holds (g : Gap) : Boundary → Bool
  | .textStart => g.before.isNone
  | .textEnd => g.after.isNone
  | .lineStart false => g.before.isNone || g.before = some '\n'
  | .lineStart true =>
    g.before.isNone || g.before = some '\n' || (g.before = some '\r' && g.after ≠ some '\n')
  | .lineEnd false => g.after.isNone || g.after = some '\n'
  | .lineEnd true =>
    g.after.isNone || g.after = some '\r' || (g.after = some '\n' && g.before ≠ some '\r')
  | .wordEdge => inWord g.before != inWord g.after
  | .noWordEdge => inWord g.before == inWord g.after
  | .wordStart => !inWord g.before && inWord g.after
  | .wordEnd => inWord g.before && !inWord g.after

/-- The boundaries that hold by what stands before, whatever follows. -/
def holdsBefore (g : Gap) : Boundary → Bool
  | .textStart => g.before.isNone
  | .lineStart _ => g.before.isNone || g.before = some '\n'
  | _ => false

end Gap

inductive Pattern where
  | empty
  | one (set : CharSet)
  | boundary (b : Boundary)
  | seq (p q : Pattern)
  | choice (p q : Pattern)
  /-- One round or more. -/
  | rounds (greedy : Bool) (p : Pattern)
  /-- What may follow a round: more of them, or nothing. -/
  | more (greedy : Bool) (p : Pattern)
  deriving DecidableEq, Repr

namespace Pattern

/-- Whether the pattern may read nothing, boundaries left aside. -/
def nullable : Pattern → Bool
  | .empty | .boundary _ | .more _ _ => true
  | .one _ => false
  | .seq p q => p.nullable && q.nullable
  | .choice p q => p.nullable || q.nullable
  | .rounds _ p => p.nullable

/-- A repetition that may have no round. One whose body may read nothing starts with a choice
between a first round and none. -/
def optional (greedy : Bool) (p : Pattern) : Pattern :=
  if greedy then .choice p .empty else .choice .empty p

def many (greedy : Bool) (p : Pattern) : Pattern :=
  if p.nullable then optional greedy (.rounds greedy p) else .more greedy p

def all (ps : List Pattern) : Pattern := ps.foldr .seq .empty

/-- The choice between a pattern and more of them. -/
def firstOf : Pattern → List Pattern → Pattern
  | p, [] => p
  | p, q :: qs => .choice p (firstOf q qs)

end Pattern
end Companions
