import Companions.Json.Basic
import Companions.Journal
import Companions.Pattern.Parse
import Companions.Pattern.Search
/-!
Directives of a filter, such as `warn`, `game::load=debug` or `[run{assembly=Game.*}]=info`: a
target, a span with a field and its value, and a level, all but one of which may be missing.
-/
namespace Companions

/-- What a directive demands of the value of a field. -/
inductive ValueTest where
  | any
  /-- A number or truth value; no text is equal to it. -/
  | constant
  | pattern (text : String) (p : Pattern)
  deriving DecidableEq, Repr

structure FieldTest where
  name : String
  value : ValueTest
  deriving DecidableEq, Repr

structure Directive where
  /-- Up to which rank of detail events pass; zero lets none pass. -/
  rank : Nat
  target : Option String := none
  span : Option String := none
  field : Option FieldTest := none
  deriving DecidableEq, Repr

namespace ValueTest

/-- A row of digits with a point and an exponent, of which there is at least one digit. -/
def isDecimal (s : List Char) : Bool :=
  let fraction := match s.dropWhile Char.isDigit with
    | '.' :: r => r
    | r => r
  let exponent := fraction.dropWhile Char.isDigit
  (s.head?.any Char.isDigit || (s.head? = some '.' && fraction.head?.any Char.isDigit)) &&
    match exponent with
    | [] => true
    | e :: r =>
      let digits := match r with
        | '+' :: r | '-' :: r => r
        | r => r
      (e = 'e' || e = 'E') && !digits.isEmpty && digits.all Char.isDigit

def isNumber (s : List Char) : Bool :=
  let s := match s with
    | '+' :: r | '-' :: r => r
    | r => r
  isDecimal s || ["inf", "infinity", "nan"].contains (String.ofList (Text.lower s))

/-- The test that a text writes; a text that is no constant is a pattern. -/
def parse? (s : List Char) : Option ValueTest :=
  if isNumber s ∨ String.ofList s ∈ ["true", "false"] then some .constant
  else (Pattern.parse? s).map (.pattern (String.ofList s))

def passes (t : ValueTest) (value : String) : Bool :=
  match t with
  | .any => true
  | .constant => false
  | .pattern _ p => p.passes value.toList

end ValueTest

namespace FieldTest

/-- A name alone, or a name and a value; what follows a second equals sign is left out. -/
def parse? (s : List Char) : Option FieldTest :=
  if s = [] then none
  else
    match Text.split '=' s with
    | (name, []) => some ⟨String.ofList name, .any⟩
    | (name, value :: _) => (ValueTest.parse? value).map fun t => ⟨String.ofList name, t⟩

end FieldTest

namespace Directive

/-- Levels are written as numbers or in words, where nothing is as good as `error`. -/
def rank? (s : List Char) : Option Nat :=
  match Text.numeral 10 6 Text.decimalDigit s with
  | some n => some n
  | none =>
    [("", 1), ("off", 0), ("error", 1), ("warn", 2), ("info", 3), ("debug", 4), ("trace", 5)].lookup
      (String.ofList (Text.lower s))

/-- The level behind an equals sign; where nothing is written all is let through. -/
def levelOf? (s : List Char) : Option Nat := if s = [] then some 5 else rank? s

/-- Why a directive cannot be read. -/
inductive Fault where
  | malformed
  /-- A part begins or ends inside a character. -/
  | brokenCharacter
  deriving DecidableEq, Repr

/-- How far a directive has been read, and at which byte the part at hand begins. -/
inductive Stage where
  | start
  | name (begins : Nat)
  | span (begins : Nat)
  | field (begins : Nat)
  | behindField
  | behindSpan
  | level (begins : Nat)
  deriving DecidableEq, Repr

def wellFormed {α : Type} : Option α → Except Fault α
  | some a => .ok a
  | none => .error .malformed

/-- The text from one offset up to another, counted in bytes. -/
def cut (text : Bytes) (first last : Nat) : Except Fault (List Char) :=
  match ofUtf8? (text.take first), ofUtf8? ((text.take last).drop first) with
  | some _, some part => .ok part.toList
  | _, _ => .error .brokenCharacter

def canStart (c : Char) : Bool := c = '-' || c = ':' || c = '_' || Text.isAlphanumeric c

/-- Takes one character, which stands at an offset. -/
def advance (text : Bytes) (d : Directive) (offset : Nat) : Stage → Char →
    Except Fault (Stage × Directive)
  | .start, '[' => .ok (.span (offset + 1), d)
  | .start, c => if canStart c then .ok (.name offset, d) else .error .malformed
  | .name i, '=' => do
    return (.level (offset + 1), { d with target := some (String.ofList (← cut text i offset)) })
  | .name i, '[' => do
    return (.span (offset + 1), { d with target := some (String.ofList (← cut text i offset)) })
  | .span i, ']' => do
    return (.behindSpan, { d with span := some (String.ofList (← cut text i offset)) })
  | .span i, '\x7b' => do
    let name ← cut text i offset
    let span := if name = [] then none else some (String.ofList name)
    return (.field (offset + 1), { d with span := span })
  | .field i, '\x7d' => do
    let field ← wellFormed (FieldTest.parse? (← cut text i offset))
    return (.behindField, { d with field := some field })
  | .behindField, c => if c = ']' then .ok (.behindSpan, d) else .error .malformed
  | .behindSpan, c => if c = '=' then .ok (.level (offset + 1), d) else .error .malformed
  | stage, _ => .ok (stage, d)

/-- The directive at the end of its text. A name alone is a level, or else a target of which all
is let through. -/
def finish (text : Bytes) (d : Directive) : Stage → Except Fault Directive
  | .name i => do
    let name ← cut text i text.length
    match rank? name with
    | some n => return { d with rank := n }
    | none => return { d with target := some (String.ofList name) }
  | .level i => do return { d with rank := ← wellFormed (levelOf? (← cut text i text.length)) }
  | .behindSpan => .ok d
  | _ => .error .malformed

def readFrom (text : Bytes) : (offset : Nat) → Stage → Directive → List Char →
    Except Fault Directive
  | _, stage, d, [] => finish text d stage
  | offset, stage, d, c :: cs => do
    let (stage, d) ← advance text d offset stage c
    readFrom text (offset + c.utf8Size) stage d cs

/-- Reads a directive. Its parts are found between the blanks around it and cut out of the text
with the blanks, so that blanks in front shift every part, and blanks behind belong to the last. -/
def parse (text : List Char) : Except Fault Directive :=
  readFrom (utf8 (String.ofList text)) 0 .start { rank := 5 } (Text.trim text)

def startsTarget (d : Directive) (target : String) : Bool :=
  match d.target with
  | none => true
  | some t => Text.startsWith t.toList target.toList

/-- Directives about spans or fields are followed while such a span is open. -/
def isDynamic (d : Directive) : Bool := d.span.isSome || d.field.isSome

/-- Whether a value is demanded of a field. -/
def isValued (d : Directive) : Bool := d.field.any (·.value ≠ .any)

/-- Directives without span and value are about events. -/
def isStatic (d : Directive) : Bool := d.span.isNone && !d.isValued

/-- Whether a directive is about an event: its target starts the event's, and the event has the
field. -/
def isAboutEvent (d : Directive) (e : Event) : Bool :=
  d.isStatic && d.startsTarget e.target && d.field.all fun f => e.hasField f.name

/-- Whether a span is one that the directive is about. -/
def isAboutSpan (d : Directive) (s : Span) : Bool :=
  d.isDynamic && d.startsTarget s.target && (d.span.isNone || d.span = some s.name) &&
    d.field.all fun f => (s.fields.lookup f.name).any f.value.passes

/-- Whether two directives differ in their levels at most. -/
def sameCase (a b : Directive) : Bool :=
  a.target = b.target && a.span = b.span && a.field = b.field

/-- A longer target counts for more, then a field for more than none, then the field that comes
later in order. -/
def atMostAsSpecific (a b : Directive) : Bool :=
  let length (d : Directive) := (d.target.map fun t => t.utf8ByteSize + 1).getD 0
  length a < length b || (length a = length b &&
    match a.field, b.field with
    | none, _ => true
    | some _, none => false
    | some f, some g => !(g.name < f.name))

end Directive
end Companions
