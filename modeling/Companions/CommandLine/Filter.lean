import Companions.CommandLine.Directive
/-!
Filters of events. For an event the most specific directive counts that is about it; but while a
span is open that some directive is about, what that directive lets through passes as well.
-/
namespace Companions

structure Filter where
  directives : List Directive
  /-- Whether a directive was not understood and left out. -/
  faulty : Bool
  deriving DecidableEq, Repr

namespace Filter

/-- Reads directives between commas; empty ones are skipped and malformed ones left out. One that
breaks a character breaks the whole filter. -/
def ofText? (text : String) : Option Filter :=
  let found := ((Text.pieces ',' text.toList).filter (!·.isEmpty)).map Directive.parse
  if found.any (· matches .error .brokenCharacter) then none
  else some ⟨found.filterMap (·.toOption), found.any (·.toOption.isNone)⟩

/-- The most specific directive about an event; of equally specific ones the last. -/
def best? (f : Filter) (e : Event) : Option Directive :=
  (f.directives.filter (·.isAboutEvent e)).foldl
    (fun found d => match found with
      | none => some d
      | some b => if b.atMostAsSpecific d then some d else some b)
    none

/-- Leaves out a directive where a later one is about the same case. -/
def latest : List Directive → List Directive
  | [] => []
  | d :: ds => if ds.any (·.sameCase d) then latest ds else d :: latest ds

/-- Spans are informations: they are seen where some directive lets informations through, or
where one has to look at their values. -/
def seesSpans (f : Filter) : Bool :=
  f.directives.any fun d => Level.info.rank ≤ d.rank || d.isValued

/-- How much detail a span lets through while it is open. -/
def spanRank (f : Filter) (s : Span) : Nat :=
  if f.seesSpans then
    (((latest f.directives).filter (·.isAboutSpan s)).map (·.rank)).foldl max 0
  else 0

/-- Whether an event passes while spans of these ranks are open. -/
def passes (f : Filter) (opened : List Nat) (e : Event) : Bool :=
  opened.any (e.level.rank ≤ ·) ||
    match f.best? e with
    | some d => e.level.rank ≤ d.rank
    | none => false

/-- The events of a journal that pass, in order. -/
def select (f : Filter) : (opened : List Nat) → Journal → List Event
  | _, [] => []
  | opened, .enter s :: j => f.select (f.spanRank s :: opened) j
  | opened, .leave :: j => f.select (opened.drop 1) j
  | opened, entry :: j =>
    match entry.toEvent? with
    | some e => if f.passes opened e then e :: f.select opened j else f.select opened j
    | none => f.select opened j

end Filter
end Companions
