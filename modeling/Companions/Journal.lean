/-!
The journal of a pass: the activity log line by line, and beside it what the log does not show,
namely warnings and notes of single steps, and the spans in which they fell.
-/
namespace Companions

inductive Level where
  | error
  | warn
  | info
  | debug
  | trace
  deriving DecidableEq, Repr, Inhabited

/-- A larger rank is more detailed. -/
def Level.rank : Level → Nat
  | .error => 1
  | .warn => 2
  | .info => 3
  | .debug => 4
  | .trace => 5

structure Event where
  level : Level
  target : String
  message : String
  /-- The names of the fields beside the message. -/
  fields : List String := []
  deriving DecidableEq, Repr

/-- Whether an event has a field; the message is one. -/
def Event.hasField (e : Event) (name : String) : Bool := name = "message" || e.fields.contains name

structure Span where
  target : String
  name : String
  /-- The names and values of the fields. -/
  fields : List (String × String) := []
  deriving DecidableEq, Repr

inductive Entry where
  /-- A line of the activity log. -/
  | line (text : String)
  /-- A section of the activity log: a blank line and a banner. -/
  | banner (title : String)
  | event (event : Event)
  | enter (span : Span)
  | leave
  deriving DecidableEq, Repr

abbrev Journal := List Entry

/-- The target under which the activity log appears among the events. -/
def activityTarget : String := "ecsgen::activity"

/-- Target of the events about images. -/
def imageTarget : String := "ecsgen_model::image"

namespace Entry

def bannerText (title : String) : String := s!"--== {title} ==--"

/-- What the entry adds to the activity log. -/
def lines : Entry → List String
  | .line text => [text]
  | .banner title => ["", bannerText title]
  | _ => []

/-- The event that a reader of events sees: a line is a detail, a banner an information. -/
def toEvent? : Entry → Option Event
  | .line text => some { level := .debug, target := activityTarget, message := text }
  | .banner title => some { level := .info, target := activityTarget, message := bannerText title }
  | .event e => some e
  | _ => none

def warning (target message : String) (fields : List String) : Entry :=
  .event ⟨.warn, target, message, fields⟩

end Entry

namespace Journal

/-- The activity log. -/
def lines (j : Journal) : List String := j.flatMap (·.lines)

/-- The activity log as a text of complete lines. -/
def text (j : Journal) : String := String.join (j.lines.map (· ++ "\n"))

/-- A heading in asterisks and a line for each item. -/
def list (heading : String) (items : List String) : Journal :=
  .line s!"**{heading}**" :: items.map .line

end Journal
end Companions
