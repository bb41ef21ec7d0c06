/-!
Failures of reading, checking and writing images.
-/
namespace Companions

/-- Which structural rule an image breaks. -/
inductive Malformation where
  | danglingRoot (id : Nat)
  | nestedRoot (name : String)
  | danglingDeclaring (name : String)
  | unlisted (name : String)
  | danglingNested (name : String)
  | duplicateType (fullName : String)
  | duplicateField (field fullName : String)
  | missingReturn (fullName : String)
  deriving DecidableEq, Repr

def Malformation.message : Malformation → String
  | .danglingRoot id => s!"dangling root type id {id}"
  | .nestedRoot name => s!"nested type '{name}' listed as a root"
  | .danglingDeclaring name => s!"type '{name}' has a dangling declaring type"
  | .unlisted name => s!"type '{name}' is not listed by its declaring type"
  | .danglingNested name => s!"type '{name}' lists a dangling nested type"
  | .duplicateType fullName => s!"duplicate type name '{fullName}'"
  | .duplicateField field fullName => s!"duplicate field '{field}' on '{fullName}'"
  | .missingReturn fullName => s!"constructor of '{fullName}' does not return"

inductive ImageError where
  /-- A file could not be read or written. -/
  | io (path : String)
  /-- The bytes are no encoding of an image or of symbols. -/
  | decode
  | unsupported (format : String) (version : Nat)
  | malformed (assembly : String) (fault : Malformation)
  deriving DecidableEq, Repr

namespace ImageError

/-- The system's own words on a failed access to a file are kept as a mark. -/
def ioMark : String := "<io>"

/-- The decoder's own words on a faulty text are kept as a mark. -/
def jsonMark : String := "<json>"

def message : ImageError → String
  | .io path => s!"{path}: {ioMark}"
  | .decode => s!"failed to decode image: {jsonMark}"
  | .unsupported format version => s!"unsupported image format '{format}' version {version}"
  | .malformed assembly fault => s!"malformed assembly '{assembly}': {fault.message}"

/-- The message, and the cause behind it if there is one. -/
def chain : ImageError → List String
  | .io path => [(ImageError.io path).message, ioMark]
  | .decode => [ImageError.decode.message, jsonMark]
  | e => [e.message]

end ImageError
end Companions
