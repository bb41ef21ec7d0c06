import Companions.Image.Traversal
import Companions.Image.Validate
import Companions.Codec.TypeDef
/-!
Images as bytes: one stream for the types and one for the symbols.
-/
namespace Companions

/-- The encoded types and the encoded symbols. -/
structure ImageBytes where
  image : Bytes
  symbols : Bytes
  deriving DecidableEq, Repr, Inhabited

namespace Image
open Json (required optional)

/-- Tag in front of every encoded image. -/
def format : String := "ecsgen-image"

def formatVersion : Nat := 1

def toJson (m : Image) : Json :=
  Json.object [("identity", m.identity.toJson), ("references", .list Identity.toJson m.references),
    ("types", .list TypeDef.toJson m.types), ("roots", .list .nat m.roots)]

/-- Reads an image without its table of names. -/
def ofJson? : (levels : Nat) → Json → Option Image
  | 0, _ => none
  | n + 1, j => do
    let [identity, references, types, roots] ←
      j.record? ["identity", "references", "types", "roots"] | none
    return {
      identity := ← required (Identity.ofJson? n) identity
      references := ← optional [] (Json.asList? Identity.ofJson? n) references
      types := ← optional [] (Json.asList? TypeDef.ofJson? n) types
      roots := ← optional [] (Json.asList? (fun _ => TypeDef.idOfJson?) n) roots }

/-- An image with the format it claims to have. -/
def envelope? : (levels : Nat) → Json → Option (String × Nat × Image)
  | 0, _ => none
  | n + 1, j => do
    let [format, version, assembly] ← j.record? ["format", "version", "assembly"] | none
    return (← required Json.asText? format, ← required (Json.asNat? UInt32.size) version,
      ← required (Image.ofJson? n) assembly)

/-- Decodes, then checks the format, then the image, and last the symbols if there are any. -/
def read (image : Bytes) (symbols : Option Bytes) : Except ImageError Image :=
  match (Json.read? image).bind (envelope? Json.maxNesting) with
  | none => .error .decode
  | some (format, version, m) =>
    if format ≠ Image.format ∨ version > formatVersion then .error (.unsupported format version)
    else do
      let m := m.rebuildLookup
      m.validate
      match symbols with
      | none => return m
      | some bs =>
        match (Json.read? bs).bind (Symbols.ofJson? Json.maxNesting) with
        | none => throw .decode
        | some s => return m.applySymbols s

def encode (m : Image) : ImageBytes where
  image := Json.write (Json.object [("format", .text format), ("version", .nat formatVersion),
    ("assembly", m.toJson)])
  symbols := Json.write m.symbols.toJson

/-- Only an image that obeys the rules is written; its symbols are made anew. -/
def write (m : Image) : Except ImageError ImageBytes := do
  m.validate
  return m.encode

end Image
end Companions
