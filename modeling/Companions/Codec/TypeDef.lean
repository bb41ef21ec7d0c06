import Companions.TypeDef
import Companions.Identity
import Companions.Codec.Member
/-!
Identities, symbols and type nodes as JSON.
-/
namespace Companions
open Json (required optional)

namespace Identity

def toJson (i : Identity) : Json :=
  Json.object [("name", .text i.name),
    ("version", .list (fun p => .nat p.toNat) i.version.parts)]

def versionOfJson? (levels : Nat) (j : Json) : Option Version := do
  let [a, b, c, d] ← Json.asList? (fun _ => Json.asNat? UInt16.size) levels j | none
  return ⟨UInt16.ofNat a, UInt16.ofNat b, UInt16.ofNat c, UInt16.ofNat d⟩

def ofJson? : (levels : Nat) → Json → Option Identity
  | 0, _ => none
  | n + 1, j => do
    let [name, version] ← j.record? ["name", "version"] | none
    return ⟨← required Json.asText? name, ← optional {} (versionOfJson? n) version⟩

end Identity

namespace SourceLocation

def toJson (l : SourceLocation) : Json :=
  Json.object [("document", .text l.document), ("line", .nat l.line.toNat)]

def ofJson? : (levels : Nat) → Json → Option SourceLocation
  | 0, _ => none
  | _ + 1, j => do
    let [document, line] ← j.record? ["document", "line"] | none
    return ⟨← required Json.asText? document,
      UInt32.ofNat (← required (Json.asNat? UInt32.size) line)⟩

end SourceLocation

namespace SymbolEntry

def toJson (e : SymbolEntry) : Json :=
  Json.object [("typeName", .text e.typeName),
    ("location", .nullable SourceLocation.toJson e.location)]

def ofJson? : (levels : Nat) → Json → Option SymbolEntry
  | 0, _ => none
  | n + 1, j => do
    let [typeName, location] ← j.record? ["typeName", "location"] | none
    return ⟨← required Json.asText? typeName,
      ← optional none (Json.asNullable? (SourceLocation.ofJson? n)) location⟩

end SymbolEntry

namespace Symbols

def toJson (s : Symbols) : Json :=
  Json.object [("assembly", .text s.assembly), ("entries", .list SymbolEntry.toJson s.entries)]

def ofJson? : (levels : Nat) → Json → Option Symbols
  | 0, _ => none
  | n + 1, j => do
    let [assembly, entries] ← j.record? ["assembly", "entries"] | none
    return ⟨← required Json.asText? assembly,
      ← optional [] (Json.asList? SymbolEntry.ofJson? n) entries⟩

end Symbols

namespace TypeKind

def name : TypeKind → String
  | .classType => "class"
  | .structType => "struct"
  | .interfaceType => "interface"

def ofName? : String → Option TypeKind
  | "class" => some .classType
  | "struct" => some .structType
  | "interface" => some .interfaceType
  | _ => none

def toJson (k : TypeKind) : Json := .text k.name

def ofJson? (levels : Nat) (j : Json) : Option TypeKind := (j.asVariant? levels).bind ofName?

end TypeKind

namespace TypeDef

/-- An id is written as a number below 2^32. -/
def idOfJson? (j : Json) : Option TypeId := Json.asNat? UInt32.size j

def toJson (d : TypeDef) : Json :=
  Json.object [("namespace", .text d.space), ("name", .text d.name), ("kind", d.kind.toJson),
    ("attributes", .text d.flags.write), ("base", .nullable TypeRef.toJson d.base),
    ("interfaces", .list TypeRef.toJson d.interfaces),
    ("genericParams", .list .text d.genericParams),
    ("declaring", .nullable .nat d.declaring), ("nested", .list .nat d.nested),
    ("fields", .list Field.toJson d.fields), ("methods", .list Method.toJson d.methods),
    ("customAttributes", .list CustomAttribute.toJson d.attributes)]

/-- Reads a node; its source location is not part of it. -/
def ofJson? : (levels : Nat) → Json → Option TypeDef
  | 0, _ => none
  | n + 1, j => do
    let [space, name, kind, flags, base, interfaces, genericParams, declaring, nested, fields,
        methods, attributes] ←
      j.record? ["namespace", "name", "kind", "attributes", "base", "interfaces", "genericParams",
        "declaring", "nested", "fields", "methods", "customAttributes"] | none
    return {
      space := ← optional "" Json.asText? space
      name := ← required Json.asText? name
      kind := ← required (TypeKind.ofJson? n) kind
      flags := ← required (fun j => j.asText?.bind TypeFlags.read) flags
      base := ← optional none (Json.asNullable? (TypeRef.ofJson? false n)) base
      interfaces := ← optional [] (Json.asList? (TypeRef.ofJson? false) n) interfaces
      genericParams := ← optional [] (Json.asList? (fun _ => Json.asText?) n) genericParams
      declaring := ← optional none (Json.asNullable? idOfJson?) declaring
      nested := ← optional [] (Json.asList? (fun _ => idOfJson?) n) nested
      fields := ← optional [] (Json.asList? Field.ofJson? n) fields
      methods := ← optional [] (Json.asList? Method.ofJson? n) methods
      attributes := ← optional [] (Json.asList? CustomAttribute.ofJson? n) attributes }

end TypeDef
end Companions
