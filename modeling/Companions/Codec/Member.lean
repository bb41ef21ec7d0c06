import Companions.Member
import Companions.Codec.TypeRef
/-!
Members of types as JSON.
-/
namespace Companions
open Json (required optional)

namespace Field

def toJson (f : Field) : Json :=
  Json.object [("name", .text f.name), ("attributes", .text f.flags.write),
    ("fieldType", f.type.toJson)]

def ofJson? : (levels : Nat) → Json → Option Field
  | 0, _ => none
  | n + 1, j => do
    let [name, flags, type] ← j.record? ["name", "attributes", "fieldType"] | none
    return ⟨← required Json.asText? name,
      ← required (fun j => j.asText?.bind FieldFlags.read) flags,
      ← required (TypeRef.ofJson? false n) type⟩

end Field

namespace Parameter

def toJson (p : Parameter) : Json :=
  Json.object [("name", .text p.name), ("paramType", p.type.toJson)]

def ofJson? : (levels : Nat) → Json → Option Parameter
  | 0, _ => none
  | n + 1, j => do
    let [name, type] ← j.record? ["name", "paramType"] | none
    return ⟨← required Json.asText? name, ← required (TypeRef.ofJson? false n) type⟩

end Parameter

namespace MethodRef

def toJson (m : MethodRef) : Json :=
  Json.object [("declaringType", m.declaringType.toJson), ("name", .text m.name),
    ("parameters", .list TypeRef.toJson m.parameters), ("returnType", m.returnType.toJson)]

def ofJson? (inside : Bool) : (levels : Nat) → Json → Option MethodRef
  | 0, _ => none
  | n + 1, j => do
    let [declaring, name, parameters, returns] ←
      j.record? ["declaringType", "name", "parameters", "returnType"] | none
    return ⟨← required (TypeRef.ofJson? inside n) declaring, ← required Json.asText? name,
      ← required (Json.asList? (TypeRef.ofJson? inside) n) parameters,
      ← required (TypeRef.ofJson? inside n) returns⟩

end MethodRef

/-- Reads the content beside a tag. Content that comes before the tag is taken in as a whole
first. -/
def Json.Tagged.read? {α : Type} (t : Json.Tagged) (levels : Nat)
    (read : (inside : Bool) → (levels : Nat) → Json → Option α) : Option α := do
  let j ← t.content
  if t.contentFirst then
    if j.readable levels then read true levels j else none
  else read false levels j

namespace Instruction

def toJson : Instruction → Json
  | .loadThis => Json.object [("op", .text "loadThis")]
  | .call m => Json.object [("op", .text "call"), ("operand", m.toJson)]
  | .ret => Json.object [("op", .text "return")]

/-- Nothing, or null, stands beside an instruction without operand. -/
def bare? (i : Instruction) : Option Json → Option Instruction
  | none => some i
  | some .null => some i
  | some _ => none

def ofJson? : (levels : Nat) → Json → Option Instruction
  | 0, _ => none
  | n + 1, j => do
    let t ← j.tagged? "op" "operand" (n + 1)
    match t.tag with
    | "loadThis" => bare? .loadThis t.content
    | "call" => (t.read? n MethodRef.ofJson?).map .call
    | "return" => bare? .ret t.content
    | _ => none

end Instruction

namespace Method

def toJson (m : Method) : Json :=
  Json.object [("name", .text m.name), ("attributes", .text m.flags.write),
    ("parameters", .list Parameter.toJson m.parameters), ("returnType", m.returnType.toJson),
    ("body", .list Instruction.toJson m.body)]

def ofJson? : (levels : Nat) → Json → Option Method
  | 0, _ => none
  | n + 1, j => do
    let [name, flags, parameters, returns, body] ←
      j.record? ["name", "attributes", "parameters", "returnType", "body"] | none
    return ⟨← required Json.asText? name,
      ← required (fun j => j.asText?.bind MethodFlags.read) flags,
      ← optional [] (Json.asList? Parameter.ofJson? n) parameters,
      ← required (TypeRef.ofJson? false n) returns,
      ← optional [] (Json.asList? Instruction.ofJson? n) body⟩

end Method

namespace AttributeValue

def toJson : AttributeValue → Json
  | .type t => Json.object [("kind", .text "type"), ("value", t.toJson)]
  | .string s => Json.object [("kind", .text "string"), ("value", .text s)]
  | .int i => Json.object [("kind", .text "int"), ("value", .int i.toInt)]
  | .bool b => Json.object [("kind", .text "bool"), ("value", .bool b)]

def asInt64? (j : Json) : Option Int64 := do
  let i ← j.asInt?
  if Int64.minValue.toInt ≤ i ∧ i ≤ Int64.maxValue.toInt then some (Int64.ofInt i) else none

def ofJson? : (levels : Nat) → Json → Option AttributeValue
  | 0, _ => none
  | n + 1, j => do
    let t ← j.tagged? "kind" "value" (n + 1)
    match t.tag with
    | "type" => (t.read? n TypeRef.ofJson?).map .type
    | "string" => (t.read? n fun _ _ => Json.asText?).map .string
    | "int" => (t.read? n fun _ _ => asInt64?).map .int
    | "bool" => (t.read? n fun _ _ => Json.asBool?).map .bool
    | _ => none

end AttributeValue

namespace AttributeArgument

def toJson (a : AttributeArgument) : Json :=
  Json.object [("argType", a.type.toJson), ("value", a.value.toJson)]

def ofJson? : (levels : Nat) → Json → Option AttributeArgument
  | 0, _ => none
  | n + 1, j => do
    let [type, value] ← j.record? ["argType", "value"] | none
    return ⟨← required (TypeRef.ofJson? false n) type, ← required (AttributeValue.ofJson? n) value⟩

end AttributeArgument

namespace CustomAttribute

def toJson (a : CustomAttribute) : Json :=
  Json.object [("constructor", a.constructor.toJson),
    ("arguments", .list AttributeArgument.toJson a.arguments)]

def ofJson? : (levels : Nat) → Json → Option CustomAttribute
  | 0, _ => none
  | n + 1, j => do
    let [constructor, arguments] ← j.record? ["constructor", "arguments"] | none
    return ⟨← required (MethodRef.ofJson? false n) constructor,
      ← optional [] (Json.asList? AttributeArgument.ofJson? n) arguments⟩

end CustomAttribute
end Companions
