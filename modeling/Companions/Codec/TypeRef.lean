import Companions.TypeRef
import Companions.Json.Decode
/-!
Type references as JSON: an object whose `kind` names the shape, or an array that starts with it.
-/
namespace Companions.TypeRef

mutual

def toJson : TypeRef → Json
  | .named s f =>
    Json.object [("kind", .text "named"), ("scope", .text s), ("full_name", .text f)]
  | .generic e as =>
    Json.object [("kind", .text "generic"), ("element", e.toJson), ("arguments", .arr (toJsonAll as))]
  | .array e => Json.object [("kind", .text "array"), ("element", e.toJson)]
  | .param p n =>
    Json.object [("kind", .text "genericParam"), ("position", .nat p.toNat), ("name", .text n)]

def toJsonAll : List TypeRef → List Json
  | [] => []
  | a :: as => a.toJson :: toJsonAll as

end

theorem toJsonAll_eq_map (as : List TypeRef) : toJsonAll as = as.map toJson := by
  induction as with
  | nil => rfl
  | cons a as ih => simp [toJsonAll, ih]

/-- The shape of an object or array. Inside a value that has been taken in as a whole, the
position of the shape may stand for its name. -/
def shape? (inside : Bool) (j : Json) : Option String := do
  let tag ← match j with
    | .obj ms => (ms.find? fun m => Json.decode? m.1 = some "kind").map (·.2)
    | .arr js => js.head?
    | _ => none
  match tag with
  | .str raw => Json.decode? raw
  | .num n =>
    if inside then do
      ["named", "generic", "array", "genericParam"][(← Json.asNat? 4 (.num n))]?
    else none
  | _ => none

mutual

/-- Reads a value of which nothing has to be checked but its shape. -/
def ofReadable? (inside : Bool) : (levels : Nat) → Json → Option TypeRef
  | 0, _ => none
  | n + 1, j => do
    match ← shape? inside j with
    | "named" =>
      let [_, s, f] ← j.record? ["kind", "scope", "full_name"] | none
      return .named (← Json.required Json.asText? s) (← Json.required Json.asText? f)
    | "generic" =>
      let [_, e, as] ← j.record? ["kind", "element", "arguments"] | none
      let arguments ← Json.required (argumentsOfReadable? n) as
      return .generic (← Json.required (ofReadable? true n) e) arguments
    | "array" =>
      let [_, e] ← j.record? ["kind", "element"] | none
      return .array (← Json.required (ofReadable? true n) e)
    | "genericParam" =>
      let [_, p, name] ← j.record? ["kind", "position", "name"] | none
      return .param (UInt16.ofNat (← Json.required (Json.asNat? UInt16.size) p))
        (← Json.required Json.asText? name)
    | _ => none

def argumentsOfReadable? : (levels : Nat) → Json → Option (List TypeRef)
  | n + 1, .arr js => js.mapM (ofReadable? true n)
  | _, _ => none

end

/-- Takes in the whole value, fields of no meaning included, and then reads it. -/
def ofJson? (inside : Bool) (levels : Nat) (j : Json) : Option TypeRef :=
  if j.readable levels then ofReadable? inside levels j else none

end Companions.TypeRef
