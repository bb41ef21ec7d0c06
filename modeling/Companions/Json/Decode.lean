import Companions.Json.Token
/-!
Building blocks of readers and writers. A reader gets the number of levels that arrays and
objects may still nest; it refuses a value that goes deeper, but not one that it skips.
-/
namespace Companions.Json

/-- How deep arrays and objects may nest in what is read. -/
def maxNesting : Nat := 127

/-! ## Writing -/

def text (s : String) : Json := .str (encode s)

def nat (n : Nat) : Json := .num (.ofNat n)

def int (i : Int) : Json := .num (.ofInt i)

def list {α : Type} (f : α → Json) (as : List α) : Json := .arr (as.map f)

def nullable {α : Type} (f : α → Json) : Option α → Json
  | none => .null
  | some a => f a

/-- An object with its members in the order given. -/
def object (members : List (String × Json)) : Json :=
  .obj (members.map fun (k, j) => (encode k, j))

/-! ## Reading -/

mutual

/-- Whether the whole value can be taken in: every text decodes, no number is out of range, and
nothing nests beyond `levels`. -/
def readable (levels : Nat) : Json → Bool
  | .null => true
  | .bool _ => true
  | .num n => n.inRange
  | .str raw => (decode? raw).isSome
  | .arr js => 0 < levels && readableItems (levels - 1) js
  | .obj ms => 0 < levels && readableMembers (levels - 1) ms

def readableItems (levels : Nat) : List Json → Bool
  | [] => true
  | j :: js => readable levels j && readableItems levels js

def readableMembers (levels : Nat) : List (Bytes × Json) → Bool
  | [] => true
  | (k, j) :: ms => (decode? k).isSome && readable levels j && readableMembers levels ms

end

def asText? : Json → Option String
  | .str raw => decode? raw
  | _ => none

def asBool? : Json → Option Bool
  | .bool b => some b
  | _ => none

def asInt? : Json → Option Int
  | .num n => n.int?
  | _ => none

/-- A natural number below `limit`. -/
def asNat? (limit : Nat) (j : Json) : Option Nat := do
  let i ← j.asInt?
  if 0 ≤ i ∧ i < limit then some i.toNat else none

def asNullable? {α : Type} (read : Json → Option α) : Json → Option (Option α)
  | .null => some none
  | j => (read j).map some

/-- All items of an array, each read with one level less. -/
def asList? {α : Type} (read : (levels : Nat) → Json → Option α) :
    (levels : Nat) → Json → Option (List α)
  | levels + 1, .arr js => js.mapM (read levels)
  | _, _ => none

/-- Puts each member under its name, in order. An unknown name is skipped, a known one may come
once. -/
def collect (names : List String) : (found : List (String × Json)) → List (Bytes × Json) →
    Option (List (String × Json))
  | found, [] => some found
  | found, (k, j) :: ms =>
    match decode? k with
    | none => none
    | some key =>
      if key ∉ names then collect names found ms
      else if (found.lookup key).isSome then none
      else collect names (found ++ [(key, j)]) ms

/-- The values of the named fields: from an object in any order, from an array by position. -/
def record? (names : List String) : Json → Option (List (Option Json))
  | .obj ms => (collect names [] ms).map fun found => names.map fun name => found.lookup name
  | .arr js =>
    if js.length ≤ names.length then
      some (js.map some ++ List.replicate (names.length - js.length) none)
    else none
  | _ => none

/-- A field without default. -/
def required {α : Type} (read : Json → Option α) (j : Option Json) : Option α := j.bind read

/-- A field that may be left out; it may not be null unless `read` takes null. -/
def optional {α : Type} (default : α) (read : Json → Option α) : Option Json → Option α
  | none => some default
  | some j => read j

/-- A name from a list; an object with that name and null says the same. -/
def asVariant? (levels : Nat) : Json → Option String
  | .str raw => decode? raw
  | .obj [(k, .null)] => if 0 < levels then decode? k else none
  | _ => none

/-- A tag, the content beside it, and whether the content came first. -/
structure Tagged where
  tag : String
  content : Option Json
  contentFirst : Bool

/-- Reads `[tag, content]` with a plain text for a tag, or an object with these two names; the
content may be left out of the object. -/
def tagged? (tag content : String) : (levels : Nat) → Json → Option Tagged
  | levels + 1, .obj ms => do
    let found ← collect [tag, content] [] ms
    let variant ← asVariant? levels (← found.lookup tag)
    return ⟨variant, found.lookup content, (found.map (·.1)).head? = some content⟩
  | _ + 1, .arr [t, c] => do return ⟨← t.asText?, some c, false⟩
  | _, _ => none

end Companions.Json
