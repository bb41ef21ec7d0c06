import Companions.Json.Number
import Companions.Json.Text
/-!
Tokens: the layer between bytes and values. A text is scanned into tokens, blanks dropped, and a
value is read from the tokens; no reader limits how deep a value nests.
-/
namespace Companions.Json

inductive Token where
  | openArr
  | closeArr
  | openObj
  | closeObj
  | comma
  | colon
  | null
  | bool (value : Bool)
  | num (number : Number)
  | str (raw : Bytes)
  deriving DecidableEq, Repr, Inhabited

namespace Token

def write : Token → Bytes
  | .openArr => [0x5B]
  | .closeArr => [0x5D]
  | .openObj => [0x7B]
  | .closeObj => [0x7D]
  | .comma => [0x2C]
  | .colon => [0x3A]
  | .null => [0x6E, 0x75, 0x6C, 0x6C]
  | .bool true => [0x74, 0x72, 0x75, 0x65]
  | .bool false => [0x66, 0x61, 0x6C, 0x73, 0x65]
  | .num n => n.write
  | .str raw => 0x22 :: raw ++ [0x22]

def isBlank (b : UInt8) : Bool := b = 0x20 || b = 0x09 || b = 0x0A || b = 0x0D

/-- Takes one token from a text that starts with `b`, which is no blank. -/
def scan? (b : UInt8) (r : Bytes) : Option (Token × Bytes) :=
  if b = 0x5B then some (.openArr, r)
  else if b = 0x5D then some (.closeArr, r)
  else if b = 0x7B then some (.openObj, r)
  else if b = 0x7D then some (.closeObj, r)
  else if b = 0x2C then some (.comma, r)
  else if b = 0x3A then some (.colon, r)
  else if b = 0x22 then (scanText? r).map fun (raw, r) => (.str raw, r)
  else if b = 0x6E then
    match r with
    | 0x75 :: 0x6C :: 0x6C :: r => some (.null, r)
    | _ => none
  else if b = 0x74 then
    match r with
    | 0x72 :: 0x75 :: 0x65 :: r => some (.bool true, r)
    | _ => none
  else if b = 0x66 then
    match r with
    | 0x61 :: 0x6C :: 0x73 :: 0x65 :: r => some (.bool false, r)
    | _ => none
  else (Number.scan? (b :: r)).map fun (n, r) => (.num n, r)

/-- All tokens of a text; each takes a byte at least, so its length is fuel enough. -/
def scanAll? : (fuel : Nat) → Bytes → Option (List Token)
  | _, [] => some []
  | 0, _ :: _ => none
  | n + 1, b :: r =>
    if isBlank b then scanAll? n r
    else match scan? b r with
      | none => none
      | some (t, r) => (scanAll? n r).map (t :: ·)

def ofBytes? (bs : Bytes) : Option (List Token) := scanAll? bs.length bs

end Token

mutual

/-- The tokens of a value. -/
def tokens : Json → List Token
  | .null => [.null]
  | .bool b => [.bool b]
  | .num n => [.num n]
  | .str raw => [.str raw]
  | .arr [] => [.openArr, .closeArr]
  | .arr (j :: js) => .openArr :: tokens j ++ itemTokens js
  | .obj [] => [.openObj, .closeObj]
  | .obj ((k, j) :: ms) => .openObj :: .str k :: .colon :: tokens j ++ memberTokens ms

/-- The items behind the first one, up to the closing bracket. -/
def itemTokens : List Json → List Token
  | [] => [.closeArr]
  | j :: js => .comma :: tokens j ++ itemTokens js

/-- The members behind the first one, up to the closing brace. -/
def memberTokens : List (Bytes × Json) → List Token
  | [] => [.closeObj]
  | (k, j) :: ms => .comma :: .str k :: .colon :: tokens j ++ memberTokens ms

end

/-- The value without blanks. -/
def write (j : Json) : Bytes := (tokens j).flatMap Token.write

mutual

/-- Takes one value from the front. -/
def take? : (fuel : Nat) → List Token → Option (Json × List Token)
  | _ + 1, .null :: r => some (.null, r)
  | _ + 1, .bool b :: r => some (.bool b, r)
  | _ + 1, .num k :: r => some (.num k, r)
  | _ + 1, .str raw :: r => some (.str raw, r)
  | _ + 1, .openArr :: .closeArr :: r => some (.arr [], r)
  | n + 1, .openArr :: r => (takeItems? n r).map fun (js, r) => (.arr js, r)
  | _ + 1, .openObj :: .closeObj :: r => some (.obj [], r)
  | n + 1, .openObj :: r => (takeMembers? n r).map fun (ms, r) => (.obj ms, r)
  | _, _ => none

/-- Takes one item or more, with the closing bracket. -/
def takeItems? : (fuel : Nat) → List Token → Option (List Json × List Token)
  | 0, _ => none
  | n + 1, ts =>
    match take? n ts with
    | some (j, .comma :: r) => (takeItems? n r).map fun (js, r) => (j :: js, r)
    | some (j, .closeArr :: r) => some ([j], r)
    | _ => none

/-- Takes one member or more, with the closing brace. -/
def takeMembers? : (fuel : Nat) → List Token → Option (List (Bytes × Json) × List Token)
  | n + 1, .str k :: .colon :: ts =>
    match take? n ts with
    | some (j, .comma :: r) => (takeMembers? n r).map fun (ms, r) => ((k, j) :: ms, r)
    | some (j, .closeObj :: r) => some ([(k, j)], r)
    | _ => none
  | _, _ => none

end

/-- The value that the whole text is. Two steps of fuel for each token are enough. -/
def read? (bs : Bytes) : Option Json := do
  let ts ← Token.ofBytes? bs
  let (j, []) ← take? (2 * ts.length) ts | none
  return j

end Companions.Json
