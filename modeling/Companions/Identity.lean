import Companions.Text.Basic
/-!
Assembly identities: a simple name with a four-part version, and the display form
`Name, Version=1.2.3.4`.
-/
namespace Companions

structure Version where
  major : UInt16 := 0
  minor : UInt16 := 0
  build : UInt16 := 0
  revision : UInt16 := 0
  deriving DecidableEq, Repr, Inhabited

namespace Version

def parts (v : Version) : List UInt16 := [v.major, v.minor, v.build, v.revision]

/-- Up to four parts from the left; the missing ones are zero. -/
def ofParts (ps : List UInt16) : Version :=
  ⟨ps[0]?.getD 0, ps[1]?.getD 0, ps[2]?.getD 0, ps[3]?.getD 0⟩

def display (v : Version) : List Char :=
  Text.decimal v.major.toNat ++ '.' :: Text.decimal v.minor.toNat ++
    '.' :: Text.decimal v.build.toNat ++ '.' :: Text.decimal v.revision.toNat

end Version

structure Identity where
  name : String
  version : Version := {}
  deriving DecidableEq, Repr, Inhabited

/-- Why a display form names no assembly. -/
inductive IdentityError where
  | missingName
  | nonNumericVersion
  | partCount
  deriving DecidableEq, Repr

def IdentityError.reason : IdentityError → String
  | .missingName => "missing assembly name"
  | .nonNumericVersion => "non-numeric version"
  | .partCount => "version must have one to four parts"

def IdentityError.message (input : String) (e : IdentityError) : String :=
  s!"invalid assembly identity '{input}': {e.reason}"

namespace Identity

def displayChars (i : Identity) : List Char :=
  i.name.toList ++ ", Version=".toList ++ i.version.display

/-- `Name, Version=1.2.3.4`; the key under which an image is kept. -/
def display (i : Identity) : String := String.ofList i.displayChars

/-- By name, character by character, then by version. -/
def compare (a b : Identity) : Ordering :=
  (Ord.compare a.name b.name).then
    (compareOfLessAndEq (a.version.parts.map UInt16.toNat) (b.version.parts.map UInt16.toNat))

def versionPart (cs : List Char) : Except IdentityError UInt16 :=
  match Text.numeral 10 65536 Text.decimalDigit cs with
  | some n => .ok (UInt16.ofNat n)
  | none => .error .nonNumericVersion

/-- One to four numbers between dots. A faulty number among the first four is reported before
too many parts. -/
def parseVersion (cs : List Char) : Except IdentityError Version := do
  let pieces := Text.pieces '.' cs
  let parts ← (pieces.take 4).mapM versionPart
  if pieces.length ≤ 4 then return .ofParts parts else throw .partCount

/-- The last `Version=` wins; every other property is skipped. -/
def parseProperties : Version → List (List Char) → Except IdentityError Version
  | v, [] => .ok v
  | v, p :: ps =>
    match Text.after? "Version=".toList (Text.trim p) with
    | none => parseProperties v ps
    | some number => do parseProperties (← parseVersion number) ps

def parseChars (cs : List Char) : Except IdentityError Identity :=
  let (head, properties) := Text.split ',' cs
  let name := Text.trim head
  if name.isEmpty then .error .missingName
  else do return ⟨String.ofList name, ← parseProperties {} properties⟩

/-- Reads `Name` or `Name, Version=1.2.3.4`, with any other properties between commas. -/
def parse (s : String) : Except IdentityError Identity := parseChars s.toList

end Identity
end Companions
