import Companions.Text.Basic
/-!
Flag sets and their written form: names joined by ` | `, then the remaining bits in hexadecimal.
-/
namespace Companions

/-- The named bits of a flag set in the order in which they are written, and the bound below
which all its values lie. -/
structure FlagNames where
  names : List (String × Nat)
  limit : Nat

namespace FlagNames

/-- Names whose bits all lie in `value` and that cover a bit no earlier name covers, with the
bits that no name covers. -/
def cover (value : Nat) : List (String × Nat) → (left : Nat) → List String × Nat
  | [], left => ([], left)
  | (name, bits) :: rest, left =>
    if value &&& bits = bits ∧ left &&& bits ≠ 0 then
      let (names, left) := cover value rest (left ^^^ (left &&& bits))
      (name :: names, left)
    else cover value rest left

def write (f : FlagNames) (value : Nat) : String :=
  let (names, left) := cover value f.names value
  " | ".intercalate (if left = 0 then names else names ++ ["0x" ++ String.ofList (Text.hexadecimal left)])

/-- One part: `0x` with hexadecimal digits, or a name. -/
def readPart (f : FlagNames) (part : List Char) : Option Nat :=
  match Text.after? ['0', 'x'] part with
  | some digits => Text.numeral 16 f.limit Text.hexDigit digits
  | none => f.names.lookup (String.ofList part)

/-- Blank text is the empty set; otherwise each part between bars must be a name or a number. -/
def read (f : FlagNames) (text : String) : Option Nat :=
  if (Text.trim text.toList).isEmpty then some 0
  else (Text.pieces '|' text.toList).foldlM
    (fun value part => (f.readPart (Text.trim part)).map (value ||| ·)) 0

end FlagNames

/-- Visibility and layout of a type. -/
structure TypeFlags where
  bits : UInt32
  deriving DecidableEq, Repr, Inhabited

namespace TypeFlags

def isPublic : TypeFlags := ⟨0x1⟩
def nestedPublic : TypeFlags := ⟨0x2⟩
def isAbstract : TypeFlags := ⟨0x80⟩
def serializable : TypeFlags := ⟨0x2000⟩

def union (a b : TypeFlags) : TypeFlags := ⟨a.bits ||| b.bits⟩

def contains (a b : TypeFlags) : Bool := a.bits &&& b.bits = b.bits

def names : FlagNames where
  names := [("PUBLIC", 0x1), ("NESTED_PUBLIC", 0x2), ("ABSTRACT", 0x80), ("SEALED", 0x100),
    ("SERIALIZABLE", 0x2000)]
  limit := UInt32.size

def write (f : TypeFlags) : String := names.write f.bits.toNat

def read (text : String) : Option TypeFlags := (names.read text).map fun n => ⟨UInt32.ofNat n⟩

end TypeFlags

/-- Visibility and storage of a field. -/
structure FieldFlags where
  bits : UInt16
  deriving DecidableEq, Repr, Inhabited

namespace FieldFlags

def isPublic : FieldFlags := ⟨0x6⟩

def contains (a b : FieldFlags) : Bool := a.bits &&& b.bits = b.bits

def names : FlagNames where
  names := [("PRIVATE", 0x1), ("PUBLIC", 0x6), ("STATIC", 0x10), ("INIT_ONLY", 0x20),
    ("NOT_SERIALIZED", 0x80)]
  limit := UInt16.size

def write (f : FieldFlags) : String := names.write f.bits.toNat

def read (text : String) : Option FieldFlags := (names.read text).map fun n => ⟨UInt16.ofNat n⟩

end FieldFlags

/-- Visibility and naming of a method. -/
structure MethodFlags where
  bits : UInt16
  deriving DecidableEq, Repr, Inhabited

namespace MethodFlags

def isStatic : MethodFlags := ⟨0x10⟩

/-- Public, hidden by signature, and specially named for runtime and compiler. -/
def constructor : MethodFlags := ⟨0x6 ||| 0x80 ||| 0x800 ||| 0x1000⟩

def contains (a b : MethodFlags) : Bool := a.bits &&& b.bits = b.bits

def names : FlagNames where
  names := [("PRIVATE", 0x1), ("PUBLIC", 0x6), ("STATIC", 0x10), ("VIRTUAL", 0x40),
    ("HIDE_BY_SIG", 0x80), ("ABSTRACT", 0x400), ("SPECIAL_NAME", 0x800),
    ("RT_SPECIAL_NAME", 0x1000)]
  limit := UInt16.size

def write (f : MethodFlags) : String := names.write f.bits.toNat

def read (text : String) : Option MethodFlags := (names.read text).map fun n => ⟨UInt16.ofNat n⟩

end MethodFlags
end Companions
