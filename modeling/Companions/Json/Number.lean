import Companions.Json.Basic
/-!
Numbers: how they are written, which of them are integers, and which are too large to be read
as a double.
-/
namespace Companions.Json

def isDigit (b : UInt8) : Bool := 0x30 ≤ b && b ≤ 0x39

def digitValue (b : UInt8) : Nat := b.toNat - 0x30

namespace Number

/-- The digits of `n` as ASCII bytes. -/
def digits (n : Nat) : Bytes := (Nat.toDigits 10 n).map fun c => UInt8.ofNat c.toNat

def ofNat (n : Nat) : Number := { whole := digits n }

def ofInt (i : Int) : Number := { negative := i < 0, whole := digits i.natAbs }

def write (n : Number) : Bytes :=
  (if n.negative then [0x2D] else []) ++ n.whole ++
    (if n.fraction = [] then [] else 0x2E :: n.fraction) ++
    match n.exponent with
    | none => []
    | some (negative, ds) => 0x65 :: (if negative then [0x2D] else []) ++ ds

/-- Takes a number from the front: no leading zero, and a digit on each side of a point and
behind an exponent mark. -/
def scan? (bs : Bytes) : Option (Number × Bytes) := do
  let (negative, bs) := match bs with
    | 0x2D :: r => (true, r)
    | r => (false, r)
  let (whole, bs) ← match bs with
    | 0x30 :: r => some ([0x30], r)
    | r => if r.takeWhile isDigit = [] then none
           else some (r.takeWhile isDigit, r.dropWhile isDigit)
  let (fraction, bs) ← match bs with
    | 0x2E :: r => if r.takeWhile isDigit = [] then none
                   else some (r.takeWhile isDigit, r.dropWhile isDigit)
    | r => some ([], r)
  match bs with
  | [] => return (⟨negative, whole, fraction, none⟩, [])
  | e :: r =>
    if e = 0x65 ∨ e = 0x45 then
      let (down, r) := match r with
        | 0x2B :: r => (false, r)
        | 0x2D :: r => (true, r)
        | r => (false, r)
      if r.takeWhile isDigit = [] then none
      else return (⟨negative, whole, fraction, some (down, r.takeWhile isDigit)⟩,
        r.dropWhile isDigit)
    else return (⟨negative, whole, fraction, none⟩, e :: r)

def value (ds : Bytes) : Nat := ds.foldl (fun n d => n * 10 + digitValue d) 0

/-- The integer that is written; a point, an exponent or `-0` makes it none. -/
def int? (n : Number) : Option Int :=
  if n.fraction ≠ [] ∨ n.exponent.isSome then none
  else if n.negative then if value n.whole = 0 then none else some (-value n.whole)
  else some (value n.whole)

/-- Adds digits to a significand as long as it stays below 2^64; the count of digits read, and
of those left over. -/
def accumulate : (significand read : Nat) → Bytes → Nat × Nat × Nat
  | s, k, [] => (s, k, 0)
  | s, k, d :: ds =>
    if s * 10 + digitValue d < UInt64.size then accumulate (s * 10 + digitValue d) (k + 1) ds
    else (s, k, ds.length + 1)

/-- The nearest number with 53 significant bits, of two equally near ones the even. -/
def roundToDouble (n : Nat) : Nat :=
  let unit := 1 <<< (Nat.log2 n + 1 - 53)
  let down := n / unit
  let rest := n % unit
  if rest * 2 > unit ∨ (rest * 2 = unit ∧ down % 2 = 1) then (down + 1) * unit else down * unit

/-- Whether a double can hold the number. The significand keeps the digits that fit in 64 bits;
it and the power of ten are rounded before they are multiplied. -/
def inRange (n : Number) : Bool :=
  let (s, _, cut) := accumulate 0 0 n.whole
  let (s, places, _) := accumulate s 0 n.fraction
  let start : Int := (cut : Int) - places
  match n.exponent with
  | none => if n.fraction = [] ∧ cut = 0 then true else fits s start
  | some (down, ds) =>
    if value ds ≥ 1 <<< 31 then s = 0 || down
    else if down then fits s (start - value ds) else fits s (start + value ds)
where
  fits (s : Nat) (e : Int) : Bool :=
    if s = 0 ∨ e < 0 then true
    else if e > 308 then false
    else roundToDouble (roundToDouble s * roundToDouble (Nat.pow 10 e.toNat)) < 1 <<< 1024

end Number
end Companions.Json
