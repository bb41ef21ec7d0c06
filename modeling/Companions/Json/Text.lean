import Companions.Json.Basic
/-!
Strings: their escapes on writing, what may stand between two quotes, and its decoding.
-/
namespace Companions.Json

def hexDigit (n : Nat) : UInt8 := UInt8.ofNat (if n < 10 then 0x30 + n else 0x61 + (n - 10))

def hexValue (b : UInt8) : Option Nat :=
  if 0x30 ≤ b ∧ b ≤ 0x39 then some (b.toNat - 0x30)
  else if 0x61 ≤ b ∧ b ≤ 0x66 then some (b.toNat - 0x61 + 10)
  else if 0x41 ≤ b ∧ b ≤ 0x46 then some (b.toNat - 0x41 + 10)
  else none

/-- The value of four hexadecimal digits. -/
def hexFour (a b c d : UInt8) : Option Nat := do
  return ((← hexValue a) * 16 + (← hexValue b)) * 256 + ((← hexValue c) * 16 + (← hexValue d))

/-- The letter behind a backslash, and the byte the two stand for. -/
def shortEscapes : List (UInt8 × UInt8) :=
  [(0x22, 0x22), (0x5C, 0x5C), (0x2F, 0x2F), (0x62, 0x08), (0x66, 0x0C), (0x6E, 0x0A),
    (0x72, 0x0D), (0x74, 0x09)]

/-- Quote, backslash and control characters are escaped, the last with a letter where one
exists; all else stays. -/
def escapeByte (b : UInt8) : Bytes :=
  if b = 0x22 then [0x5C, 0x22]
  else if b = 0x5C then [0x5C, 0x5C]
  else if b = 0x08 then [0x5C, 0x62]
  else if b = 0x0C then [0x5C, 0x66]
  else if b = 0x0A then [0x5C, 0x6E]
  else if b = 0x0D then [0x5C, 0x72]
  else if b = 0x09 then [0x5C, 0x74]
  else if b < 0x20 then [0x5C, 0x75, 0x30, 0x30, hexDigit (b.toNat / 16), hexDigit (b.toNat % 16)]
  else [b]

def escape (bs : Bytes) : Bytes := bs.flatMap escapeByte

/-- What stands up to the closing quote. Control characters are refused and escapes must be
well formed; surrogates and UTF-8 are left to `decode?`. -/
def scanText? : Bytes → Option (Bytes × Bytes)
  | [] => none
  | b :: r =>
    if b = 0x22 then some ([], r)
    else if b = 0x5C then
      match r with
      | [] => none
      | e :: r =>
        if e = 0x75 then
          match r with
          | h₁ :: h₂ :: h₃ :: h₄ :: r =>
            if (hexFour h₁ h₂ h₃ h₄).isSome then
              (scanText? r).map fun (t, r) => (b :: e :: h₁ :: h₂ :: h₃ :: h₄ :: t, r)
            else none
          | _ => none
        else if (shortEscapes.lookup e).isSome then
          (scanText? r).map fun (t, r) => (b :: e :: t, r)
        else none
    else if b < 0x20 then none
    else (scanText? r).map fun (t, r) => (b :: t, r)

/-- The UTF-8 bytes of a code point. -/
def encodeScalar (n : Nat) : Bytes := utf8 (String.singleton (Char.ofNat n))

/-- Replaces the escapes. A leading surrogate must be followed by the escape of a trailing one,
and no trailing one may stand alone. -/
def unescape? : Bytes → Option Bytes
  | [] => some []
  | b :: r =>
    if b = 0x5C then
      match r with
      | [] => none
      | e :: r =>
        if e = 0x75 then
          match r with
          | h₁ :: h₂ :: h₃ :: h₄ :: r =>
            match hexFour h₁ h₂ h₃ h₄ with
            | none => none
            | some n =>
              if 0xDC00 ≤ n ∧ n ≤ 0xDFFF then none
              else if 0xD800 ≤ n ∧ n ≤ 0xDBFF then
                match r with
                | b' :: e' :: k₁ :: k₂ :: k₃ :: k₄ :: r =>
                  match hexFour k₁ k₂ k₃ k₄ with
                  | none => none
                  | some m =>
                    if b' = 0x5C ∧ e' = 0x75 ∧ 0xDC00 ≤ m ∧ m ≤ 0xDFFF then
                      (unescape? r).map
                        (encodeScalar (0x10000 + (n - 0xD800) * 0x400 + (m - 0xDC00)) ++ ·)
                    else none
                | _ => none
              else (unescape? r).map (encodeScalar n ++ ·)
          | _ => none
        else
          match shortEscapes.lookup e with
          | some c => (unescape? r).map (c :: ·)
          | none => none
    else (unescape? r).map (b :: ·)

/-- The text of a string; its bytes must be UTF-8 once the escapes are replaced. -/
def decode? (raw : Bytes) : Option String := (unescape? raw).bind ofUtf8?

def encode (s : String) : Bytes := escape (utf8 s)

end Companions.Json
