/-!
Trimming, splitting, searching and numerals on lists of characters. Blanks are the characters of the
Unicode property White_Space.
-/
namespace Companions.Text

/-- The 25 characters of White_Space. -/
def isBlank (c : Char) : Bool :=
  c.toNat ∈ [0x09, 0x0A, 0x0B, 0x0C, 0x0D, 0x20, 0x85, 0xA0, 0x1680, 0x2000, 0x2001, 0x2002,
    0x2003, 0x2004, 0x2005, 0x2006, 0x2007, 0x2008, 0x2009, 0x200A, 0x2028, 0x2029, 0x202F,
    0x205F, 0x3000]

def trimStart (cs : List Char) : List Char := cs.dropWhile isBlank

def trimEnd (cs : List Char) : List Char := (cs.reverse.dropWhile isBlank).reverse

def trim (cs : List Char) : List Char := trimEnd (trimStart cs)

/-- The piece before the first separator, and the pieces after each separator. -/
def split (sep : Char) : List Char → List Char × List (List Char)
  | [] => ([], [])
  | c :: r =>
    let (piece, pieces) := split sep r
    if c = sep then ([], piece :: pieces) else (c :: piece, pieces)

/-- All pieces between separators; there is at least one. -/
def pieces (sep : Char) (cs : List Char) : List (List Char) :=
  (split sep cs).1 :: (split sep cs).2

/-- What follows `p`, if the text starts with it. -/
def after? : (p cs : List Char) → Option (List Char)
  | [], cs => some cs
  | _ :: _, [] => none
  | a :: p, c :: cs => if a = c then after? p cs else none

def startsWith (p cs : List Char) : Bool := (after? p cs).isSome

/-- Whether `p` occurs in the text at some place. -/
def contains (p : List Char) : List Char → Bool
  | [] => p.isEmpty
  | c :: cs => startsWith p (c :: cs) || contains p cs

/-- ASCII capitals become small letters; all else stays. -/
def lower (cs : List Char) : List Char := cs.map Char.toLower

/-- The part after the last character that satisfies `p`. -/
def afterLast (p : Char → Bool) (cs : List Char) : List Char :=
  (cs.reverse.takeWhile (fun c => !p c)).reverse

/-- The value of a non-empty row of digits, each read by `digit`. -/
def number (base : Nat) (digit : Char → Option Nat) : List Char → Option Nat
  | [] => none
  | c :: cs => (c :: cs).foldlM (fun n c => (digit c).map (n * base + ·)) 0

def decimalDigit (c : Char) : Option Nat :=
  if c.isDigit then some (c.toNat - '0'.toNat) else none

def hexDigit (c : Char) : Option Nat :=
  if c.isDigit then some (c.toNat - '0'.toNat)
  else if 'a' ≤ c ∧ c ≤ 'f' then some (c.toNat - 'a'.toNat + 10)
  else if 'A' ≤ c ∧ c ≤ 'F' then some (c.toNat - 'A'.toNat + 10)
  else none

/-- A row of digits below `limit`; one plus sign may stand in front. -/
def numeral (base limit : Nat) (digit : Char → Option Nat) (cs : List Char) : Option Nat :=
  let row := (after? ['+'] cs).getD cs
  (number base digit row).filter (· < limit)

/-- The digits of `n`, most significant first. -/
def decimal (n : Nat) : List Char := Nat.toDigits 10 n

def hexadecimal (n : Nat) : List Char := Nat.toDigits 16 n

end Companions.Text
