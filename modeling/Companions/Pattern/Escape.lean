import Companions.Pattern.Basic
import Companions.Text.Basic
/-!
Modes of reading a pattern, and what stands behind a backslash.
-/
namespace Companions.Pattern

/-- How characters of a pattern are understood; the letters that switch modes stand beside. -/
structure Modes where
  /-- `i`: letters match in either case, within ASCII only. -/
  folded : Bool := false
  /-- `m`: the anchors match at lines. -/
  lines : Bool := false
  /-- `s`: a dot matches a line feed too. -/
  dotAll : Bool := false
  /-- `U`: repetitions are not greedy, unless marked. -/
  swapped : Bool := false
  /-- `u`: characters beyond ASCII count. -/
  unicode : Bool := true
  /-- `R`: a carriage return ends a line too. -/
  crlf : Bool := false
  /-- `x`: blanks and comments are skipped. -/
  spaced : Bool := false
  deriving DecidableEq, Repr

namespace Modes

def switch? (m : Modes) (letter : Char) (on : Bool) : Option Modes :=
  match letter with
  | 'i' => some { m with folded := on }
  | 'm' => some { m with lines := on }
  | 's' => some { m with dotAll := on }
  | 'U' => some { m with swapped := on }
  | 'u' => some { m with unicode := on }
  | 'R' => some { m with crlf := on }
  | 'x' => some { m with spaced := on }
  | _ => none

/-- The set with case variants, where the mode asks for them. -/
def fold (m : Modes) (s : CharSet) : CharSet := if m.folded then .folded s else s

/-- Characters have case variants that are not known where both modes hold, and cannot be read
there. -/
def readsChars (m : Modes) : Bool := !(m.folded && m.unicode)

/-- A character that stands for itself. -/
def char? (m : Modes) (c : Char) : Option CharSet :=
  if m.readsChars then some (m.fold (.only c)) else none

/-- A class that is known within ASCII only. -/
def ascii? (m : Modes) (s : CharSet) : Option CharSet := if m.unicode then none else some s

/-- A complement goes beyond ASCII. -/
def complement? (m : Modes) (s : CharSet) : Option CharSet :=
  if m.unicode then some s.complement else none

def dot? (m : Modes) : Option CharSet :=
  if !m.unicode then none
  else if m.dotAll then some .any
  else if m.crlf then some (.except .any (.union (.only '\n') (.only '\r')))
  else some (.except .any (.only '\n'))

def lineStart (m : Modes) : Boundary := if m.lines then .lineStart m.crlf else .textStart

def lineEnd (m : Modes) : Boundary := if m.lines then .lineEnd m.crlf else .textEnd

/-- Drops blanks and comments; a comment runs from `#` to the end of the line. -/
def skipSpace (inComment : Bool) : List Char → List Char
  | [] => []
  | c :: cs =>
    if inComment then skipSpace (c ≠ '\n') cs
    else if c = '#' then skipSpace true cs
    else if Text.isBlank c then skipSpace false cs
    else c :: cs

/-- What follows blanks and comments, where the mode lets them be skipped. -/
def skip (m : Modes) (cs : List Char) : List Char := if m.spaced then skipSpace false cs else cs

/-- The character ahead, behind blanks and the sign of a comment where they may be skipped; the
comment itself is looked at. -/
def peek? (m : Modes) (cs : List Char) : Option Char :=
  if m.spaced then
    match cs.dropWhile Text.isBlank with
    | '#' :: cs => (cs.dropWhile Text.isBlank).head?
    | cs => cs.head?
  else cs.head?

end Modes

/-- What a backslash and the characters behind it stand for. -/
inductive Escape where
  | char (c : Char)
  | set (s : CharSet)
  | boundary (b : Boundary)
  deriving DecidableEq, Repr

def Escape.isAscii : Escape → Bool
  | .char c => c.toNat < 0x80
  | _ => true

/-- Characters that have a meaning of their own somewhere in a pattern. -/
def isMeta (c : Char) : Bool := "\\.+*?()|[]\x7b\x7d^$#&-~".toList.contains c

/-- Any ASCII character but a letter or digit may be escaped; angle brackets then mean something
else. -/
def isEscapable (c : Char) : Bool :=
  isMeta c || (c.toNat < 0x80 && !c.isAlphanum && c ≠ '<' && c ≠ '>')

/-- So many hexadecimal digits. -/
def hexNumber? (m : Modes) : (digits n : Nat) → List Char → Option (Nat × List Char)
  | 0, n, cs => some (n, cs)
  | k + 1, n, cs =>
    match m.skip cs with
    | [] => none
    | c :: cs => do hexNumber? m k (16 * n + (← Text.hexDigit c)) cs

/-- A character by its code point. -/
def codePoint? (m : Modes) (digits : Nat) (cs : List Char) : Option (Escape × List Char) := do
  let (n, cs) ← hexNumber? m digits 0 cs
  if n.isValidChar then return (.char (Char.ofNat n), cs) else none

/-- Reads an escape behind its backslash. Numbered references are not read, nor are digits, blanks
and words beyond ASCII and their complements. -/
def escape? (m : Modes) : List Char → Option (Escape × List Char)
  | [] => none
  | c :: cs =>
    if isEscapable c then some (.char c, cs)
    else
      let edge (b : Boundary) := if m.unicode then none else some (Escape.boundary b, cs)
      let set (s : CharSet) := (m.ascii? s).map fun s => (Escape.set s, cs)
      match c with
      | 'd' => set .asciiDigit
      | 's' => set .asciiBlank
      | 'w' => set .asciiWord
      | 'x' => (codePoint? m 2 cs).filter fun r => m.unicode || r.1.isAscii
      | 'u' => codePoint? m 4 cs
      | 'U' => codePoint? m 8 cs
      | 'a' => some (.char '\x07', cs)
      | 'f' => some (.char '\x0c', cs)
      | 't' => some (.char '\t', cs)
      | 'n' => some (.char '\n', cs)
      | 'r' => some (.char '\r', cs)
      | 'v' => some (.char '\x0b', cs)
      | 'A' => some (.boundary .textStart, cs)
      | 'z' => some (.boundary .textEnd, cs)
      | 'b' => edge .wordEdge
      | 'B' => edge .noWordEdge
      | '<' => edge .wordStart
      | '>' => edge .wordEnd
      | _ => none

end Companions.Pattern
