/-!
Sets of characters, built up the way patterns write them.
-/
namespace Companions

inductive CharSet where
  | empty
  | range (first last : Char)
  | union (a b : CharSet)
  | both (a b : CharSet)
  /-- What is in the first set and not in the second. -/
  | except (a b : CharSet)
  /-- The members with their case variants within ASCII. -/
  | folded (a : CharSet)
  deriving DecidableEq, Repr

namespace CharSet

def contains : CharSet → Char → Bool
  | .empty, _ => false
  | .range first last, c => first ≤ c && c ≤ last
  | .union a b, c => a.contains c || b.contains c
  | .both a b, c => a.contains c && b.contains c
  | .except a b, c => a.contains c && !b.contains c
  | .folded a, c => a.contains c || a.contains c.toLower || a.contains c.toUpper

def any : CharSet := .range '\x00' (Char.ofNat 0x10FFFF)

def only (c : Char) : CharSet := .range c c

def ofRanges (rs : List (Char × Char)) : CharSet :=
  rs.foldr (fun r s => .union (.range r.1 r.2) s) .empty

def complement (a : CharSet) : CharSet := .except any a

def asciiDigit : CharSet := .range '0' '9'

def asciiBlank : CharSet := ofRanges [('\t', '\r'), (' ', ' ')]

def asciiWord : CharSet := ofRanges [('0', '9'), ('A', 'Z'), ('_', '_'), ('a', 'z')]

/-- The classes of ASCII characters that have names. -/
def named? (name : String) : Option CharSet :=
  [("alnum", ofRanges [('0', '9'), ('A', 'Z'), ('a', 'z')]),
    ("alpha", ofRanges [('A', 'Z'), ('a', 'z')]),
    ("ascii", .range '\x00' '\x7f'),
    ("blank", ofRanges [('\t', '\t'), (' ', ' ')]),
    ("cntrl", ofRanges [('\x00', '\x1f'), ('\x7f', '\x7f')]),
    ("digit", asciiDigit),
    ("graph", .range '!' '~'),
    ("lower", .range 'a' 'z'),
    ("print", .range ' ' '~'),
    ("punct", ofRanges [('!', '/'), (':', '@'), ('[', '\x60'), ('\x7b', '~')]),
    ("space", asciiBlank),
    ("upper", .range 'A' 'Z'),
    ("word", asciiWord),
    ("xdigit", ofRanges [('0', '9'), ('A', 'F'), ('a', 'f')])].lookup name

end CharSet
end Companions
