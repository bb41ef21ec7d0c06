import Companions.Text.Basic
/-!
Paths as text with slashes. Empty segments and single dots carry no meaning, except for a dot in
front of a relative path.
-/
namespace Companions

structure Path where
  text : String
  deriving DecidableEq, Repr, Inhabited

namespace Path

inductive Component where
  | root
  | here
  | up
  | name (chars : List Char)
  deriving DecidableEq, Repr

/-- Component of a segment; an empty segment and a dot give none. -/
def component? (segment : List Char) : Option Component :=
  if segment = [] ∨ segment = ['.'] then none
  else if segment = ['.', '.'] then some .up
  else some (.name segment)

def isAbsolute (p : Path) : Bool := p.text.toList.head? = some '/'

def isEmpty (p : Path) : Bool := p.text.toList.isEmpty

/-- The text without trailing slashes and dots that carry no meaning, split into a front that is
never dropped (the root's slash, or a leading dot) and the rest, the rest backwards. -/
def parts (p : Path) : List Char × List Char :=
  match p.text.toList with
  | '/' :: body => (['/'], trimBack body.reverse)
  | ['.'] => (['.'], [])
  | '.' :: '/' :: body => (['.'], trimBack (body.reverse ++ ['/']))
  | body => ([], trimBack body.reverse)
where
  trimBack : List Char → List Char
    | '/' :: r => trimBack r
    | ['.'] => []
    | '.' :: '/' :: r => trimBack r
    | r => r

def components (p : Path) : List Component :=
  let body := (Text.pieces '/' p.parts.2.reverse).filterMap component?
  match p.parts.1 with
  | ['/'] => .root :: body
  | ['.'] => .here :: body
  | _ => body

/-- Whether two paths have the same components. -/
def same (p q : Path) : Bool := p.components = q.components

/-- The last component's name; `..` and a root have none. -/
def fileName? (p : Path) : Option (List Char) :=
  match p.components.getLast? with
  | some (.name chars) => some chars
  | _ => none

/-- The file name up to its last dot; a dot in front only is part of the stem. -/
def stemOf (name : List Char) : List Char :=
  match (name.reverse.dropWhile (· ≠ '.')).drop 1 with
  | [] => name
  | back => back.reverse

def fileStem? (p : Path) : Option (List Char) := p.fileName?.map stemOf

/-- Simple name of the assembly in a file: the file name without its extension. -/
def assemblyName (p : Path) : String := String.ofList (p.fileStem?.getD [])

/-- The path without its last component; a root and the empty path have no parent. -/
def parent? (p : Path) : Option Path :=
  match p.parts with
  | (front, []) => if front = ['.'] then some ⟨""⟩ else none
  | (front, back) =>
    let rest := parts.trimBack ((back.dropWhile (· ≠ '/')).drop 1)
    some ⟨String.ofList (front ++ rest.reverse)⟩

/-- The path of `name` in this directory; an absolute name stands alone. -/
def join (p : Path) (name : String) : Path :=
  if name.toList.head? = some '/' ∨ p.isEmpty then ⟨name⟩
  else if p.text.toList.getLast? = some '/' then ⟨p.text ++ name⟩
  else ⟨p.text ++ "/" ++ name⟩

/-- The path without slashes at its end, as far as it is more than slashes. -/
def withoutEndSlashes (p : Path) : Path :=
  match p.text.toList.reverse.dropWhile (· = '/') with
  | [] => p
  | back => ⟨String.ofList back.reverse⟩

/-- How long the extension of the file name is, without its dot. -/
def extensionLength (p : Path) : Nat :=
  match p.fileName? with
  | none => 0
  | some name => name.length - (stemOf name).length - 1

/-- The path up to the stem of its file name, if it has one. -/
def uptoStem? (p : Path) : Option (List Char) :=
  p.fileName?.map fun name =>
    let whole := p.parts.1 ++ p.parts.2.reverse
    whole.take (whole.length - (name.length - (stemOf name).length))

/-- Puts an extension in place of the file name's: so much is cut off the text as the old one is
long, and what then follows the stem gives way to the new one. Where no stem is left by then, as
of `..x`, none is added. -/
def withExtension (p : Path) (extension : String) : Path :=
  let cut : Path := ⟨String.ofList (p.text.toList.take (p.text.length - p.extensionLength))⟩
  match cut.uptoStem? with
  | none => cut
  | some stem => ⟨String.ofList (stem ++ '.' :: extension.toList)⟩

end Path
end Companions
