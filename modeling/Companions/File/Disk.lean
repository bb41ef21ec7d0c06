import Companions.File.Script
/-!
A disk: files, directories and symbolic links under one root, with a working directory. A path is
followed segment by segment; a link in the way is replaced by its target. Names, paths and the
number of links on the way have limits.
-/
namespace Companions

inductive DiskEntry where
  | file (bytes : Bytes)
  | directory
  | link (target : String)
  deriving Repr

/-- A place on the disk: the names from the root down. -/
abbrev Place := List String

structure Disk where
  entries : List (Place × DiskEntry) := []
  working : Place := []
  deriving Repr

namespace Disk

def entry? (d : Disk) (at_ : Place) : Option DiskEntry :=
  if at_ = [] then some .directory else d.entries.lookup at_

def isDirectoryAt (d : Disk) (at_ : Place) : Bool := d.entry? at_ matches some .directory

def segments (path : String) : List String :=
  (Text.pieces '/' path.toList).map String.ofList

/-! ## Following paths -/

/-- Why a path leads nowhere. -/
inductive Obstacle where
  /-- Something on the way does not exist. -/
  | missing
  /-- A file in the way, a circle of links, a name that cannot be or that is taken. -/
  | refused
  deriving DecidableEq, Repr

/-- How far segments lead before a link has to be followed. -/
inductive Walk where
  | arrived (at_ : Place)
  /-- A link in a directory, and the segments behind it. -/
  | link (directory : Place) (target : String) (rest : List String)
  | stopped (o : Obstacle)
  deriving DecidableEq, Repr

/-- How many bytes a name may have. -/
def maxName : Nat := 255

/-- How many bytes a path may have. -/
def maxPath : Nat := 4095

/-- How many links are followed on the way to one place. -/
def maxLinks : Nat := 40

/-- Walks from a place along segments up to the first link. The last name need not exist; whether
a link in its place is followed is for the caller to say. -/
def walk (d : Disk) (last : Bool) : Place → List String → Walk
  | at_, [] => .arrived at_
  | at_, s :: rest =>
    if !d.isDirectoryAt at_ then .stopped .refused
    else if s = "" ∨ s = "." then d.walk last at_ rest
    else if s = ".." then d.walk last at_.dropLast rest
    else if maxName < s.utf8ByteSize then .stopped .refused
    else
      match d.entry? (at_ ++ [s]) with
      | none => if rest = [] then .arrived (at_ ++ [s]) else .stopped .missing
      | some (.link target) =>
        if rest = [] ∧ !last then .arrived (at_ ++ [s]) else .link at_ target rest
      | some _ => d.walk last (at_ ++ [s]) rest

/-- Where a path that starts at a slash begins, and any other. -/
def origin (relative : Place) (path : String) : Place :=
  if path.toList.head? = some '/' then [] else relative

/-- The place that segments lead to. -/
def follow (d : Disk) (last : Bool) : (links : Nat) → Place → List String → Except Obstacle Place
  | links, at_, path =>
    match d.walk last at_ path, links with
    | .arrived at_, _ => .ok at_
    | .stopped o, _ => .error o
    | .link _ _ _, 0 => .error .refused
    | .link directory target rest, links + 1 =>
      d.follow last links (origin directory target) (segments target ++ rest)

/-- The place of a path of any length. -/
def resolve (d : Disk) (last : Bool) (p : Path) : Except Obstacle Place :=
  if p.isEmpty then .error .missing
  else if p.text.toList.contains '\x00' then .error .refused
  else d.follow last maxLinks (origin d.working p.text) (segments p.text)

/-- The place of a path. -/
def locate (d : Disk) (last : Bool) (p : Path) : Except Obstacle Place :=
  if maxPath < p.text.utf8ByteSize then .error .refused else d.resolve last p

def locate? (d : Disk) (last : Bool) (p : Path) : Option Place := (d.locate last p).toOption

/-! ## Access -/

def put (d : Disk) (at_ : Place) (e : DiskEntry) : Disk :=
  { d with entries := (at_, e) :: d.entries.filter (·.1 ≠ at_) }

def readAt (d : Disk) (p : Path) : Option Bytes := do
  match ← d.entry? (← d.locate? true p) with
  | .file bytes => some bytes
  | _ => none

def isDirectory (d : Disk) (p : Path) : Bool :=
  match d.locate? true p with
  | some at_ => d.isDirectoryAt at_
  | none => false

/-- The path from the root down. -/
def canonicalOf (d : Disk) (p : Path) : Option Path := do
  let at_ ← (d.resolve true p).toOption
  if (d.entry? at_).isSome then some ⟨"/" ++ "/".intercalate at_⟩ else none

/-- Changes the bytes of a file, a missing file being empty. -/
def change (d : Disk) (p : Path) (f : Bytes → Bytes) : Bool × Disk :=
  match d.locate? true p with
  | none => (false, d)
  | some at_ =>
    match d.entry? at_ with
    | none => (true, d.put at_ (.file (f [])))
    | some (.file bytes) => (true, d.put at_ (.file (f bytes)))
    | some _ => (false, d)

/-- Makes one directory where nothing is yet; its name may end in slashes. -/
def makeDirectory (d : Disk) (p : Path) : Except Obstacle Disk := do
  let at_ ← d.locate false p.withoutEndSlashes
  if (d.entry? at_).isSome then throw .refused else return d.put at_ .directory

/-- Makes a directory, and those above it if they are missing. One that exists will do. -/
def makeAll : (depth : Nat) → Disk → Path → Bool × Disk
  | 0, d, _ => (false, d)
  | n + 1, d, p =>
    if p.isEmpty then (true, d)
    else
      match d.makeDirectory p, p.parent? with
      | .ok d, _ => (true, d)
      | .error .refused, _ => (d.isDirectory p, d)
      | .error .missing, none => (false, d)
      | .error .missing, some parent =>
        match makeAll n d parent with
        | (false, d) => (false, d)
        | (true, d) =>
          match d.makeDirectory p with
          | .ok d => (true, d)
          | .error _ => (d.isDirectory p, d)

def makeDirectories (d : Disk) (p : Path) : Bool × Disk :=
  makeAll (p.text.length + 1) d p

/-- Removes a file or a link. -/
def remove (d : Disk) (p : Path) : Bool × Disk :=
  match d.locate? false p with
  | none => (false, d)
  | some at_ =>
    match d.entry? at_ with
    | some (.file _) | some (.link _) =>
      (true, { d with entries := d.entries.filter (·.1 ≠ at_) })
    | _ => (false, d)

/-- Whether a link may lead to the text. -/
def isTarget (target : String) : Bool :=
  target ≠ "" && target.utf8ByteSize ≤ maxPath && !target.toList.contains '\x00'

/-- Puts a link where nothing is yet. -/
def link (d : Disk) (p : Path) (target : String) : Bool × Disk :=
  match d.locate? false p with
  | none => (false, d)
  | some at_ =>
    if isTarget target && (d.entry? at_).isNone then (true, d.put at_ (.link target))
    else (false, d)

instance : FileSystem Disk where
  read := readAt
  isFile d p := (d.readAt p).isSome
  canonical := canonicalOf
  write d p bytes := d.change p fun _ => bytes
  append d p bytes := d.change p (· ++ bytes)
  makeDirectories := makeDirectories

end Disk
end Companions
