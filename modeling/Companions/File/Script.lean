import Companions.File.Path
import Companions.Json.Basic
import Companions.Journal
/-!
Scripts: what a computation asks of a file system, step by step, and what it writes into the
journal in between. A script says nothing about the file system; it can be run on any, and on
the files of the machine.
-/
namespace Companions

inductive Script (α : Type) where
  | done (value : α)
  | read (path : Path) (next : Option Bytes → Script α)
  | isFile (path : Path) (next : Bool → Script α)
  | canonical (path : Path) (next : Option Path → Script α)
  | write (path : Path) (bytes : Bytes) (next : Bool → Script α)
  | append (path : Path) (bytes : Bytes) (next : Bool → Script α)
  | makeDirectories (path : Path) (next : Bool → Script α)
  | note (journal : Journal) (next : Script α)

/-- A store of files. A failing change may have happened in part. -/
class FileSystem (σ : Type) where
  read : σ → Path → Option Bytes
  isFile : σ → Path → Bool
  canonical : σ → Path → Option Path
  write : σ → Path → Bytes → Bool × σ
  append : σ → Path → Bytes → Bool × σ
  makeDirectories : σ → Path → Bool × σ

namespace Script

variable {α β : Type}

def bind : Script α → (α → Script β) → Script β
  | .done a, f => f a
  | .read p k, f => .read p fun r => (k r).bind f
  | .isFile p k, f => .isFile p fun r => (k r).bind f
  | .canonical p k, f => .canonical p fun r => (k r).bind f
  | .write p b k, f => .write p b fun r => (k r).bind f
  | .append p b k, f => .append p b fun r => (k r).bind f
  | .makeDirectories p k, f => .makeDirectories p fun r => (k r).bind f
  | .note j k, f => .note j (k.bind f)

instance : Monad Script where
  pure := done
  bind := bind

/-- The contents of a file. -/
def readFile (p : Path) : Script (Option Bytes) := .read p .done

def askFile (p : Path) : Script Bool := .isFile p .done

def askCanonical (p : Path) : Script (Option Path) := .canonical p .done

/-- Replaces the contents of a file, or makes one. -/
def writeFile (p : Path) (bytes : Bytes) : Script Bool := .write p bytes .done

/-- Puts bytes at the end of a file, or makes one. -/
def appendFile (p : Path) (bytes : Bytes) : Script Bool := .append p bytes .done

/-- Makes a directory and those above it. -/
def makeAll (p : Path) : Script Bool := .makeDirectories p .done

def say (j : Journal) : Script Unit := .note j (.done ())

/-- What a run leaves: the value, the files, and what was noted. -/
structure Run (σ α : Type) where
  value : α
  files : σ
  journal : Journal

def run {σ : Type} [FileSystem σ] : Script α → σ → Run σ α
  | .done a, s => ⟨a, s, []⟩
  | .read p k, s => (k (FileSystem.read s p)).run s
  | .isFile p k, s => (k (FileSystem.isFile s p)).run s
  | .canonical p k, s => (k (FileSystem.canonical s p)).run s
  | .write p b k, s =>
    let (r, s) := FileSystem.write s p b
    (k r).run s
  | .append p b k, s =>
    let (r, s) := FileSystem.append s p b
    (k r).run s
  | .makeDirectories p k, s =>
    let (r, s) := FileSystem.makeDirectories s p
    (k r).run s
  | .note j k, s =>
    let r := k.run s
    { r with journal := j ++ r.journal }

theorem run_bind {σ : Type} [FileSystem σ] (x : Script α) (f : α → Script β) (s : σ) :
    (x >>= f).run s =
      let r := x.run s
      let r' := (f r.value).run r.files
      { r' with journal := r.journal ++ r'.journal } := by
  change (x.bind f).run s = _
  induction x generalizing s with
  | done a => rfl
  | note j k ih => simp [bind, run, ih]
  | _ => simp [bind, run, *]

end Script
end Companions
