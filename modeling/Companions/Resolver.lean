import Companions.Cache
import Companions.Context
/-!
Resolving references for one pass: first among the images of the pass, then, where allowed, in
the cache, and last in the directories from which images of the pass were loaded. A reference
that is not found is no error.
-/
namespace Companions

structure Resolver where
  cache : Cache
  directories : List Path := []
  /-- The images of the pass by the display form of their identity. -/
  used : Table Image := {}
  /-- Whether the cache may answer. -/
  resolveAdditional : Bool
  deriving DecidableEq, Repr, Inhabited

namespace Resolver

/-- A directory is probed once, however it is written. -/
def addDirectory (r : Resolver) (p : Path) : Resolver :=
  if r.directories.any (·.same p) then r else { r with directories := r.directories ++ [p] }

def register (r : Resolver) (m : Image) : Resolver :=
  { r with used := r.used.insertNew m.identity.display m }

def assemblies (r : Resolver) : List Image := r.used.values

/-- Loads the given images and probes their directories from then on. At the first failure the
resolver is as far as it came. -/
def seed (r : Resolver) : List Path → Script (Resolver × Except ImageError Unit)
  | [] => return (r, .ok ())
  | p :: ps => do
    match ← r.cache.loadPath p with
    | (cache, .error e) => return ({ r with cache := cache }, .error e)
    | (cache, .ok m) =>
      let r := { r with cache := cache }
      let r := match p.parent? with
        | some directory => r.addDirectory directory
        | none => r
      (r.register m).seed ps

/-- A resolver over a cache, seeded with the images at the paths. -/
def make (cache : Cache) (paths : List Path) (resolveAdditional : Bool) :
    Script (Resolver × Except ImageError Unit) :=
  seed { cache := cache, resolveAdditional := resolveAdditional } paths

/-- Looks for `Name.dll` in the directories; it must hold exactly that identity. -/
def probe (r : Resolver) (i : Identity) : List Path → Script (Resolver × Option Image)
  | [] => do
    .say [.event ⟨.debug, resolverTarget, "reference not resolved", ["assembly"]⟩]
    return (r, none)
  | directory :: rest => do
    let candidate := directory.join (i.name ++ "." ++ Name.imageExtension)
    if ← .askFile candidate then
      match ← r.cache.loadPath candidate with
      | (cache, .error _) =>
        .say [.warning resolverTarget "failed to read candidate reference" ["path", "error"]]
        probe { r with cache := cache } i rest
      | (cache, .ok m) =>
        let r := { r with cache := cache }
        if m.identity = i then
          .say [.event ⟨.trace, resolverTarget, "resolved from search directory",
            ["assembly", "path"]⟩]
          return (r.register m, some m)
        else
          .say [.event ⟨.debug, resolverTarget, "search directory holds a different version",
            ["wanted", "found"]⟩]
          probe r i rest
    else probe r i rest

def resolve (r : Resolver) (i : Identity) : Script (Resolver × Option Image) := do
  match r.used.get? i.display with
  | some m => return (r, some m)
  | none =>
    match if r.resolveAdditional then r.cache.get? i else none with
    | some m =>
      .say [.event ⟨.trace, resolverTarget, "resolved from loaded set", ["assembly"]⟩]
      return (r.register m, some m)
    | none => r.probe i r.directories

end Resolver

/-- Target of the events about contexts. -/
def contextTarget : String := "ecsgen_model::context"

/-- How many references a context follows. -/
def maxReferences : Nat := 1024

namespace Context

/-- Whether an assembly of that simple name is in the context. -/
def knows (c : Context) (name : String) : Bool :=
  c.references.contains name || name = c.target.name

/-- The first identity in the queue that is new and resolves, and the queue behind it. -/
def nextReference (c : Context) (r : Resolver) :
    List Identity → Script (Resolver × Option (Image × List Identity))
  | [] => return (r, none)
  | i :: queue => do
    if c.knows i.name then nextReference c r queue
    else
      match ← r.resolve i with
      | (r, some m) => return (r, some (m, queue))
      | (r, none) =>
        .say [.warning contextTarget "unresolved assembly reference" ["assembly"]]
        nextReference c r queue

/-- Adds references breadth first, `room` at most. -/
def close : (room : Nat) → Context → Resolver → List Identity → Script (Resolver × Context)
  | 0, c, r, queue => do
    if queue.any (!c.knows ·.name) then
      .say [.warning contextTarget "reference closure limit reached" ["assembly", "limit"]]
    return (r, c)
  | n + 1, c, r, queue => do
    match ← c.nextReference r queue with
    | (r, none) => return (r, c)
    | (r, some (m, queue)) => close n (c.addReference m) r (queue ++ m.references)

/-- The target with the closure of its references, as far as they resolve. -/
def build (target : Image) (r : Resolver) : Script (Resolver × Context) := do
  let built ← close maxReferences { target := target } r target.references
  .say [.event ⟨.debug, contextTarget, "built type context", ["assembly", "references"]⟩]
  return built

end Context
end Companions
