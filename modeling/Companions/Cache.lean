import Companions.Image.File
/-!
The cache of images: every image that was loaded, by the display form of its identity in the
order of loading, and the canonical path each came from. It outlives a pass.
-/
namespace Companions

/-- Target of the events about loading and resolving. -/
def resolverTarget : String := "ecsgen_model::resolver"

structure Cache where
  images : Table Image := {}
  paths : Table String := {}
  deriving DecidableEq, Repr, Inhabited

namespace Cache

def get? (c : Cache) (i : Identity) : Option Image := c.images.get? i.display

/-- Registers an image; the one that has its identity already stays. -/
def insert (c : Cache) (m : Image) : Cache :=
  { c with images := c.images.insertNew m.identity.display m }

/-- The image that a path is known to hold. -/
def atPath? (c : Cache) (key : Path) : Option Image :=
  (c.paths.get? key.text).bind c.images.get?

/-- Enters an image loaded from a path, and gives the cached image of that identity. -/
def enter (c : Cache) (key : Path) (m : Image) : Cache × Image :=
  let name := m.identity.display
  ({ images := c.images.insertNew name m, paths := c.paths.insert key.text name },
    (c.images.get? name).getD m)

/-- Loads the image at a path unless the path is known. A failure leaves the cache as it is. -/
def loadPath (c : Cache) (path : Path) : Script (Cache × Except ImageError Image) := do
  let key := (← .askCanonical path).getD path
  match c.atPath? key with
  | some m =>
    .say [.event ⟨.trace, resolverTarget, "AssemblyCache::load_path hit", ["path"]⟩]
    return (c, .ok m)
  | none =>
    match ← Image.load path with
    | .error e => return (c, .error e)
    | .ok m =>
      .say [.event ⟨.debug, resolverTarget, "AssemblyCache::load_path decoded", ["path", "assembly"]⟩]
      let (c, m) := c.enter key m
      return (c, .ok m)

end Cache
end Companions
