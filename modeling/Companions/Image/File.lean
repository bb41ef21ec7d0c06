import Companions.Image.Encoding
import Companions.File.Script
/-!
Images in files: the types at a path, the symbols beside them under the extension `pdb`.
-/
namespace Companions.Image

/-- Reads an image and notes it. -/
def readNoted (image : Bytes) (symbols : Option Bytes) : Script (Except ImageError Image) := do
  match Image.read image symbols with
  | .error e => return .error e
  | .ok m =>
    .say [.event ⟨.debug, imageTarget, "read assembly image", ["assembly", "types", "with_symbols"]⟩]
    return .ok m

/-- Path of the symbols of the image at `path`. -/
def symbolsPath (path : Path) : Path := path.withExtension Name.symbolsExtension

/-- Reads the image at a path, with its symbols if their file exists. -/
def load (path : Path) : Script (Except ImageError Image) := do
  match ← .readFile path with
  | none => return .error (.io path.text)
  | some image =>
    if ← .askFile (symbolsPath path) then
      match ← .readFile (symbolsPath path) with
      | none => return .error (.io (symbolsPath path).text)
      | some symbols => readNoted image (some symbols)
    else readNoted image none

/-- Writes the image first and the symbols second. -/
def save (m : Image) (path : Path) : Script (Except ImageError Unit) := do
  match m.write with
  | .error e => return .error e
  | .ok b =>
    if ← .writeFile path b.image then
      if ← .writeFile (symbolsPath path) b.symbols then return .ok ()
      else return .error (.io (symbolsPath path).text)
    else return .error (.io path.text)

end Companions.Image
