import Companions.Codec.Config
import Companions.File.Script
import Companions.Image.Error
/-!
Configuration files.
-/
namespace Companions

inductive ConfigError where
  | unreadable (path : Path)
  | unparsable (path : Path)
  deriving DecidableEq, Repr

/-- What is said of a text that is no configuration. -/
def Config.parseMessage : String := "failed to parse ecsgen config JSON"

/-- The messages from the outermost cause inward. -/
def ConfigError.chain : ConfigError → List String
  | .unreadable path => [s!"failed to read ecsgen config: {path.text}", ImageError.ioMark]
  | .unparsable path =>
    [s!"failed to parse ecsgen config: {path.text}", Config.parseMessage, ImageError.jsonMark]

namespace Config

/-- A configuration file is a text in UTF-8; other bytes cannot be read. -/
def load (path : Path) : Script (Except ConfigError Config) := do
  match ← .readFile path with
  | none => return .error (.unreadable path)
  | some bytes =>
    if (ofUtf8? bytes).isNone then return .error (.unreadable path)
    else
      match Config.parse? bytes with
      | none => return .error (.unparsable path)
      | some c => return .ok c

/-- The configuration file in a directory if there is one, or the defaults. -/
def discover (directory : Path) : Script (Except ConfigError Config) := do
  if ← .askFile (directory.join fileName) then load (directory.join fileName)
  else return .ok {}

end Config
end Companions
