import Bundling.Config.Environment
import Bundling.Config.Validation
import Bundling.Config.Writer

/-!
# Layers of configuration

A configuration can be put together from several sources: defaults, the `bale` member of the package
file, the configuration file, and the environment. Later sources hide earlier ones key by key: tables
are merged, all else is replaced as a whole. Only then the result is read as a configuration.
-/

namespace Bundling

mutual

/-- One value with another one laid over it. -/
def Json.overlay : (lower upper : Json) → Json
  | .object ms, .object ns => .object (overlayMembers ms ns)
  | _, j => j

/-- Members with others laid over them. -/
def Json.overlayMembers : (lower upper : List (String × Json)) → List (String × Json)
  | ms, [] => ms
  | ms, (key, j) :: ns =>
    let merged := match ms.lookup key with
      | some i => Json.overlay i j
      | none => j
    overlayMembers (assign key merged ms) ns

end

namespace Config

/-- The name of the configuration file. -/
def fileName : String := "bale.toml"

def packageFileName : String := "package.json"

/-- The member of the package file that configures. -/
def packageField : String := "bale"

/-- What the environment variables start with. -/
def environmentPrefix : String := "BALE_"

/-- Merges sources, the lowest first, and reads the result. -/
def ofLayers (layers : List Json) : Except Json.DecodeError Config :=
  ofJson .lenient (layers.foldl Json.overlay (toJson {}))

/-- The table that a package file has for us; another value counts for nothing. -/
def packageLayer (package : Json) : List Json :=
  match package.get? packageField with
  | some (.object ms) => [.object ms]
  | _ => []

/-- What is said about sources that make no configuration. -/
def layersError (reason : String) : ConfigError :=
  .invalidValue "configuration" (some (reason ++ ". Check bale.toml syntax and field types"))

/-- The layer of a file that is there; `read` takes its text. -/
def fileLayer (disk : Disk) (path : Path) (read : String → Option (List Json)) :
    Except ConfigError (List Json) :=
  if disk.isFile path then
    match disk.readText path with
    | .error e => .error (layersError e.message)
    | .ok text =>
      match read text with
      | some layers => .ok layers
      | none => .error (layersError ("cannot read " ++ path.text))
  else .ok []

/-- The layer of the package file, which has to hold an object. -/
def readPackage (text : String) : Option (List Json) := do
  match (← Json.parse? text).sorted with
  | .object ms => some (packageLayer (.object ms))
  | _ => none

def readToml (text : String) : Option (List Json) := (Toml.parse? text).map fun j => [j.sorted]

/-- Reads all sources of a directory. -/
def load (disk : Disk) (dir : Path) (start : String) (environment : List (String × String)) :
    Except ConfigError Config := do
  let package ← fileLayer disk (dir / packageFileName) readPackage
  let file ← fileLayer disk (dir / fileName) readToml
  match ofLayers (package ++ file ++ Environment.settings start environment) with
  | .ok c => .ok (c.withBase dir)
  | .error e => .error (layersError e.message)

end Config

end Bundling
