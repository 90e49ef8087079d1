import Bundling.Config.Layers

/-!
# Finding the configuration

The configuration of a directory is its configuration file, or else the `bale` member of its package
file.
-/

namespace Bundling.Config

/-- Where the text of a file is read; octets that are no text are an error as well. -/
private def fileText (disk : Disk) (path : Path) : Except ConfigError String :=
  match disk.readBytes path with
  | .error e => .error (.io e.message)
  | .ok bytes =>
    match Text.Utf8.decode bytes with
    | .ok cs => .ok (String.ofList cs)
    | .error _ => .error (.io "stream did not contain valid UTF-8")

/-- The member of a package file that configures, if it says anything. -/
def packageValue? (package : Json) : Option Json :=
  match package.get? packageField with
  | none | some .null => none
  | some j => some j

/-- The file that configures a directory. -/
def find? (disk : Disk) (dir : Path) : Option Path :=
  let own := dir / fileName
  if disk.has own then some own
  else
    let package := dir / packageFileName
    match fileText disk package with
    | .error _ => none
    | .ok text => do
      let _ ← packageValue? (← Json.parse? text)
      some package

/-- The configuration in a file. -/
def ofFile (disk : Disk) (path : Path) : Except ConfigError Config := do
  let text ← fileText disk path
  if path.fileName? = some (Text.Utf8.encode packageFileName) then
    match Json.parse? text with
    | none => .error (.invalidValue "package.json" (some "Invalid JSON"))
    | some package =>
      match packageValue? package with
      | some j => ofValue j
      | none =>
        .error (.invalidValue packageField (some "Add a 'bale' field to your package.json"))
  else
    match Toml.parse? text with
    | none => .error (.invalidValue "toml" (some "Invalid TOML syntax"))
    | some j => ofValue j.finite

/-- Finds and reads the configuration of a directory. -/
def discover (disk : Disk) (dir : Path) : Except ConfigError Config :=
  match find? disk dir with
  | none => .error .notFound
  | some path => (ofFile disk path).map fun c => c.withBase dir

end Bundling.Config
