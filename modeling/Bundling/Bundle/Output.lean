import Bundling.Bundle.Basic
import Bundling.Bundle.Error
import Bundling.Store.Disk

/-!
# Writing bundles

Bundles are written into one directory, and no name leads out of it. All files are first written beside
their targets, with a suffix, and only then moved into place; when that fails, what was written beside
is removed again.
-/

namespace Bundling.Output

/-- A file that is to be written. -/
structure Target where
  path : Path
  bytes : List UInt8
  deriving DecidableEq

/-- The output directory, from the root of the disk. -/
def directory (disk : Disk) (dir : Path) : Path :=
  match dir.clean with
  | .absolute names => (CleanPath.absolute names).toPath
  | relative =>
    let workingDir : CleanPath := .absolute disk.workingDir
    (workingDir.toPath.join relative.toPath).clean.toPath

/-- The path of a file in a directory. -/
def targetPath (dir : Path) (name : String) : Except BundleError Path :=
  if name.toList.contains '\x00' then .error (.outputPath "Filename contains null byte")
  else
    let full := (dir.join (Path.mk name).clean.toPath).clean.toPath
    if full.startsWith dir then .ok full
    else .error (.outputPath ("Path '" ++ name ++ "' escapes output directory '" ++ dir.text ++
      "' (resolved to '" ++ full.text ++ "')"))

/-- The path of a file that may be written: without `overwrite` it must not be there. -/
def checkedTarget (disk : Disk) (dir : Path) (overwrite : Bool) (name : String) :
    Except BundleError Path := do
  let path ← targetPath dir name
  if !overwrite && disk.has path then
    .error (.outputExists ("File already exists: '" ++ path.text ++
      "'. Use overwrite=true to replace."))
  else .ok path

/-- The names and texts of the files of a bundle. -/
def contentsOf (maps : Bool) (b : Bundle) : List (String × String) :=
  (b.outputName, b.contents) ::
    match b.sourceMap with
    | some m => if maps then [(b.mapName, m.text)] else []
    | none => []

/-- The files that bundles become. -/
def targets (disk : Disk) (dir : Path) (overwrite maps : Bool) (bs : List Bundle) :
    Except BundleError (List Target) :=
  (bs.flatMap (contentsOf maps)).mapM fun (name, text) => do
    return { path := ← checkedTarget disk dir overwrite name, bytes := Text.Utf8.encode text }

/-- Where a file is written first. -/
def aside (p : Path) : Path := .ofOctets (p.octets ++ Text.Utf8.encode ".tmp")

/-- Removes what was written beside the targets, as far as it is there. -/
def cleanUp (disk : Disk) : List Path → Disk
  | [] => disk
  | p :: ps =>
    match disk.has (aside p), disk.removeFile (aside p) with
    | true, .ok disk => cleanUp disk ps
    | _, _ => cleanUp disk ps

/-- Writes files beside their targets; `written` are the targets of those that are there already. -/
def writeAside : (written : List Path) → List Target → Disk → Except BundleError Unit × Disk
  | _, [], disk => (.ok (), disk)
  | written, t :: ts, disk =>
    let (made, disk) := match t.path.parent? with
      | some above => disk.makeDirAll above
      | none => (.ok (), disk)
    match made with
    | .error e =>
      (.error (.write ("Failed to create directory '" ++ ((t.path.parent?).getD t.path).text ++ "': " ++
        e.message)), cleanUp disk written)
    | .ok () =>
      match disk.writeBytes (aside t.path) t.bytes with
      | .ok disk => writeAside (written ++ [t.path]) ts disk
      | .error e =>
        (.error (.write ("Failed to write temporary file '" ++ (aside t.path).text ++ "': " ++
          e.message)), cleanUp disk written)

/-- Moves files into place; `all` are the targets of all that were written. -/
def moveAll (all : List Path) : List Path → Disk → Except BundleError Unit × Disk
  | [], disk => (.ok (), disk)
  | p :: ps, disk =>
    match disk.rename (aside p) p with
    | .ok disk => moveAll all ps disk
    | .error e =>
      (.error (.write ("Failed to rename '" ++ (aside p).text ++ "' to '" ++ p.text ++ "': " ++
        e.message)), cleanUp disk all)

/-- Writes bundles, and their source maps if `maps` holds. Gives the paths in order. -/
def write (disk : Disk) (bs : List Bundle) (dir : Path) (overwrite maps : Bool) :
    Except BundleError (List Path) × Disk :=
  let dir := directory disk dir
  match disk.makeDirAll dir with
  | (.error e, disk) =>
    (.error (.write ("Failed to create output directory '" ++ dir.text ++ "': " ++ e.message)), disk)
  | (.ok (), disk) =>
    match targets disk dir overwrite maps bs with
    | .error e => (.error e, disk)
    | .ok ts =>
      let paths := ts.map Target.path
      match writeAside [] ts disk with
      | (.error e, disk) => (.error e, disk)
      | (.ok (), disk) =>
        match moveAll paths paths disk with
        | (.error e, disk) => (.error e, disk)
        | (.ok (), disk) => (.ok paths, disk)

end Bundling.Output
