import Bundling.Json.Reader
import Bundling.Resolve.Activity
import Bundling.Resolve.Request
import Bundling.Store.Basic

/-!
# Resolution among files

A request that names a path is looked for from the directory of its importer; a bare one in the
package directories of all directories above it, the nearest first. Each target is tried as a file,
with each extension, as what the manifest of a directory calls its main file, and as the index of a
directory.
-/

namespace Bundling.Candidates

variable {σ : Type}

/-- The extensions tried where none are given. -/
def defaultExtensions : List String := ["js", "mjs", "cjs", "json"]

/-- An extension without the points in front of it. -/
def plainExtension (e : String) : String := String.ofList (e.toList.dropWhile (· == '.'))

/-- The name of the directories that hold packages. -/
def packageDir : String := "node_modules"

/-- The package directories above a place, the nearest first; a package directory has none itself. -/
def packageDirs (base : Path) : List Path :=
  (base.ancestors.filter fun d => d.fileName? != some (Text.Utf8.encode packageDir)).map (· / packageDir)

/-- A question about a path to which the answer is no when nothing is there. -/
def probe (store : FileStore σ) (test : FileInfo → Bool) (s : σ) (p : Path) :
    Except ResolveError Bool :=
  match store.stat s p with
  | .ok info => .ok (test info)
  | .error e => if e.isNotFound then .ok false else .error (.store e.message)

def isFile (store : FileStore σ) : σ → Path → Except ResolveError Bool := probe store FileInfo.isFile

def isDir (store : FileStore σ) : σ → Path → Except ResolveError Bool := probe store FileInfo.isDir

/-- The first of some paths that is a file. -/
def firstFile (store : FileStore σ) (s : σ) : List Path → Except ResolveError (Option Path)
  | [] => .ok none
  | p :: ps => do if ← isFile store s p then return some p else firstFile store s ps

/-- A target as a file: the path itself, and with each extension. -/
def asFile (extensions : List String) (target : Path) : List Path :=
  target :: extensions.map fun e => .ofOctets (target.octets ++ Text.Utf8.encode ("." ++ e))

/-- The index files of a directory. -/
def asIndex (extensions : List String) (dir : Path) : List Path :=
  extensions.map fun e => dir / ("index." ++ e)

/-- What a manifest calls its main file. -/
def mainOf (manifest : Path) (text : String) : Except ResolveError (Option String) :=
  match Json.parse? text with
  | none => .error (.plugin "fs" ("invalid " ++ manifest.text))
  | some j =>
    match (j.get? "main").bind Json.string? with
    | some main => .ok (if main.isEmpty then none else some main)
    | none => .ok none

/-- The name of the file that describes a package. -/
def manifestName : String := "package.json"

/-- What the manifest of a directory calls its main file, if there is a manifest. -/
def mainOfDir (store : FileStore σ) (dir : Path) :
    StateM σ (Except ResolveError (Option String)) := do
  let manifest := dir / manifestName
  match isFile store (← get) manifest with
  | .error e => pure (.error e)
  | .ok false => pure (.ok none)
  | .ok true =>
    match ← store.read manifest with
    | .error e => pure (.error (.store e.message))
    | .ok text => pure (mainOf manifest text)

/-- The file that a directory stands for. -/
def loadDir (store : FileStore σ) (extensions : List String) (dir : Path) :
    StateM σ (Except ResolveError (Option Path)) := do
  match isDir store (← get) dir with
  | .error e => pure (.error e)
  | .ok false => pure (.ok none)
  | .ok true =>
    match ← mainOfDir store dir with
    | .error e => pure (.error e)
    | .ok main =>
      let named := match main with
        | some main =>
          let target := (dir / main).clean.toPath
          asFile extensions target ++ asIndex extensions target
        | none => []
      return firstFile store (← get) (named ++ asIndex extensions dir)

/-- The file that a target stands for. -/
def load (store : FileStore σ) (extensions : List String) (target : Path) :
    StateM σ (Except ResolveError (Option Path)) := do
  match firstFile store (← get) (asFile extensions target) with
  | .ok none => loadDir store extensions target
  | found => pure found

/-- The first of some targets that stands for a file. -/
def loadFirst (store : FileStore σ) (extensions : List String) :
    List Path → StateM σ (Except ResolveError (Option Path))
  | [] => pure (.ok none)
  | t :: ts => do
    match ← load store extensions t with
    | .ok none => loadFirst store extensions ts
    | found => pure found

/-- The targets of a request from a place. -/
def targets (base : Path) (request : String) : List Path :=
  if request.isEmpty then []
  else if Request.isPath request then [(base / request).clean.toPath]
  else (packageDirs base).map fun d => (d / request).clean.toPath

/-- A file that was found, as a module. -/
def asModule : Except ResolveError (Option Path) → Except ResolveError (Option ModuleId)
  | .error e => .error e
  | .ok none => .ok none
  | .ok (some p) =>
    match ModuleId.ofPath p with
    | .ok id => .ok (some id)
    | .error e => .error (.ofModuleIdError e)

/-- The place a request is seen from. -/
def baseOf (root : Path) (importer : Option ModuleId) : Path :=
  match importer with
  | some id => id.dir.toPath
  | none => root

/-- The module that a request stands for, if one is found. -/
def resolve (store : FileStore σ) (root : Path) (extensions : List String) (request : String)
    (importer : Option ModuleId) : StateM σ (Except ResolveError (Option ModuleId)) :=
  asModule <$> loadFirst store extensions (targets (baseOf root importer) request)

/-- The resolver that looks among the files of a store. -/
def resolver (store : FileStore σ) (root : Path) (extensions : List String) : Resolver σ where
  name := "fs"
  resolve request importer :=
    .ofState (resolve store root (extensions.map plainExtension) request importer)

end Bundling.Candidates
