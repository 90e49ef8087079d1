import Bundling.Path

/-!
# Module ids and the project root

A module id is an absolute, lexically normalised path, so two requests that reach one file by
different spellings share an id. `ProjectRoot` converts between ids, paths relative to the project
and public paths, which start with the token `$root` and never show where the project lies.
-/

namespace Bundling

/-- Identifier of a module: the names on the way from the root to its file. -/
structure ModuleId where
  names : List Name
  deriving DecidableEq

/-- Why a path is no module id. -/
inductive ModuleIdError where
  | emptyPath
  | notAbsolute (path : Path)
  deriving DecidableEq

namespace ModuleIdError

def message : ModuleIdError → String
  | emptyPath => "module id path is empty"
  | notAbsolute p => "module id path '" ++ p.text ++ "' is not absolute"

end ModuleIdError

namespace ModuleId

instance : Hashable ModuleId := ⟨fun id => hash id.names⟩

def clean (id : ModuleId) : CleanPath := .absolute id.names

def components (id : ModuleId) : List Component := id.clean.components

def text (id : ModuleId) : String := id.clean.text

def path (id : ModuleId) : Path := id.clean.toPath

instance : ToString ModuleId := ⟨text⟩

/-- The directory of the module's file; the root is its own directory. -/
def dir (id : ModuleId) : CleanPath := .absolute id.names.dropLast

/-- A normalised path as an id; `written` is what an error shows. -/
def ofClean (written : Path) : CleanPath → Except ModuleIdError ModuleId
  | .absolute ns => .ok ⟨ns⟩
  | .relative .. => .error (.notAbsolute written)

/-- The id of an absolute path. -/
def ofPath (p : Path) : Except ModuleIdError ModuleId :=
  if p.isEmpty then .error .emptyPath else ofClean p p.clean

/-- The id of a path that, when relative, is seen from `root`. -/
def ofPathFrom (root p : Path) : Except ModuleIdError ModuleId :=
  if p.isEmpty then .error .emptyPath else ofPath (root.join p)

end ModuleId

/-- The way from one place to another: up from `base` to what both share, then down. -/
def relativeComponents : List Component → List Component → List Component
  | b :: bs, t :: ts =>
    if b = t then relativeComponents bs ts
    else (b :: bs).map (fun _ => .up) ++ t :: ts
  | bs, ts => bs.map (fun _ => .up) ++ ts

/-- The relative path from `base` to `target` as a text, with every step as it is shown. -/
def relativePath (base target : List Component) : String :=
  "/".intercalate ((relativeComponents base target).map Component.text)

/-- The token that stands for the project root in public paths. -/
def rootToken : String := "$root"

/-- The directory a project lives in. -/
structure ProjectRoot where
  dir : CleanPath
  deriving DecidableEq

namespace ProjectRoot

def ofPath (p : Path) : ProjectRoot := ⟨p.clean⟩

def path (r : ProjectRoot) : Path := r.dir.toPath

/-- What follows the root token, without leading separators of either kind. -/
def afterToken? (text : String) : Option String :=
  if rootToken.toList.isPrefixOf text.toList then
    some (String.ofList ((text.toList.drop rootToken.length).dropWhile fun c => c == '/' || c == '\\'))
  else none

/-- The id of a path as a user writes it: public, relative to the root, or absolute. -/
def toId (r : ProjectRoot) (p : Path) : Except ModuleIdError ModuleId :=
  match afterToken? p.text with
  | some rest => ModuleId.ofPathFrom r.path ⟨rest⟩
  | none => ModuleId.ofPathFrom r.path p

/-- The path of a module relative to the root. -/
def relative (r : ProjectRoot) (id : ModuleId) : String :=
  relativePath r.dir.components id.components

/-- The public path of a module. -/
def publicPath (r : ProjectRoot) (id : ModuleId) : String :=
  rootToken ++ "/" ++ r.relative id

end ProjectRoot

end Bundling
