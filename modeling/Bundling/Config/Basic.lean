import Bundling.Path

/-!
# Configuration

What a project can be configured with, and what holds where nothing is said. Options come in groups.
-/

namespace Bundling

/-- What modules are called at run time. -/
inductive PathType where
  /-- By their public path. -/
  | filePath
  /-- By numbers, given at first sight. -/
  | number
  deriving DecidableEq

/-- Where the source map of a bundle goes. -/
inductive MapPlacement where
  /-- Into a comment at the end of the bundle. -/
  | inlined
  /-- Into a file of its own beside the bundle. -/
  | external
  deriving DecidableEq

structure GeneratorOptions where
  /-- The built-in runtime, or the path of another one. -/
  wrapper : String := "normal"
  sourceMap : Bool := false
  mapPlacement : MapPlacement := .external
  pathType : PathType := .filePath
  sourceNamespace : String := "app"
  mapNamespace : String := "app"
  deriving DecidableEq

/-- How modules are divided into chunks. -/
inductive ChunkStrategy where
  /-- One chunk with all entries. -/
  | single
  /-- One chunk for each entry. -/
  | perEntry
  deriving DecidableEq

structure ChunkingOptions where
  strategy : ChunkStrategy := .single
  /-- Whether modules that several chunks share move to a chunk of their own. -/
  commons : Bool := false
  deriving DecidableEq

structure InstallOptions where
  enabled : Bool := false
  save : Bool := false
  silent : Bool := false
  /-- Patterns for the path of the importer relative to the root. -/
  includes : List String := []
  excludes : List String := ["(node_modules|bower_components)"]
  command : String := "npm"
  deriving DecidableEq

structure ResolveOptions where
  /-- What is tried for requests without an extension; without the dot. -/
  extensions : List String := ["js", "mjs", "cjs", "json"]
  install : InstallOptions := {}
  deriving DecidableEq

structure WatchOptions where
  /-- Patterns for paths whose changes are passed over. -/
  ignored : List String := ["**/node_modules/**", "**/.git/**"]
  debounce : UInt64 := 50
  /-- Whether the output is made anew after each change. -/
  generate : Bool := true
  deriving DecidableEq

/-- Settings that do not touch the output. -/
structure Settings where
  logLevel : Option String := none
  deriving DecidableEq

structure Config where
  rootDirectory : Path := ⟨"."⟩
  entries : List Path := []
  outputDir : Path := ⟨"dist"⟩
  generator : GeneratorOptions := {}
  chunking : ChunkingOptions := {}
  resolve : ResolveOptions := {}
  watch : WatchOptions := {}
  /-- The names of the plugins to use. -/
  plugins : List String := ["scan"]
  settings : Settings := {}
  deriving DecidableEq

namespace Config

/-- Sees a relative root from a directory. A root that is just `.` is the directory itself. -/
def withBase (c : Config) (base : Path) : Config :=
  if c.rootDirectory.isAbsolute then c
  else if c.rootDirectory.components = [.here] then { c with rootDirectory := base }
  else { c with rootDirectory := base.join c.rootDirectory }

/-- Where the output goes. -/
def outputPath (c : Config) : Path := c.rootDirectory.join c.outputDir

end Config

end Bundling
