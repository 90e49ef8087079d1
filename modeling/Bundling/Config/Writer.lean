import Bundling.Config.Basic
import Bundling.Json

/-!
# Writing configurations

A configuration as a JSON value with all fields, the keys in the order of their bytes.
-/

namespace Bundling

private def texts (ss : List String) : Json := .array (ss.map .string)

def PathType.text : PathType → String
  | filePath => "file_path"
  | number => "number"

def MapPlacement.text : MapPlacement → String
  | inlined => "inline"
  | external => "external"

def ChunkStrategy.text : ChunkStrategy → String
  | single => "single"
  | perEntry => "per_entry"

def GeneratorOptions.toJson (o : GeneratorOptions) : Json := .object [
  ("path_type", .string o.pathType.text),
  ("source_map", .bool o.sourceMap),
  ("source_map_namespace", .string o.mapNamespace),
  ("source_map_path", .string o.mapPlacement.text),
  ("source_namespace", .string o.sourceNamespace),
  ("wrapper", .string o.wrapper)]

def ChunkingOptions.toJson (o : ChunkingOptions) : Json := .object [
  ("commons", .bool o.commons),
  ("strategy", .string o.strategy.text)]

def InstallOptions.toJson (o : InstallOptions) : Json := .object [
  ("command", .string o.command),
  ("enabled", .bool o.enabled),
  ("exclude", texts o.excludes),
  ("include", texts o.includes),
  ("save", .bool o.save),
  ("silent", .bool o.silent)]

def ResolveOptions.toJson (o : ResolveOptions) : Json := .object [
  ("extensions", texts o.extensions),
  ("install", o.install.toJson)]

def WatchOptions.toJson (o : WatchOptions) : Json := .object [
  ("debounce_ms", .number (.int o.debounce.toNat)),
  ("generate", .bool o.generate),
  ("ignored", texts o.ignored)]

def Settings.toJson (o : Settings) : Json := .object [
  ("log_level", match o.logLevel with
    | some s => .string s
    | none => .null)]

/-- Paths are written as they are shown. -/
def Config.toJson (c : Config) : Json := .object [
  ("chunking", c.chunking.toJson),
  ("entries", texts (c.entries.map Path.text)),
  ("generator", c.generator.toJson),
  ("output_dir", .string c.outputDir.text),
  ("plugins", texts c.plugins),
  ("resolve", c.resolve.toJson),
  ("root_directory", .string c.rootDirectory.text),
  ("settings", c.settings.toJson),
  ("watch", c.watch.toJson)]

end Bundling
