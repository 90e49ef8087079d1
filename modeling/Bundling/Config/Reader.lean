import Bundling.Config.Basic
import Bundling.Json.Record

/-!
# Reading configurations

Each group of options is read from an object. A field that is not given has the value that the group names for it (`absent`), and a
group that is not given is the default one.
-/

namespace Bundling

open Json (Decoder RecordField)
open Json.Record (decoder)

def PathType.names : List (String × PathType) := [("file_path", .filePath), ("number", .number)]

def MapPlacement.names : List (String × MapPlacement) :=
  [("inline", .inlined), ("external", .external)]

def ChunkStrategy.names : List (String × ChunkStrategy) :=
  [("single", .single), ("per_entry", .perEntry)]

/-- A path as a string. -/
def Path.decoder : Decoder Path
  | _, .string s => .ok ⟨s⟩
  | _, j => .error (.invalidType j "path string")

namespace GeneratorOptions

def fields : List (RecordField GeneratorOptions) := [
  .of "wrapper" .string fun v o => { o with wrapper := v },
  .of "source_map" .bool fun v o => { o with sourceMap := v },
  .of "source_map_path" (.variant MapPlacement.names) fun v o => { o with mapPlacement := v },
  .of "path_type" (.variant PathType.names) fun v o => { o with pathType := v },
  .of "source_namespace" .string fun v o => { o with sourceNamespace := v },
  .of "source_map_namespace" .string fun v o => { o with mapNamespace := v }]

/-- What fields are that are not given. -/
def absent : GeneratorOptions where
  wrapper := "normal"
  sourceMap := false
  mapPlacement := .external
  pathType := .filePath
  sourceNamespace := "app"
  mapNamespace := "app"

def ofJson : Decoder GeneratorOptions := decoder "GeneratorOptions" fields absent

end GeneratorOptions

namespace ChunkingOptions

def fields : List (RecordField ChunkingOptions) := [
  .of "strategy" (.variant ChunkStrategy.names) fun v o => { o with strategy := v },
  .of "commons" .bool fun v o => { o with commons := v }]

/-- What fields are that are not given. -/
def absent : ChunkingOptions where
  strategy := .single
  commons := false

def ofJson : Decoder ChunkingOptions := decoder "ChunkingOptions" fields absent

end ChunkingOptions

namespace InstallOptions

def fields : List (RecordField InstallOptions) := [
  .of "enabled" .bool fun v o => { o with enabled := v },
  .of "save" .bool fun v o => { o with save := v },
  .of "silent" .bool fun v o => { o with silent := v },
  .of "include" (.list .string) fun v o => { o with includes := v },
  .of "exclude" (.list .string) fun v o => { o with excludes := v },
  .of "command" .string fun v o => { o with command := v }]

/-- What fields are that are not given. -/
def absent : InstallOptions where
  enabled := false
  save := false
  silent := false
  includes := []
  excludes := ["(node_modules|bower_components)"]
  command := "npm"

def ofJson : Decoder InstallOptions := decoder "InstallConfig" fields absent

end InstallOptions

namespace ResolveOptions

def fields : List (RecordField ResolveOptions) := [
  .of "extensions" (.list .string) fun v o => { o with extensions := v },
  .of "install" InstallOptions.ofJson fun v o => { o with install := v }]

/-- What fields are that are not given. -/
def absent : ResolveOptions where
  extensions := ["js", "mjs", "cjs", "json"]
  install := {}

def ofJson : Decoder ResolveOptions := decoder "ResolveOptions" fields absent

end ResolveOptions

namespace WatchOptions

def fields : List (RecordField WatchOptions) := [
  .of "ignored" (.list .string) fun v o => { o with ignored := v },
  .of "debounce_ms" .word fun v o => { o with debounce := v },
  .of "generate" .bool fun v o => { o with generate := v }]

/-- What fields are that are not given. -/
def absent : WatchOptions where
  ignored := ["**/node_modules/**", "**/.git/**"]
  debounce := 50
  generate := true

def ofJson : Decoder WatchOptions := decoder "WatchConfig" fields absent

end WatchOptions

namespace Settings

def fields : List (RecordField Settings) := [
  .of "log_level" (.nullable .string) fun v o => { o with logLevel := v }]

/-- What fields are that are not given. -/
def absent : Settings where
  logLevel := none

def ofJson : Decoder Settings := decoder "GlobalSettings" fields absent

end Settings

namespace Config

def fields : List (RecordField Config) := [
  .of "root_directory" Path.decoder fun v c => { c with rootDirectory := v },
  .of "entries" (.list Path.decoder) fun v c => { c with entries := v },
  .of "output_dir" Path.decoder fun v c => { c with outputDir := v },
  .of "generator" GeneratorOptions.ofJson fun v c => { c with generator := v },
  .of "chunking" ChunkingOptions.ofJson fun v c => { c with chunking := v },
  .of "resolve" ResolveOptions.ofJson fun v c => { c with resolve := v },
  .of "watch" WatchOptions.ofJson fun v c => { c with watch := v },
  .of "plugins" (.list .string) fun v c => { c with plugins := v },
  .of "settings" Settings.ofJson fun v c => { c with settings := v }]

/-- What fields are that are not given. -/
def absent : Config where
  rootDirectory := ⟨"."⟩
  entries := []
  outputDir := ⟨"dist"⟩
  generator := {}
  chunking := {}
  resolve := {}
  watch := {}
  plugins := ["scan"]
  settings := {}

def ofJson : Decoder Config := decoder "BaleConfig" fields absent

end Config

end Bundling
